import ClusterFs.Proofs.DriveTransfers
import ClusterFs.Proofs.Storage

/-!
The drive as storage: the disk over a drive that can move all its sectors keeps the contract of a
storage, and a probe finds the size that the drive reports.
-/
namespace ClusterFs

namespace Ata
open LittleEndian

namespace Drive

variable {d e : Drive} {n : Nat}

/-- A drive that is there, reports no error after a flush, and can move its first sectors both
ways. -/
structure Works (d : Drive) (sectors : Nat) : Prop where
  present : d.present = true
  flushes : d.flushFails = false
  moves : ∀ lba < sectors, d.canMove .read lba = true ∧ d.canMove .write lba = true

theorem Kept.works (h : Kept d e) (hd : d.Works n) : e.Works n where
  present := h.present.trans hd.present
  flushes := h.flushFails.trans hd.flushes
  moves lba hlba := by
    rw [h.canMove, h.canMove]
    exact hd.moves lba hlba

end Drive

namespace Disk

/-- A drive that can move its sectors reads all of a transfer. -/
theorem read_ok {d : Disk} {lba count capacity : Nat}
    (hworks : d.drive.Works (min d.sectors addressLimit))
    (hrange : lba + count ≤ min d.sectors addressLimit) (hroom : count * sectorSize ≤ capacity) :
    ∃ e, d.read lba count capacity =
        (⟨d.sectors, e⟩, ⟨Image.sectors d.drive.image lba count, .ok ()⟩) ∧
      d.drive.Kept e ∧ e.image = d.drive.image := by
  have hmoved := Drive.movable_of_forall fun i (hi : i < count) =>
    (hworks.moves (lba + i) (by omega)).1
  obtain ⟨e, issued, hread, hkept, himage, -⟩ := read_eq hworks.present hrange hroom hmoved
  rw [transferOutcome, if_pos rfl] at hread
  exact ⟨e, hread, hkept, himage⟩

/-- A drive that can move its sectors stores all of a transfer. -/
theorem write_ok {d : Disk} {lba count : Nat} {bytes : Array UInt8}
    (hworks : d.drive.Works (min d.sectors addressLimit))
    (hrange : lba + count ≤ min d.sectors addressLimit) (hsize : count * sectorSize ≤ bytes.size) :
    ∃ e, d.write bytes lba count = (⟨d.sectors, e⟩, .ok ()) ∧ d.drive.Kept e ∧
      e.image = Image.patch d.drive.image (lba * sectorSize) (Image.sectors bytes 0 count) := by
  have hmoved := Drive.movable_of_forall fun i (hi : i < count) =>
    (hworks.moves (lba + i) (by omega)).2
  obtain ⟨e, issued, flushed, hwrite, hkept, himage, -⟩ :=
    write_eq hworks.present hrange hsize hmoved
  rw [if_pos ⟨rfl, hworks.flushes⟩] at hwrite
  exact ⟨e, hwrite, hkept, himage⟩

end Disk

/-- A disk over a drive that can move all the sectors found that can be addressed. -/
def storage (sectors : Nat) : Storage Disk where
  Ready d := d.sectors = sectors ∧ d.drive.Works (min sectors addressLimit)
  image d := d.drive.image
  sectors _ := min sectors addressLimit
  writesLeft _ := none
  sectors_le := by
    rintro d ⟨-, hworks⟩
    generalize min sectors addressLimit = n at hworks ⊢
    cases n with
    | zero =>
      rw [Nat.zero_mul]
      exact Nat.zero_le _
    | succ n => exact Drive.end_le_of_canMove (hworks.moves n (Nat.lt_succ_self n)).1 (by decide)
  read_eq := by
    rintro d lba count capacity ⟨rfl, hworks⟩ hrange hroom
    obtain ⟨e, hread, hkept, himage⟩ := Disk.read_ok hworks hrange hroom
    refine ⟨⟨d.sectors, e⟩, ?_, ⟨rfl, hkept.works hworks⟩, himage, rfl, rfl⟩
    rw [← Nat.add_mul]
    exact hread
  write_eq := by
    rintro d lba count bytes ⟨rfl, hworks⟩ hrange hsize -
    obtain ⟨e, hwrite, hkept, himage⟩ := Disk.write_ok hworks hrange (Nat.le_of_eq hsize.symm)
    refine ⟨⟨d.sectors, e⟩, hwrite, ⟨rfl, hkept.works hworks⟩, ?_, rfl, rfl⟩
    rw [himage, Image.sectors, Nat.zero_mul, Nat.zero_add, ← hsize, Array.extract_size]
  write_fault := nofun

/-- A read that ends past the sectors is refused. -/
theorem read_outOfRange {d : Disk} {lba count capacity : Nat}
    (hrange : min d.sectors addressLimit < lba + count) (hroom : count * sectorSize ≤ capacity) :
    BlockDevice.read d lba count capacity = (d, ⟨#[], .error .outOfRange⟩) := by
  show d.read lba count capacity = _
  rw [Disk.read, Disk.refusal_eq hroom, if_neg (by omega)]

/-! ### The probe -/

/-- The number of sectors that a drive answers with: it has 32 bits for it. -/
def Drive.reported (d : Drive) : Nat := d.reportedSectors % 4294967296

/-- A status that is read of a drive with a transfer under way is not zero, and a wait for data
then finds the drive ready. -/
theorem readStatus_spec {d : Drive} (hd : d.present = true) (hfailed : d.failed = false)
    (htransfer : d.transfer.isSome = true) :
    ∃ b status, d.readStatus = (b, status) ∧ status ≠ 0 ∧
      waitDataRequest b = (d.settled, .ready) := by
  by_cases howed : 0 < d.owed
  · refine ⟨{ d with owed := d.owed - 1 }, statusBusy, ?_, by decide, ?_⟩
    · simp [Drive.readStatus, hd, howed]
    · exact waitDataRequest_eq (d := { d with owed := d.owed - 1 }) hd hfailed htransfer
  · refine ⟨d, 0x58, ?_, by decide, waitDataRequest_eq hd hfailed htransfer⟩
    simp [Drive.readStatus, Drive.restingStatus, hd, howed, hfailed, htransfer]

/-- The registers of a probe. -/
def Drive.cleared (d : Drive) : Drive :=
  { d with driveHead := 0xA0, count := 0, lbaLow := 0, lbaMid := 0, lbaHigh := 0 }

theorem issue_identify {d : Drive} (h : d.identifyFails = false) :
    d.issue codeIdentify = (d.commanded codeIdentify).beginSector .identify 0 1 := by
  unfold Drive.issue
  rw [if_pos rfl]
  exact if_neg (by simp [Drive.turnBusy, h])

/-- Words 60 and 61 of the answer are the size. -/
theorem probe_of_words {d b r e : Drive} {status : UInt8} {word : Nat → UInt16}
    (hissue : (d.cleared.issue codeIdentify).readStatus = (b, status)) (hne : status ≠ 0)
    (hwait : waitDataRequest b = (r, .ready))
    (hwords : receiveWords r 256 #[] = (e, wordBytes word 0 256)) :
    probe d = (e, .found ((word 61).toNat * 65536 + (word 60).toNat)) := by
  have hbyte (j : Nat) (hj : j < 512) :
      (wordBytes word 0 256).getD j 0 = byteOf (word (j / 2)).toNat (j % 2) := by
    rw [Array.getD_eq_getD_getElem?, getElem?_wordBytes, if_pos (by omega), Nat.zero_add,
      Option.getD_some]
  unfold Drive.cleared at hissue
  unfold probe
  simp only [hissue, if_neg hne, hwait, hwords, hbyte 120 (by decide), hbyte 121 (by decide),
    hbyte 122 (by decide), hbyte 123 (by decide)]
  simp only [Nat.reduceDiv, Nat.reduceMod, word16_byteOf]

/-- A drive that is there and does not refuse to identify itself is found. -/
theorem probe_eq {d : Drive} (hd : d.present = true) (hidentify : d.identifyFails = false) :
    ∃ e, probe d = (e, .found d.reported) ∧ d.Kept e ∧ e.image = d.image := by
  have hkept : d.Kept (d.cleared.commanded codeIdentify) := ⟨rfl, rfl, rfl, rfl, rfl, rfl⟩
  have hmoving := (Drive.begun_beginSector (d := d.cleared.commanded codeIdentify) .identify 0 1
    rfl).moving fun _ => rfl
  obtain ⟨hkept', himage, -⟩ :=
    (d.cleared.commanded codeIdentify).frame_beginSector .identify 0 1
  have hissue := issue_identify (d := d.cleared) hidentify
  generalize (d.cleared.commanded codeIdentify).beginSector .identify 0 1 = b
    at hmoving hkept' himage hissue
  have hkept := hkept.trans hkept'
  have htransfer : b.transfer = some ⟨.identify, 0, 1, 0, #[]⟩ := hmoving.transfer
  obtain ⟨r, status, hstatus, hne, hwait⟩ :=
    readStatus_spec (hkept.present.trans hd) hmoving.failed (by rw [htransfer]; rfl)
  have hwords := receiveWords_eq (d := b.settled) (n := 255) htransfer nofun rfl #[]
  obtain ⟨hlater, himage', -⟩ := b.settled.turnBusy.frame_beginSector .identify 1 0
  rw [Array.empty_append] at hwords
  rw [← hissue] at hstatus
  refine ⟨_, (probe_of_words hstatus hne hwait hwords).trans ?_,
    hkept.trans (b.kept_settled.trans hlater), himage'.trans himage⟩
  have hreported : b.settled.reportedSectors = d.reportedSectors := hkept.reportedSectors
  have hsize : (UInt16.ofNat (d.reportedSectors / 65536)).toNat * 65536 +
      (UInt16.ofNat d.reportedSectors).toNat = d.reported := by
    simp only [UInt16.toNat_ofNat', Drive.reported]
    omega
  simp only [Drive.wordAt, Drive.identityWord, hreported, Nat.reduceEqDiff, if_true, if_false,
    hsize]

end Ata

end ClusterFs
