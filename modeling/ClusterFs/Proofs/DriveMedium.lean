import ClusterFs.Proofs.Halting
import ClusterFs.Proofs.Outages

/-!
The drive as a device without a promise to work. The disk over any drive is a medium, also when the
drive is not there, is smaller than the size found, has sectors that do not move, or reports an
error after the flush. A transfer moves a first part of its sectors, each of them whole, and if it
succeeds, all of them.
-/
namespace ClusterFs.Ata

/-! ### A drive that is not there -/

theorem waitNotBusy_absent {d : Drive} (hd : d.present = false) : waitNotBusy d = (d, 0) := by
  have hstatus : d.readStatus = (d, 0) := by simp [Drive.readStatus, hd]
  have hidle : (0 : UInt8) &&& statusBusy = 0 := by decide
  rw [waitNotBusy, hstatus]
  exact dif_pos hidle

theorem waitDataRequest_absent {d : Drive} (hd : d.present = false) :
    waitDataRequest d = (d, .never) := by
  simp only [waitDataRequest, waitNotBusy_absent hd]
  rfl

theorem start_absent {code : UInt8} {kind : TransferKind} (hcode : Begins code kind) {d : Drive}
    (hd : d.present = false) (lba count : Nat) :
    (start d lba count code).present = false ∧ (start d lba count code).image = d.image := by
  have hstart : start d lba count code = (d.addressed lba count).issue code := by
    rw [start, waitNotBusy_absent (by exact hd)]
    rfl
  rw [hstart, issue_eq hcode]
  obtain ⟨hkept, himage, -⟩ := Drive.frame_beginSector _ kind _ _
  exact ⟨hkept.present.trans hd, himage⟩

/-- Of a drive that is not there only an empty transfer succeeds. -/
theorem readBatches_absent {batches : List (Nat × Nat)} {first last : Nat}
    (hbatches : Tiles first last batches) {d : Drive} (hd : d.present = false) (lba : Nat)
    (taken : Array UInt8) :
    (readBatches d lba batches taken).1.image = d.image ∧
      ((readBatches d lba batches taken).2.outcome = .ok () → first = last) := by
  cases batches with
  | nil => exact ⟨rfl, fun _ => hbatches⟩
  | cons batch rest =>
    obtain ⟨done, n⟩ := batch
    obtain ⟨rfl, hpos, -⟩ := hbatches
    obtain ⟨m, rfl⟩ := Nat.exists_eq_succ_of_ne_zero (Nat.ne_of_gt hpos)
    obtain ⟨habsent, himage⟩ := start_absent .read hd (lba + done) (m + 1)
    rw [readBatches, receiveSectors, waitDataRequest_absent habsent]
    exact ⟨himage, fun hok => by cases hok⟩

theorem writeBatches_absent {batches : List (Nat × Nat)} {first last : Nat}
    (hbatches : Tiles first last batches) {d : Drive} (hd : d.present = false)
    (bytes : Array UInt8) (lba : Nat) :
    (writeBatches d bytes lba batches).1.present = false ∧
      (writeBatches d bytes lba batches).1.image = d.image ∧
      ((writeBatches d bytes lba batches).2 = .ok () → first = last) := by
  cases batches with
  | nil => exact ⟨hd, rfl, fun _ => hbatches⟩
  | cons batch rest =>
    obtain ⟨done, n⟩ := batch
    obtain ⟨rfl, hpos, -⟩ := hbatches
    obtain ⟨m, rfl⟩ := Nat.exists_eq_succ_of_ne_zero (Nat.ne_of_gt hpos)
    obtain ⟨habsent, himage⟩ := start_absent .write hd (lba + done) (m + 1)
    rw [writeBatches, sendSectors, waitDataRequest_absent habsent]
    exact ⟨habsent, himage, fun hok => by cases hok⟩

theorem image_flush_absent {d : Drive} (hd : d.present = false) : (flush d).1.image = d.image := by
  rw [flush, issue_flush, waitNotBusy_absent (by exact hd)]
  rfl

/-! ### All drives -/

/-- The sectors that move lie on the drive. -/
theorem Drive.end_le_of_movable {d : Drive} {kind : TransferKind} {lba n moved : Nat}
    (h : d.movable kind lba n = moved) (hpos : 0 < moved) (hkind : kind ≠ .identify) :
    (lba + moved) * sectorSize ≤ d.image.size := by
  have hlast := end_le_of_canMove
    (canMove_of_lt_movable (show moved - 1 < d.movable kind lba n by omega)) hkind
  rwa [Nat.add_assoc, Nat.sub_add_cancel hpos] at hlast

namespace Disk

variable {d d' : Disk} {lba count capacity : Nat} {bytes : Array UInt8}

theorem of_refusal_eq_none {size : Nat} (h : d.refusal lba count size = none) :
    count * sectorSize ≤ size ∧ lba + count ≤ min d.sectors addressLimit := by
  unfold refusal at h
  split_ifs at h with hshort hpast
  omega

/-- Of every drive a read delivers a first part of its sectors, and all of them if it succeeds. -/
theorem exists_delivered (d : Disk) (lba count capacity : Nat) :
    (d.read lba count capacity).1.drive.image = d.drive.image ∧
      ((d.read lba count capacity).2.outcome = .ok () → 0 < count →
        (lba + count) * sectorSize ≤ d.drive.image.size ∧
          (d.read lba count capacity).2.bytes = Image.sectors d.drive.image lba count) := by
  cases hrefusal : d.refusal lba count capacity with
  | some e =>
    rw [read, hrefusal]
    exact ⟨rfl, fun hok => by cases hok⟩
  | none =>
    obtain ⟨hroom, hrange⟩ := of_refusal_eq_none hrefusal
    cases hpresent : d.drive.present with
    | true =>
      obtain ⟨e, issued, hread, -, himage, -⟩ := read_eq hpresent hrange hroom rfl
      rw [hread]
      refine ⟨himage, fun hok hpos => ?_⟩
      have hall : d.drive.movable .read lba count = count := by
        by_contra hfew
        rw [transferOutcome, if_neg hfew] at hok
        cases hok
      exact ⟨Drive.end_le_of_movable hall hpos (by decide), by rw [hall]⟩
    | false =>
      rw [read, hrefusal]
      obtain ⟨himage, hempty⟩ := readBatches_absent (tiles_batches count) hpresent lba #[]
      exact ⟨himage, fun hok hpos => absurd (hempty hok) (Nat.ne_of_lt hpos)⟩

/-- On every drive a write stores a first part of its sectors, and all of them if it succeeds. -/
theorem exists_stored (d : Disk) (bytes : Array UInt8) (lba count : Nat) :
    ∃ moved, moved ≤ count ∧ moved * sectorSize ≤ bytes.size ∧
      (d.write bytes lba count).1.drive.image =
        Image.patch d.drive.image (lba * sectorSize) (Image.sectors bytes 0 moved) ∧
      (0 < moved → (lba + moved) * sectorSize ≤ d.drive.image.size) ∧
      ((d.write bytes lba count).2 = .ok () → 0 < count → moved = count) := by
  have hnothing : Image.patch d.drive.image (lba * sectorSize) (Image.sectors bytes 0 0) =
      d.drive.image := by
    rw [Image.sectors_zero, Image.patch_empty]
  have hzero : 0 * sectorSize ≤ bytes.size := (Nat.zero_mul sectorSize).symm ▸ Nat.zero_le _
  have hnone : 0 < 0 → (lba + 0) * sectorSize ≤ d.drive.image.size :=
    fun hpos => absurd hpos (Nat.lt_irrefl 0)
  cases hrefusal : d.refusal lba count bytes.size with
  | some e =>
    rw [write, hrefusal]
    exact ⟨0, Nat.zero_le _, hzero, hnothing.symm, hnone, fun hok => by cases hok⟩
  | none =>
    obtain ⟨hroom, hrange⟩ := of_refusal_eq_none hrefusal
    cases hpresent : d.drive.present with
    | true =>
      obtain ⟨e, issued, flushed, hwrite, -, himage, -⟩ := write_eq hpresent hrange hroom rfl
      rw [hwrite]
      have hle := d.drive.movable_le .write lba count
      refine ⟨_, hle, Nat.le_trans (Nat.mul_le_mul_right _ hle) hroom, himage,
        fun hpos => Drive.end_le_of_movable rfl hpos (by decide), fun hok _ => ?_⟩
      by_contra hfew
      rw [if_neg (hfew ·.1)] at hok
      cases hok
    | false =>
      have habsent := writeBatches_absent (tiles_batches count) hpresent bytes lba
      refine ⟨0, Nat.zero_le _, hzero, ?_, hnone, ?_⟩
      all_goals
        rw [write, hrefusal]
        generalize writeBatches d.drive bytes lba (batches count) = written at habsent
        obtain ⟨e, _ | _⟩ := written
      · exact habsent.2.1.trans hnothing.symm
      · exact ((image_flush_absent habsent.1).trans habsent.2.1).trans hnothing.symm
      · exact fun hok => by cases hok
      · exact fun _ hpos => absurd (habsent.2.2 rfl) (Nat.ne_of_lt hpos)

theorem byte_write (d : Disk) (bytes : Array UInt8) (lba count k : Nat) :
    (d.write bytes lba count).1.drive.image[k]? = d.drive.image[k]? ∨
      lba * sectorSize ≤ k ∧ k < lba * sectorSize + count * sectorSize ∧
        (d.write bytes lba count).1.drive.image[k]? = bytes[k - lba * sectorSize]? := by
  obtain ⟨moved, hle, hsize, himage, -⟩ := d.exists_stored bytes lba count
  have hmoved : (0 + moved) * sectorSize ≤ bytes.size := by rwa [Nat.zero_add]
  have hcount := Nat.mul_le_mul_right sectorSize hle
  rw [himage, Image.getElem?_patch, Image.size_sectors hmoved]
  split_ifs with hk
  · refine .inr ⟨hk.1, by omega, ?_⟩
    rw [Image.getElem?_sectors hmoved, if_pos (by omega), Nat.zero_mul, Nat.zero_add]
  · exact .inl rfl

end Disk

/-- The disk over a drive of any kind, in all its states. -/
def medium : Medium Disk where
  image d := d.drive.image
  image_read d lba count capacity := (d.exists_delivered lba count capacity).1
  read_ok := by
    intro d d' lba count capacity bytes hpos hread
    have hdelivered := (d.exists_delivered lba count capacity).2
    rw [show d.read lba count capacity = _ from hread] at hdelivered
    obtain ⟨hend, hbytes⟩ := hdelivered rfl hpos
    rw [← Nat.add_mul]
    exact ⟨hend, hbytes⟩
  size_write d bytes lba count := by
    obtain ⟨moved, -, -, himage, -⟩ := d.exists_stored bytes lba count
    exact (congrArg Array.size himage).trans (Image.size_patch ..)
  byte_write d bytes lba count k := d.byte_write bytes lba count k
  write_ok := by
    intro d d' bytes lba count hpos hwrite
    obtain ⟨moved, -, -, himage, hend, hall⟩ := d.exists_stored bytes lba count
    rw [show d.write bytes lba count = _ from hwrite] at himage hall
    obtain rfl := hall rfl hpos
    rw [← Nat.add_mul]
    refine ⟨hend hpos, himage.trans ?_⟩
    rw [Image.sectors, Nat.zero_mul, Nat.zero_add]

/-- A first file on a drive that was just formatted takes an unused child of the root and free
clusters. -/
theorem first_write_framed :
    ∃ v : Volume Disk,
      let w := (v.write rootCluster (.ofParts [65] []) (.ofArray #[7])).volume
      (v.write rootCluster (.ofParts [65] []) (.ofArray #[7])).outcome = .ok 3 ∧
        ∃ i, ((medium.contents v).child rootCluster i).isUsed = false ∧
          Medium.Framed medium v w rootCluster i v.Free v.Free := by
  have hd : (storage 2048).Usable ⟨2048, Kernel.zeroedDrive 2048⟩ :=
    ⟨⟨rfl, Kernel.works_zeroedDrive 2048⟩, Nat.le_refl 2048⟩
  obtain ⟨e, hfresh, -, htable⟩ := Session.fresh_eq hd rfl
  obtain ⟨hs, hok⟩ :=
    Session.first_write_ok hd rfl hfresh (.ofParts [65] []) (.ofArray #[7]) (by decide)
  obtain ⟨t, i, hstep, -, -, hlocate, -⟩ :=
    Session.exists_first_write hd rfl hfresh (.ofParts [65] []) (.ofArray #[7]) (by decide)
  refine ⟨⟨e, .formatted⟩, hok, ?_⟩
  rcases (Medium.requests_framed medium ⟨e, .formatted⟩ rootCluster (.ofParts [65] [])).1
    (.ofArray #[7]) with hsame | hframed
  · -- the new entry would be found among the children of an empty root
    rw [Session.volume_of_step_write hstep] at hsame
    have haccepts := hs.structured.accepts rootCluster (Finset.mem_singleton_self _)
    have hcontents : (storage 2048).contents t.volume = (storage 2048).contents ⟨e, .formatted⟩ :=
      hsame.contents
    rw [hcontents, Contents.locate_of_accepts haccepts, htable] at hlocate
    simp only [Directory.find?_create] at hlocate
    cases hlocate
  · exact hframed

end ClusterFs.Ata
