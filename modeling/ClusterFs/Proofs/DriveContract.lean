import ClusterFs.Proofs.DriveTransfers

/-!
The contract of a block device, kept by the disk over a drive: which sectors reach the buffer or the
image, by which commands, and with which outcome, for every drive and every transfer.
-/
namespace ClusterFs.Ata

/-- Of `count` sectors from `lba` on, `moved` stand before the first bad one. -/
structure Before (bad : List Nat) (lba count moved : Nat) : Prop where
  le : moved ≤ count
  good : ∀ i < moved, lba + i ∉ bad
  stop : moved < count → lba + moved ∈ bad

theorem Before.eq_count_iff {bad : List Nat} {lba count moved : Nat}
    (h : Before bad lba count moved) : moved = count ↔ ∀ i < count, lba + i ∉ bad := by
  constructor
  · rintro rfl
    exact h.good
  · intro hgood
    rcases Nat.lt_or_eq_of_le h.le with hlt | heq
    · exact absurd (h.stop hlt) (hgood moved hlt)
    · exact heq

/-- On a drive that holds the sectors of a transfer, only bad sectors cannot be moved. -/
theorem before_movable {d : Drive} {kind : TransferKind} {bad : List Nat} {lba count : Nat}
    (hmove : ∀ i < count, d.canMove kind (lba + i) = !bad.contains (lba + i)) :
    Before bad lba count (d.movable kind lba count) where
  le := d.movable_le kind lba count
  good i hi hbad := by
    have hcan := Drive.canMove_of_lt_movable hi
    rw [hmove i (Nat.lt_of_lt_of_le hi (d.movable_le ..)), List.contains_iff_mem.mpr hbad] at hcan
    exact Bool.false_ne_true hcan
  stop hlt := by
    have hcan := Drive.canMove_movable hlt
    rw [hmove _ hlt, Bool.not_eq_false'] at hcan
    exact List.contains_iff_mem.mp hcan

namespace Disk

/-- What a read does when the transfer is in range: the sectors before the first unreadable one
reach the buffer, by the commands `issued`, and the rest of the buffer and the image stay. -/
structure ReadDone (d : Disk) (lba count : Nat) (old : Array UInt8) (moved : Nat)
    (issued : List Command) (after : Disk × Delivery) : Prop where
  before : Before d.drive.badReads lba count moved
  covers : Issued codeRead lba count moved issued
  outcome : after.2.outcome = if moved = count then .ok () else .error .fault
  buffer : ∀ j : Nat, (after.2.buffer old)[j]? =
    if j < moved * sectorSize then d.drive.image[lba * sectorSize + j]? else old[j]?
  sectors : after.1.sectors = d.sectors
  kept : d.drive.Kept after.1.drive
  image : after.1.drive.image = d.drive.image
  commands : after.1.drive.commands.toList = d.drive.commands.toList ++ issued

/-- What a write does when the transfer is in range: the sectors before the first unwritable one
are stored, by the commands `issued`, and if that is all of them one flush follows. -/
structure WriteDone (d : Disk) (lba count : Nat) (bytes : Array UInt8) (moved : Nat)
    (issued flushed : List Command) (after : Disk × Except DiskError Unit) : Prop where
  before : Before d.drive.badWrites lba count moved
  covers : Issued codeWrite lba count moved issued
  flushes : flushed.map (·.code) = if moved = count then [codeFlush] else []
  outcome : after.2 =
    if moved = count ∧ d.drive.flushFails = false then .ok () else .error .fault
  image : ∀ j : Nat, after.1.drive.image[j]? =
    if lba * sectorSize ≤ j ∧ j < (lba + moved) * sectorSize then bytes[j - lba * sectorSize]?
    else d.drive.image[j]?
  sectors : after.1.sectors = d.sectors
  kept : d.drive.Kept after.1.drive
  commands : after.1.drive.commands.toList = d.drive.commands.toList ++ issued ++ flushed

variable {d : Disk} {lba count : Nat} {buffer : Array UInt8}

theorem exists_readDone (hd : d.drive.present = true)
    (hholds : d.sectors * sectorSize ≤ d.drive.image.size)
    (hrange : lba + count ≤ min d.sectors addressLimit)
    (hroom : count * sectorSize ≤ buffer.size) :
    ∃ moved issued, d.ReadDone lba count buffer moved issued (d.read lba count buffer.size) := by
  have hend (n : Nat) (hn : n ≤ count) : (lba + n) * sectorSize ≤ d.drive.image.size :=
    Nat.le_trans (Nat.mul_le_mul_right _ (by omega)) hholds
  have hbefore : Before d.drive.badReads lba count (d.drive.movable .read lba count) :=
    before_movable fun i hi => Drive.canMove_read (hend (i + 1) hi)
  obtain ⟨e, issued, hread, hkept, himage, hcommands, hissued, -⟩ := read_eq hd hrange hroom rfl
  refine ⟨d.drive.movable .read lba count, issued, ?_⟩
  rw [hread]
  refine ⟨hbefore, hissued, rfl, fun j => ?_, rfl, hkept, himage, hcommands⟩
  have hsize := hend _ hbefore.le
  have hmoved := Nat.mul_le_mul_right sectorSize hbefore.le
  rw [Delivery.buffer, Image.getElem?_patch, Image.size_sectors hsize, Nat.sub_zero,
    Image.getElem?_sectors hsize]
  split_ifs with hin hin' hin'
  · rfl
  · omega
  · omega
  · rfl

theorem exists_writeDone (hd : d.drive.present = true)
    (hholds : d.sectors * sectorSize ≤ d.drive.image.size)
    (hrange : lba + count ≤ min d.sectors addressLimit)
    (hroom : count * sectorSize ≤ buffer.size) :
    ∃ moved issued flushed,
      d.WriteDone lba count buffer moved issued flushed (d.write buffer lba count) := by
  have hend (n : Nat) (hn : n ≤ count) : (lba + n) * sectorSize ≤ d.drive.image.size :=
    Nat.le_trans (Nat.mul_le_mul_right _ (by omega)) hholds
  have hbefore : Before d.drive.badWrites lba count (d.drive.movable .write lba count) :=
    before_movable fun i hi => Drive.canMove_write (hend (i + 1) hi)
  obtain ⟨e, issued, flushed, hwrite, hkept, himage, hcommands, hissued, hflushed, -⟩ :=
    write_eq hd hrange hroom rfl
  refine ⟨d.drive.movable .write lba count, issued, flushed, ?_⟩
  rw [hwrite]
  refine ⟨hbefore, hissued, hflushed, rfl, fun j => ?_, rfl, hkept, hcommands⟩
  have hlast := hend _ hbefore.le
  have hmoved := Nat.mul_le_mul_right sectorSize hbefore.le
  have hsize : (0 + d.drive.movable .write lba count) * sectorSize ≤ buffer.size := by
    rw [Nat.zero_add]
    exact Nat.le_trans hmoved hroom
  rw [himage, Image.getElem?_patch, Image.size_sectors hsize, Image.getElem?_sectors hsize,
    Nat.add_mul, Nat.zero_mul, Nat.zero_add]
  rw [Nat.add_mul] at hlast
  split_ifs with hin hin' hin' hin'
  · rfl
  · omega
  · omega
  · omega
  · omega
  · rfl

/-- The disk over a drive that holds the sectors found is a block device: a transfer is refused, the
buffer being checked before the range, and then nothing changes; or its sectors are moved in order,
without gap or overlap, up to the first bad one. -/
theorem keeps_contract (hd : d.drive.present = true)
    (hholds : d.sectors * sectorSize ≤ d.drive.image.size) (lba count : Nat)
    (buffer : Array UInt8) :
    (buffer.size < count * sectorSize →
      BlockDevice.read d lba count buffer.size = (d, ⟨#[], .error .shortBuffer⟩) ∧
      BlockDevice.write d buffer lba count = (d, .error .shortBuffer)) ∧
    (count * sectorSize ≤ buffer.size → d.sectors < lba + count ∨ addressLimit < lba + count →
      BlockDevice.read d lba count buffer.size = (d, ⟨#[], .error .outOfRange⟩) ∧
      BlockDevice.write d buffer lba count = (d, .error .outOfRange)) ∧
    (count * sectorSize ≤ buffer.size → lba + count ≤ d.sectors → lba + count ≤ addressLimit →
      (∃ moved issued, d.ReadDone lba count buffer moved issued
        (BlockDevice.read d lba count buffer.size)) ∧
      (∃ moved issued flushed, d.WriteDone lba count buffer moved issued flushed
        (BlockDevice.write d buffer lba count)) ∧
      ((BlockDevice.read d lba count buffer.size).2.outcome = .ok () ↔
        ∀ i < count, lba + i ∉ d.drive.badReads) ∧
      ((BlockDevice.write d buffer lba count).2 = .ok () ↔
        (∀ i < count, lba + i ∉ d.drive.badWrites) ∧ d.drive.flushFails = false)) := by
  refine ⟨fun hshort => ?_, fun hroom hpast => ?_, fun hroom hend hlimit => ?_⟩
  · have hrefusal : d.refusal lba count buffer.size = some .shortBuffer := if_pos hshort
    constructor
    · show d.read lba count buffer.size = _
      rw [read, hrefusal]
    · show d.write buffer lba count = _
      rw [write, hrefusal]
  · have hrefusal : d.refusal lba count buffer.size = some .outOfRange := by
      rw [refusal_eq hroom, if_neg (by omega)]
    constructor
    · show d.read lba count buffer.size = _
      rw [read, hrefusal]
    · show d.write buffer lba count = _
      rw [write, hrefusal]
  · have hrange : lba + count ≤ min d.sectors addressLimit := by omega
    obtain ⟨moved, issued, hread⟩ := exists_readDone hd hholds hrange hroom
    obtain ⟨stored, sent, flushed, hwrite⟩ := exists_writeDone hd hholds hrange hroom
    refine ⟨⟨moved, issued, hread⟩, ⟨stored, sent, flushed, hwrite⟩, ?_, ?_⟩
    · rw [← hread.before.eq_count_iff]
      refine (iff_of_eq (congrArg (· = _) hread.outcome)).trans ?_
      split_ifs with hall <;> simp [hall]
    · rw [← hwrite.before.eq_count_iff]
      refine (iff_of_eq (congrArg (· = _) hwrite.outcome)).trans ?_
      split_ifs with hall <;> simp [hall]

/-- A disk of 1024 sectors, one of which cannot be read and one not written. -/
def worn : Disk where
  sectors := 1024
  drive :=
    { image := Array.replicate 524288 0
      reportedSectors := 1024
      delays := fun i => i % 3
      badReads := [700]
      badWrites := [80] }

/-- A read of sectors 400 to 999 meets the bad sector 700, and a write of them succeeds. -/
theorem worn_keeps_contract :
    (∃ moved issued, worn.ReadDone 400 600 (Array.replicate 307200 1) moved issued
      (BlockDevice.read worn 400 600 307200)) ∧
    (BlockDevice.read worn 400 600 307200).2.outcome ≠ .ok () ∧
    (BlockDevice.write worn (Array.replicate 307200 1) 400 600).2 = .ok () := by
  have hholds : worn.sectors * sectorSize ≤ worn.drive.image.size := by
    simp only [worn, Array.size_replicate]
    decide
  obtain ⟨-, -, hdone⟩ := keeps_contract (d := worn) rfl hholds 400 600 (Array.replicate 307200 1)
  rw [Array.size_replicate] at hdone
  obtain ⟨hread, -, hreads, hwrites⟩ := hdone (by decide) (by decide) (by decide)
  refine ⟨hread, fun hok => hreads.mp hok 300 (by decide) (by decide), hwrites.mpr ⟨?_, rfl⟩⟩
  intro i _ hbad
  have heq : 400 + i = 80 := List.mem_singleton.mp hbad
  omega

end Disk

end ClusterFs.Ata
