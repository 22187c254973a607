import ClusterFs.MemoryDisk
import Mathlib.Logic.Function.Basic

/-!
What a device stores. A `Storage` names the bytes behind a device and how many more writes it will
let through; within its sectors every read delivers these bytes, and a write replaces the sectors it
names or, once no write is left, fails and changes nothing. A bounded device refuses every transfer
past its last sector. A disk in memory is such a device.
-/
namespace ClusterFs

namespace Image

theorem window_extract (n : Nat) (image : Image) (offset : Nat) :
    window n (image.extract offset (offset + n)) 0 = window n image offset := by
  ext i hi
  rw [getElem_window, getElem_window, Array.getD_eq_getD_getElem?, Array.getD_eq_getD_getElem?,
    Array.getElem?_extract, Nat.zero_add]
  by_cases hin : offset + i < image.size
  · rw [if_pos (by omega)]
  · rw [if_neg (by omega), Array.getElem?_eq_none (by omega)]

theorem window_replicate (n size offset : Nat) :
    window n (Array.replicate size 0) offset = Vector.replicate n 0 := by
  ext i hi
  rw [getElem_window, Vector.getElem_replicate, Array.getD_eq_getD_getElem?,
    Array.getElem?_replicate]
  split <;> rfl

theorem window_patch (image : Image) {n offset : Nat} (bytes : Vector UInt8 n)
    (h : offset + n ≤ image.size) :
    window n (patch image offset bytes.toArray) offset = bytes := by
  ext i hi
  rw [getElem_window, Array.getD_eq_getD_getElem?, getElem?_patch, Vector.size_toArray,
    if_pos (by omega), Nat.add_sub_cancel_left]
  simp [hi]

/-- A patch leaves the windows that it does not meet. -/
theorem window_patch_of_disjoint (image : Image) {n offset at_ : Nat} (bytes : Array UInt8)
    (h : at_ + n ≤ offset ∨ offset + bytes.size ≤ at_) :
    window n (patch image offset bytes) at_ = window n image at_ := by
  ext i hi
  rw [getElem_window, getElem_window, Array.getD_eq_getD_getElem?, Array.getD_eq_getD_getElem?,
    getElem?_patch, if_neg (by omega)]

theorem toArray_window (image : Image) {n offset : Nat} (h : offset + n ≤ image.size) :
    (window n image offset).toArray = image.extract offset (offset + n) := by
  apply Array.ext
  · rw [Vector.size_toArray, Array.size_extract]
    omega
  · intro i hi _
    rw [Vector.size_toArray] at hi
    rw [Vector.getElem_toArray, getElem_window, Array.getElem_extract,
      Array.getD_eq_getD_getElem?, Array.getElem?_eq_getElem (by omega), Option.getD_some]

end Image

/-- The contract of a device in its `Ready` states. `writesLeft` is the number of writes that still
succeed, all of them for `none`. -/
structure Storage (D : Type) [BlockDevice D] where
  Ready : D → Prop
  image : D → Image
  sectors : D → Nat
  writesLeft : D → Option Nat
  sectors_le : ∀ {d}, Ready d → sectors d * sectorSize ≤ (image d).size
  read_eq : ∀ {d lba count capacity}, Ready d → lba + count ≤ sectors d →
    count * sectorSize ≤ capacity →
    ∃ d', BlockDevice.read d lba count capacity =
        (d', ⟨(image d).extract (lba * sectorSize) (lba * sectorSize + count * sectorSize),
          .ok ()⟩) ∧
      Ready d' ∧ image d' = image d ∧ sectors d' = sectors d ∧ writesLeft d' = writesLeft d
  write_eq : ∀ {d lba count} {bytes : Array UInt8}, Ready d → lba + count ≤ sectors d →
    bytes.size = count * sectorSize → writesLeft d ≠ some 0 →
    ∃ d', BlockDevice.write d bytes lba count = (d', .ok ()) ∧ Ready d' ∧
      image d' = Image.patch (image d) (lba * sectorSize) bytes ∧ sectors d' = sectors d ∧
      writesLeft d' = (writesLeft d).map (· - 1)
  write_fault : ∀ {d lba count} {bytes : Array UInt8}, Ready d → lba + count ≤ sectors d →
    bytes.size = count * sectorSize → writesLeft d = some 0 →
    ∃ d', BlockDevice.write d bytes lba count = (d', .error .fault) ∧ Ready d' ∧
      image d' = image d ∧ sectors d' = sectors d ∧ writesLeft d' = some 0

namespace Storage

variable {D : Type} [BlockDevice D] (S : Storage D)

/-- What reading leaves of a device. -/
structure Kept (d e : D) : Prop where
  ready : S.Ready e
  image : S.image e = S.image d
  sectors : S.sectors e = S.sectors d
  writesLeft : S.writesLeft e = S.writesLeft d

/-- Whether a cluster lies on a device. -/
def Has (d : D) (c : UInt32) : Prop := clusterLba c + sectorsPerCluster ≤ S.sectors d

/-- Transfers past the last sector are refused and change nothing. -/
structure Bounded : Prop where
  read_past : ∀ {d lba count capacity}, S.Ready d → S.sectors d < lba + count →
    count * sectorSize ≤ capacity →
    ∃ d' bytes, BlockDevice.read d lba count capacity = (d', ⟨bytes, .error .outOfRange⟩) ∧
      S.Kept d d'
  write_past : ∀ {d lba count} {bytes : Array UInt8}, S.Ready d → S.sectors d < lba + count →
    bytes.size = count * sectorSize → S.writesLeft d ≠ some 0 →
    ∃ d', BlockDevice.write d bytes lba count = (d', .error .outOfRange) ∧ S.Kept d d'

variable {S} {d e f : D}

theorem Kept.refl (h : S.Ready d) : S.Kept d d := ⟨h, rfl, rfl, rfl⟩

theorem Kept.trans (h : S.Kept d e) (h' : S.Kept e f) : S.Kept d f :=
  ⟨h'.ready, h'.image.trans h.image, h'.sectors.trans h.sectors, h'.writesLeft.trans h.writesLeft⟩

theorem Kept.has {c : UInt32} (h : S.Kept d e) (hc : S.Has d c) : S.Has e c := by
  unfold Has
  rw [h.sectors]
  exact hc

end Storage

namespace MemoryDisk

/-- A transfer within the disk, from or to a buffer that is long enough, is not refused. -/
theorem refusal_eq_none {d : MemoryDisk} {lba count bufferSize : Nat}
    (hsectors : lba + count ≤ d.image.size / sectorSize)
    (hbuffer : count * sectorSize ≤ bufferSize) :
    d.refusal lba count bufferSize = none := by
  have hrange := Nat.mul_le_of_le_div _ _ _ hsectors
  rw [Nat.add_mul] at hrange
  unfold refusal
  rw [if_neg (by omega), if_neg (by omega)]

theorem refusal_eq_outOfRange {d : MemoryDisk} {lba count bufferSize : Nat}
    (hsectors : d.image.size / sectorSize < lba + count)
    (hbuffer : count * sectorSize ≤ bufferSize) :
    d.refusal lba count bufferSize = some .outOfRange := by
  have hrange := (Nat.div_lt_iff_lt_mul (by decide)).mp hsectors
  rw [Nat.add_mul] at hrange
  unfold refusal
  rw [if_neg (by omega), if_pos hrange]

theorem read_eq {d : MemoryDisk} {lba count capacity : Nat} (hready : d.readsLeft = none)
    (hsectors : lba + count ≤ d.image.size / sectorSize)
    (hcapacity : count * sectorSize ≤ capacity) :
    d.read lba count capacity =
      ({ d with transfers := d.transfers.push (.read lba count (.ok ())) },
        ⟨d.image.extract (lba * sectorSize) (lba * sectorSize + count * sectorSize), .ok ()⟩) := by
  obtain ⟨image, writes, limit, left, transfers⟩ := d
  obtain rfl : left = none := hready
  have hnone : (⟨image, writes, limit, none, transfers⟩ : MemoryDisk).refusal lba count capacity =
      none := refusal_eq_none hsectors hcapacity
  simp [read, hnone]

theorem write_eq {d : MemoryDisk} {lba count : Nat} {bytes : Array UInt8}
    (hsectors : lba + count ≤ d.image.size / sectorSize) (hsize : bytes.size = count * sectorSize)
    (hleft : d.writesFail = false) :
    d.write bytes lba count =
      ({ d with
          image := Image.patch d.image (lba * sectorSize) bytes
          writes := d.writes + 1
          transfers := d.transfers.push (.write lba count (.ok bytes)) }, .ok ()) := by
  have hall : bytes.extract 0 (count * sectorSize) = bytes := by
    rw [← hsize, Array.extract_size]
  have hnone := refusal_eq_none hsectors (Nat.le_of_eq hsize.symm)
  simp only [write, hleft, hnone, hall, Bool.false_eq_true, if_false]

theorem writesFail_eq_false {d : MemoryDisk} (hleft : d.writeLimit.map (· - d.writes) ≠ some 0) :
    d.writesFail = false := by
  cases hlimit : d.writeLimit with
  | none => simp [writesFail, hlimit]
  | some limit =>
    simp only [hlimit, Option.map_some, ne_eq, Option.some.injEq] at hleft
    simp only [writesFail, hlimit, decide_eq_false_iff_not]
    omega

/-- A disk in memory, while none of its reads is made to fail. -/
def storage : Storage MemoryDisk where
  Ready d := d.readsLeft = none
  image d := d.image
  sectors d := d.image.size / sectorSize
  writesLeft d := d.writeLimit.map (· - d.writes)
  sectors_le := fun _ => Nat.div_mul_le_self _ _
  read_eq := by
    intro d lba count capacity hready hsectors hcapacity
    exact ⟨_, read_eq hready hsectors hcapacity, hready, rfl, rfl, rfl⟩
  write_eq := by
    intro d lba count bytes hready hsectors hsize hleft
    refine ⟨_, write_eq hsectors hsize (writesFail_eq_false hleft), hready, rfl, ?_, ?_⟩
    · simp only [Image.size_patch]
    · cases d.writeLimit with
      | none => rfl
      | some limit =>
        simp only [Option.map_some, Option.some.injEq]
        omega
  write_fault := by
    intro d lba count bytes hready hsectors hsize hleft
    have hfail : d.writesFail = true := by
      cases hlimit : d.writeLimit with
      | none => simp [hlimit] at hleft
      | some limit =>
        simp only [hlimit, Option.map_some, Option.some.injEq] at hleft
        simp only [writesFail, hlimit, decide_eq_true_eq]
        omega
    refine ⟨{ d with transfers := d.transfers.push (.write lba count (.error .fault)) }, ?_, hready,
      rfl, rfl, hleft⟩
    show d.write bytes lba count = _
    simp only [write, hfail, if_true]

theorem bounded_storage : storage.Bounded where
  read_past := by
    intro d lba count capacity hready hsectors hcapacity
    have hpast := refusal_eq_outOfRange hsectors hcapacity
    refine ⟨{ d with transfers := d.transfers.push (.read lba count (.error .outOfRange)) }, #[],
      ?_, hready, rfl, rfl, rfl⟩
    obtain ⟨image, writes, limit, left, transfers⟩ := d
    obtain rfl : left = none := hready
    show read _ lba count capacity = _
    simp [read, hpast]
  write_past := by
    intro d lba count bytes hready hsectors hsize hleft
    have hpast := refusal_eq_outOfRange hsectors (Nat.le_of_eq hsize.symm)
    refine ⟨{ d with transfers := d.transfers.push (.write lba count (.error .outOfRange)) }, ?_,
      hready, rfl, rfl, rfl⟩
    show d.write bytes lba count = _
    simp only [write, writesFail_eq_false hleft, hpast, Bool.false_eq_true, if_false]

end MemoryDisk

end ClusterFs
