import ClusterFs.Proofs.DriveTransfers
import ClusterFs.Proofs.Requests

/-!
How much a request delivers. A device that delivers no more than the sectors asked for fills no
buffer past its end, whatever becomes of the request; the disk over a drive is one, in every state.
-/
namespace ClusterFs

/-- Whether no read delivers more than the sectors asked for. -/
def Delivers (D : Type) [BlockDevice D] : Prop :=
  ∀ (d : D) (lba count capacity : Nat),
    (BlockDevice.read d lba count capacity).2.bytes.size ≤ count * sectorSize

namespace Volume

variable {D : Type} [BlockDevice D]

theorem size_readClusters_le (h : Delivers D) (d : D) (clusters : List UInt32)
    (delivered : Array UInt8) :
    (readClusters d clusters delivered).2.bytes.size ≤
      delivered.size + clusters.length * clusterSize := by
  induction clusters generalizing d delivered with
  | nil => exact Nat.le_add_right ..
  | cons c rest ih =>
    have hread : (BlockDevice.read d (clusterLba c) sectorsPerCluster clusterSize).2.bytes.size ≤
        clusterSize := h d (clusterLba c) sectorsPerCluster clusterSize
    unfold readClusters
    generalize BlockDevice.read d (clusterLba c) sectorsPerCluster clusterSize = got at hread
    obtain ⟨d', bytes, _ | _⟩ := got
    · simp only [Array.size_append, List.length_cons, Nat.succ_mul] at hread ⊢
      omega
    · have hrest := ih d' (delivered ++ bytes)
      simp only [Array.size_append, List.length_cons, Nat.succ_mul] at hread hrest ⊢
      omega

/-- A read delivers whole clusters only, as many as the buffer has room for. -/
theorem size_filled_read_le_clusters (h : Delivers D) (v : Volume D) (parent : UInt32)
    (name : ShortName) (capacity : Nat) :
    (v.read parent name capacity).filled.size ≤ capacity / clusterSize * clusterSize := by
  unfold read
  obtain ⟨u, _ | entry⟩ := v.stat parent name
  · exact Nat.zero_le _
  simp only
  split
  · exact Nat.zero_le _
  · split
    · exact Nat.zero_le _
    · have hsize := size_readClusters_le h u.disk
        ((u.map.chain entry.cluster).take (capacity / clusterSize)) #[]
      have hroom := Nat.mul_le_mul_right clusterSize
        (List.length_take_le (capacity / clusterSize) (u.map.chain entry.cluster))
      rw [Array.size_empty, Nat.zero_add] at hsize
      split <;> exact Nat.le_trans hsize hroom

theorem size_filled_read_le (h : Delivers D) (v : Volume D) (parent : UInt32) (name : ShortName)
    (capacity : Nat) : (v.read parent name capacity).filled.size ≤ capacity :=
  (size_filled_read_le_clusters h v parent name capacity).trans (Nat.div_mul_le_self ..)

/-- A listing is one cluster, and needs room for all of it. -/
theorem size_filled_readDirectory_le (h : Delivers D) (v : Volume D) (parent : UInt32)
    (name : ShortName) (capacity : Nat) :
    (v.readDirectory parent name capacity).filled.size ≤ min capacity clusterSize := by
  unfold readDirectory
  obtain ⟨u, _ | entry⟩ := v.stat parent name
  · exact Nat.zero_le _
  simp only
  split_ifs with hdir hroom
  · exact Nat.zero_le _
  · exact Nat.zero_le _
  · have hsize : (readClusters u.disk [entry.cluster] #[]).2.bytes.size ≤ clusterSize := by
      simpa using size_readClusters_le h u.disk [entry.cluster] #[]
    exact Nat.le_min.mpr ⟨hsize.trans (Nat.not_lt.mp hroom), hsize⟩

theorem filled_write (v : Volume D) (parent : UInt32) (name : ShortName) (data : Payload) :
    (v.write parent name data).filled = #[] := by
  unfold write
  obtain ⟨u, _ | table⟩ := v.openDirectory parent
  · rfl
  · simp only
    split
    · rfl
    · split <;> rfl

theorem filled_delete (v : Volume D) (parent : UInt32) (name : ShortName) :
    (v.delete parent name).filled = #[] := by
  unfold delete
  obtain ⟨u, _ | table⟩ := v.openDirectory parent
  · rfl
  · simp only
    split
    · rfl
    · split
      · rfl
      · split <;> rfl

/-- No request delivers more than its buffer holds. -/
theorem size_filled_serve_le (h : Delivers D) (v : Volume D) (call : Call) (name : ShortName)
    (parent : UInt32) (buffer : Payload) :
    (v.serve call name parent buffer).filled.size ≤ buffer.size := by
  cases call with
  | read => exact v.size_filled_read_le h parent name buffer.size
  | readDirectory =>
    exact (v.size_filled_readDirectory_le h parent name buffer.size).trans (Nat.min_le_left ..)
  | write =>
    have hfilled : (v.serve .write name parent buffer).filled = #[] :=
      v.filled_write parent name buffer
    exact hfilled ▸ Nat.zero_le _
  | delete =>
    have hfilled : (v.serve .delete name parent buffer).filled = #[] := v.filled_delete parent name
    exact hfilled ▸ Nat.zero_le _

end Volume

theorem MemoryDisk.delivers : Delivers MemoryDisk := by
  intro d lba count capacity
  show (d.read lba count capacity).2.bytes.size ≤ count * sectorSize
  simp only [read]
  split
  · exact Nat.zero_le _
  · rw [Array.size_extract]
    omega

namespace Ata

theorem size_receiveWords (d : Drive) (n : Nat) (taken : Array UInt8) :
    (receiveWords d n taken).2.size = taken.size + 2 * n := by
  induction n generalizing d taken with
  | zero => rfl
  | succ n ih =>
    rw [receiveWords]
    simp only [ih, Array.size_push]
    omega

theorem size_receiveSectors_le (d : Drive) (n : Nat) (taken : Array UInt8) :
    (receiveSectors d n taken).2.bytes.size ≤ taken.size + n * sectorSize := by
  induction n generalizing d taken with
  | zero => exact Nat.le_add_right ..
  | succ n ih =>
    unfold receiveSectors
    obtain ⟨e, _ | _ | _⟩ := waitDataRequest d
    · have hrest := ih (receiveWords e 256 taken).1 (receiveWords e 256 taken).2
      refine Nat.le_trans hrest ?_
      rw [size_receiveWords, Nat.succ_mul n, Nat.add_assoc, Nat.add_comm (n * sectorSize)]
    · exact Nat.le_add_right ..
    · exact Nat.le_add_right ..

theorem size_readBatches_le {batches : List (Nat × Nat)} {first last : Nat}
    (hbatches : Tiles first last batches) (d : Drive) (lba : Nat) (taken : Array UInt8) :
    (readBatches d lba batches taken).2.bytes.size ≤
      taken.size + (last - first) * sectorSize := by
  induction batches generalizing first d taken with
  | nil => exact Nat.le_add_right ..
  | cons batch rest ih =>
    obtain ⟨done, n⟩ := batch
    obtain ⟨rfl, hpos, hn, hrest⟩ := hbatches
    have hsum : last - done = n + (last - (done + n)) := by
      have := hrest.le
      omega
    have hsectors := size_receiveSectors_le (start d (lba + done) n codeRead) n taken
    rw [hsum, Nat.add_mul, ← Nat.add_assoc]
    unfold readBatches
    generalize receiveSectors (start d (lba + done) n codeRead) n taken = got at hsectors
    obtain ⟨e, bytes, _ | _⟩ := got
    · exact Nat.le_trans hsectors (Nat.le_add_right ..)
    · exact Nat.le_trans (ih hrest e bytes) (Nat.add_le_add_right hsectors _)

/-- The disk over a drive delivers no more than asked for, in every state. -/
theorem delivers_disk : Delivers Disk := by
  intro d lba count capacity
  show (d.read lba count capacity).2.bytes.size ≤ count * sectorSize
  unfold Disk.read
  split
  · exact Nat.zero_le _
  · exact Nat.zero_add (count * sectorSize) ▸
      size_readBatches_le (tiles_batches count) d.drive lba #[]

/-- The size found by a probe is never changed. -/
theorem keptByTransfers_sectors (n : Nat) :
    Volume.KeptByTransfers fun d : Disk => d.sectors = n where
  read d lba count capacity hd := by
    show (d.read lba count capacity).1.sectors = n
    unfold Disk.read
    split <;> exact hd
  write d bytes lba count hd := by
    show (d.write bytes lba count).1.sectors = n
    unfold Disk.write
    split
    · exact hd
    · split <;> exact hd

end Ata

end ClusterFs
