import ClusterFs.Proofs.CheckedData
import ClusterFs.Proofs.Deliveries

/-!
Reads with every range checked, on any device and on any volume. The loop over a chain stops where
the buffer ends, which is before any number leaves its word, and a read costs no more clusters than
the map has or the buffer holds.
-/
namespace ClusterFs
namespace Checked
open Volume (Reply Notice)

variable {D : Type} [BlockDevice D]

/-! ### Transfers -/

/-- First sector and number of sectors of a cluster. -/
def address (c : UInt32) : Checked (Nat × Nat) := do
  let lba ← fit longLimit (c.toNat * sectorsPerCluster)
  let count ← fit wordLimit (1 * sectorsPerCluster)
  return (lba, count)

theorem address_eq (c : UInt32) : address c = .ok (clusterLba c, sectorsPerCluster) := by
  have hc := c.toNat_lt
  rw [address, fit_eq (by unfold longLimit sectorsPerCluster; omega), ok_bind,
    fit_eq (by decide), ok_bind]
  rfl

def readCluster (d : D) (c : UInt32) : Checked (D × Delivery) := do
  let (lba, count) ← address c
  return BlockDevice.read d lba count clusterSize

theorem readCluster_eq (d : D) (c : UInt32) : readCluster d c =
    .ok (BlockDevice.read d (clusterLba c) sectorsPerCluster clusterSize) := by
  rw [readCluster, address_eq]
  rfl

def writeCluster (d : D) (c : UInt32) (bytes : Cluster) : Checked (D × Except DiskError Unit) := do
  let (lba, count) ← address c
  return BlockDevice.write d bytes.toArray lba count

theorem writeCluster_eq (d : D) (c : UInt32) (bytes : Cluster) :
    writeCluster d c bytes = .ok (ClusterFs.writeCluster d c bytes) := by
  rw [writeCluster, address_eq]
  rfl

def loadTable (v : Volume D) (c : UInt32) :
    Checked (Volume D × Except DiskError Directory) := do
  let (disk, got) ← readCluster v.disk c
  match got.outcome with
  | .error e => return (⟨disk, v.map⟩, .error e)
  | .ok () =>
    let found ← table (Image.window 2048 got.bytes 0)
    return (⟨disk, v.map⟩, .ok found)

theorem loadTable_eq (v : Volume D) (c : UInt32) : loadTable v c = .ok (v.loadTable c) := by
  rw [loadTable, readCluster_eq, ok_bind, Volume.loadTable, ClusterFs.readCluster]
  obtain ⟨disk, bytes, _ | _⟩ :=
    BlockDevice.read v.disk (clusterLba c) sectorsPerCluster clusterSize
  · rfl
  · simp only [table_eq, ok_bind]
    rfl

def openDirectory (v : Volume D) (c : UInt32) : Checked (Volume D × Except FsError Directory) :=
  if v.map.isTerminal c then do
    match ← loadTable v c with
    | (v, .error e) => return (v, .error (.device e))
    | (v, .ok table) => return (v, if table.describes c then .ok table else .error .invalidParent)
  else return (v, .error .invalidParent)

theorem openDirectory_eq (v : Volume D) (c : UInt32) :
    openDirectory v c = .ok (v.openDirectory c) := by
  unfold openDirectory Volume.openDirectory
  split
  · rw [loadTable_eq, ok_bind]
    obtain ⟨u, _ | table⟩ := v.loadTable c <;> rfl
  · rfl

def stat (v : Volume D) (parent : UInt32) (name : ShortName) :
    Checked (Volume D × Except FsError Entry) := do
  match ← openDirectory v parent with
  | (v, .error e) => return (v, .error e)
  | (v, .ok table) =>
    match table.find? name with
    | none => return (v, .error .notFound)
    | some i =>
      let entry ← index table.children[i.1]?
      return (v, .ok entry)

theorem child_eq (t : Directory) (i : Fin 62) :
    index t.children[i.1]? = .ok (t.children.get i) := by
  rw [Vector.getElem?_eq_getElem i.2, index_some]
  rfl

theorem stat_eq (v : Volume D) (parent : UInt32) (name : ShortName) :
    stat v parent name = .ok (v.stat parent name) := by
  rw [stat, openDirectory_eq, ok_bind, Volume.stat]
  obtain ⟨u, _ | table⟩ := v.openDirectory parent
  · rfl
  · simp only
    cases table.find? name with
    | none => rfl
    | some i =>
      simp only [child_eq, ok_bind]
      rfl

/-! ### Reading -/

/-- Clusters that hold so many bytes. -/
def clusterCount (limit size : Nat) : Checked Nat :=
  if size % clusterSize = 0 then return size / clusterSize else fit limit (size / clusterSize + 1)

theorem clusterCount_eq {limit size : Nat} (h : size < limit) :
    clusterCount limit size = .ok (clustersFor size) := by
  unfold clusterCount clustersFor clusterSize
  split_ifs
  · refine congrArg Except.ok ?_
    omega
  · rw [fit_eq (by omega)]
    refine congrArg Except.ok ?_
    omega

/-- Copies the clusters of a chain into the whole clusters of a buffer, from the one numbered `hop`
on, and tells whether the buffer ends before the chain. -/
def copyChain (capacity : Nat) (d : D) (hop : Nat) (chain : List UInt32)
    (delivered : Array UInt8) : Checked (D × Delivery × Bool) :=
  match chain with
  | [] => return (d, ⟨delivered, .ok ()⟩, false)
  | c :: rest => do
    let first ← fit longLimit (hop * clusterSize)
    let next ← fit longLimit (hop + 1)
    let last ← fit longLimit (next * clusterSize)
    if first ≤ last ∧ last ≤ capacity then
      let (d, got) ← readCluster d c
      match got.outcome with
      | .error e => return (d, ⟨delivered ++ got.bytes, .error e⟩, false)
      | .ok () => copyChain capacity d next rest (delivered ++ got.bytes)
    else return (d, ⟨delivered, .ok ()⟩, true)

theorem copyChain_eq (capacity : Nat) (d : D) (hop : Nat) {chain : List UInt32}
    (delivered : Array UInt8) (hlength : hop + chain.length ≤ mapEntries) :
    ∃ cut, copyChain capacity d hop chain delivered =
        .ok ((readClusters d (chain.take (capacity / clusterSize - hop)) delivered).1,
          (readClusters d (chain.take (capacity / clusterSize - hop)) delivered).2, cut) ∧
      ((readClusters d (chain.take (capacity / clusterSize - hop)) delivered).2.outcome = .ok () →
        cut = decide (capacity / clusterSize - hop < chain.length)) := by
  induction chain generalizing d hop delivered with
  | nil => exact ⟨false, by rw [copyChain, List.take_nil, readClusters]; rfl, fun _ => by simp⟩
  | cons c rest ih =>
    -- the chain is no longer than the map, so its offsets in the buffer are small numbers
    have hlength : hop + (rest.length + 1) ≤ 512 := hlength
    have hfits : (hop + 1) * clusterSize ≤ capacity ↔ hop < capacity / clusterSize :=
      (Nat.le_div_iff_mul_le (by decide)).symm
    rw [copyChain, fit_eq (by unfold longLimit clusterSize; omega), ok_bind,
      fit_eq (by unfold longLimit; omega), ok_bind,
      fit_eq (by unfold longLimit clusterSize; omega), ok_bind]
    by_cases hroom : hop < capacity / clusterSize
    · have hleft : capacity / clusterSize - hop = capacity / clusterSize - (hop + 1) + 1 := by omega
      rw [if_pos ⟨by unfold clusterSize; omega, hfits.mpr hroom⟩, readCluster_eq, ok_bind, hleft,
        List.take_succ_cons, readClusters]
      obtain ⟨d', bytes, e | _⟩ := BlockDevice.read d (clusterLba c) sectorsPerCluster clusterSize
      · exact ⟨false, rfl, fun h => by cases h⟩
      · obtain ⟨cut, hcopy, hcut⟩ := ih d' (hop + 1) (delivered ++ bytes)
          (by unfold mapEntries; omega)
        refine ⟨cut, hcopy, fun h => (hcut h).trans ?_⟩
        simp only [List.length_cons, Nat.add_lt_add_iff_right]
    · have hleft : capacity / clusterSize - hop = 0 := by omega
      rw [if_neg fun h => hroom (hfits.mp h.2), hleft, List.take_zero, readClusters]
      exact ⟨true, rfl, fun _ => by simp⟩

def read (v : Volume D) (parent : UInt32) (name : ShortName) (capacity : Nat) :
    Checked (Reply D UInt32) := do
  match ← stat v parent name with
  | (v, .error e) => return v.refuse e
  | (v, .ok entry) =>
    if entry.isDirectory then return v.refuse .wrongType
    else
      let needed ← clusterCount wordLimit entry.size.toNat
      if capacity / clusterSize < needed then return v.refuse .bufferTooSmall
      else
        let clusters ← chain v.map entry.cluster
        let start := Notice.reading name entry.size entry.cluster
        let (disk, got, cut) ← copyChain capacity v.disk 0 clusters #[]
        let v : Volume D := ⟨disk, v.map⟩
        match got.outcome with
        | .error e => return ⟨v, .error (.device e), got.bytes, [start]⟩
        | .ok () =>
          return ⟨v, .ok entry.size, got.bytes,
            start :: if cut then [Notice.chainTooLong name] else []⟩

theorem read_eq (v : Volume D) (parent : UInt32) (name : ShortName) (capacity : Nat) :
    read v parent name capacity = .ok (v.read parent name capacity) := by
  rw [read, stat_eq, ok_bind, Volume.read]
  obtain ⟨u, _ | entry⟩ := v.stat parent name
  · rfl
  obtain ⟨cut, hcopy, hcut⟩ := copyChain_eq capacity u.disk 0 #[]
    ((Nat.zero_add _).le.trans (u.map.length_walk_le mapEntries entry.cluster))
  rw [Nat.sub_zero] at hcopy hcut
  simp only [clusterCount_eq entry.size.toNat_lt, ok_bind, chain_eq, hcopy, AllocationMap.chain]
  split
  · rfl
  · split
    · rfl
    · generalize readClusters u.disk _ #[] = got at hcut ⊢
      obtain ⟨d, bytes, _ | _⟩ := got
      · rfl
      · simp only [hcut rfl, decide_eq_true_eq]
        rfl

def readDirectory (v : Volume D) (parent : UInt32) (name : ShortName) (capacity : Nat) :
    Checked (Reply D Unit) := do
  match ← stat v parent name with
  | (v, .error e) => return v.refuse e
  | (v, .ok entry) =>
    if !entry.isDirectory then return v.refuse .wrongType
    else if capacity < clusterSize then return v.refuse .bufferTooSmall
    else
      bounds 0 clusterSize capacity
      let (disk, got) ← readCluster v.disk entry.cluster
      return ⟨⟨disk, v.map⟩, got.outcome.mapError .device, got.bytes, [.listing name entry.cluster]⟩

theorem readDirectory_eq (v : Volume D) (parent : UInt32) (name : ShortName) (capacity : Nat) :
    readDirectory v parent name capacity = .ok (v.readDirectory parent name capacity) := by
  rw [readDirectory, stat_eq, ok_bind, Volume.readDirectory]
  obtain ⟨u, _ | entry⟩ := v.stat parent name
  · rfl
  simp only
  split_ifs with hdir hroom
  · rfl
  · rfl
  · rw [bounds_eq (Nat.zero_le _) (Nat.not_lt.mp hroom), ok_bind, readCluster_eq, ok_bind,
      readClusters]
    obtain ⟨d, bytes, _ | _⟩ :=
      BlockDevice.read u.disk (clusterLba entry.cluster) sectorsPerCluster clusterSize
    · simp
      rfl
    · simp [readClusters]
      rfl

end Checked

/-! ### How much a read reads -/

/-- Whether a number counts the clusters read, each by one at most. -/
def CountsClusters {D : Type} [BlockDevice D] (reads : D → Nat) : Prop :=
  ∀ d c, reads (BlockDevice.read d (clusterLba c) sectorsPerCluster clusterSize).1 ≤ reads d + 1

/-- A disk in memory records every transfer, and so counts its reads. -/
theorem MemoryDisk.countsClusters_transfers :
    CountsClusters fun d : MemoryDisk => d.transfers.size := by
  intro d c
  show (d.read (clusterLba c) sectorsPerCluster clusterSize).1.transfers.size ≤ _
  simp only [read]
  split <;> exact (Array.size_push _).le

namespace CountsClusters

variable {D : Type} [BlockDevice D] {reads : D → Nat}

theorem openDirectory (h : CountsClusters reads) (v : Volume D) (c : UInt32) :
    reads (v.openDirectory c).1.disk ≤ reads v.disk + 1 := by
  unfold Volume.openDirectory
  split
  · have hload : reads (v.loadTable c).1.disk ≤ reads v.disk + 1 := h v.disk c
    generalize v.loadTable c = loaded at hload
    obtain ⟨u, _ | table⟩ := loaded <;> exact hload
  · exact Nat.le_succ _

theorem stat (h : CountsClusters reads) (v : Volume D) (parent : UInt32) (name : ShortName) :
    reads (v.stat parent name).1.disk ≤ reads v.disk + 1 := by
  have hopen := h.openDirectory v parent
  unfold Volume.stat
  generalize v.openDirectory parent = opened at hopen
  obtain ⟨u, _ | table⟩ := opened
  · exact hopen
  · simp only
    split <;> exact hopen

theorem readClusters (h : CountsClusters reads) (d : D) (clusters : List UInt32)
    (delivered : Array UInt8) :
    reads (readClusters d clusters delivered).1 ≤ reads d + clusters.length := by
  induction clusters generalizing d delivered with
  | nil => exact Nat.le_refl _
  | cons c rest ih =>
    have hfirst := h d c
    unfold ClusterFs.readClusters
    generalize BlockDevice.read d (clusterLba c) sectorsPerCluster clusterSize = got at hfirst
    obtain ⟨d', bytes, _ | _⟩ := got
    · exact hfirst.trans (by simp)
    · have hrest := ih d' (delivered ++ bytes)
      rw [List.length_cons]
      simp only at hfirst ⊢
      omega

/-- A read reads the parent table, and no more clusters than the map has or the buffer holds. -/
theorem read (h : CountsClusters reads) (v : Volume D) (parent : UInt32) (name : ShortName)
    (capacity : Nat) : reads (v.read parent name capacity).volume.disk ≤
      reads v.disk + (1 + min 512 (capacity / clusterSize)) := by
  have hstat := h.stat v parent name
  unfold Volume.read
  generalize capacity / clusterSize = room
  generalize v.stat parent name = found at hstat
  obtain ⟨u, _ | entry⟩ := found
  · exact hstat.trans (by omega)
  have hchain : (u.map.chain entry.cluster).length ≤ 512 :=
    u.map.length_walk_le mapEntries entry.cluster
  have hread := h.readClusters u.disk ((u.map.chain entry.cluster).take room) #[]
  rw [List.length_take] at hread
  simp only at hstat ⊢
  split
  · exact hstat.trans (by omega)
  split
  · exact hstat.trans (by omega)
  split <;> simp only <;> omega

end CountsClusters

end ClusterFs
