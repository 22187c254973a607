import ClusterFs.Error
import ClusterFs.Geometry
import ClusterFs.LittleEndian

/-!
The allocation map. Each entry is empty, the number of the next cluster of a chain, or the end mark.
Entries 0 and 1 are reserved and never handed out, so data clusters are 2 to 511.
-/
namespace ClusterFs

open LittleEndian

structure AllocationMap where
  entries : Vector UInt32 512
  deriving DecidableEq

namespace AllocationMap

def unused : UInt32 := 0
def endOfChain : UInt32 := 0x0FFFFFFF
def reserved0 : UInt32 := 0x0FFFFFF0
def reserved1 : UInt32 := 0x0FFFFFFF

/-- The map of an empty volume: the root directory holds cluster 2, and the rest is free. -/
def formatted : AllocationMap where
  entries := Vector.ofFn fun i : Fin 512 =>
    if i.1 = 0 then reserved0
    else if i.1 = 1 then reserved1
    else if i.1 = 2 then endOfChain
    else unused

def decode (raw : Cluster) : AllocationMap where
  entries := Vector.ofFn fun i : Fin 512 =>
    word32At raw (4 * i.1) (by omega)

def encode (m : AllocationMap) : Cluster :=
  Vector.ofFn fun k : Fin 2048 => byteOf m.entries[k.1 / 4].toNat (k.1 % 4)

def get? (m : AllocationMap) (cluster : UInt32) : Option UInt32 := m.entries[cluster.toNat]?

/-- The map with one entry changed; numbers past the map have no entry. -/
def set (m : AllocationMap) (cluster value : UInt32) : AllocationMap :=
  ⟨m.entries.setIfInBounds cluster.toNat value⟩

def isData (cluster : UInt32) : Bool := 2 ≤ cluster.toNat && cluster.toNat < mapEntries

/-- A table takes one cluster, so only a data cluster that ends its chain can hold a directory. -/
def isTerminal (m : AllocationMap) (cluster : UInt32) : Bool :=
  2 ≤ cluster.toNat && m.get? cluster == some endOfChain

def freeCount (m : AllocationMap) : Nat := (m.entries.toList.drop 2).count unused

/-- The free clusters in increasing order. -/
def freeClusters (m : AllocationMap) : List UInt32 :=
  ((List.range mapEntries).drop 2).filterMap fun c =>
    if m.entries[c]? = some unused then some (UInt32.ofNat c) else none

/-- The first `count` free clusters, if there are so many. -/
def findFree (m : AllocationMap) (count : Nat) : Except FsError (List UInt32) :=
  let free := m.freeClusters
  if count ≤ free.length then .ok (free.take count) else .error .insufficientSpace

/-- The walk from `start` over at most `fuel` clusters. It ends after an end mark, and before an
empty entry or a number that is no data cluster. -/
def walk (m : AllocationMap) : Nat → UInt32 → List UInt32
  | 0, _ => []
  | fuel + 1, start =>
    if isData start then
      match m.get? start with
      | none => []
      | some next =>
        if next = unused then []
        else if next = endOfChain then [start]
        else start :: m.walk fuel next
    else []

/-- The chain from `start`. A walk longer than the map runs in a cycle and is cut there. -/
def chain (m : AllocationMap) (start : UInt32) : List UInt32 := m.walk mapEntries start

/-- Entries that are not empty. -/
def usedEntries (m : AllocationMap) : Nat := m.entries.countP (· != unused)

theorem usedEntries_set_unused (m : AllocationMap) (c next : UInt32)
    (h : m.get? c = some next) (hne : next ≠ unused) :
    (m.set c unused).usedEntries < m.usedEntries := by
  obtain ⟨hc, hv⟩ := Vector.getElem?_eq_some_iff.mp h
  have hset : (m.set c unused).entries = m.entries.set c.toNat unused hc := by
    ext j hj
    simp [set, Vector.getElem_setIfInBounds, Vector.getElem_set]
  have hpos : 0 < m.usedEntries :=
    Vector.countP_pos_iff.mpr ⟨_, Vector.getElem_mem hc, by simp [hv, hne]⟩
  simp only [usedEntries] at hpos ⊢
  rw [hset, Vector.countP_set, if_pos (by simp [hv, hne]), if_neg (by simp)]
  omega

/-- The map with the chain from `start` emptied, and the number of clusters that were released. -/
def freeChain (m : AllocationMap) (start : UInt32) : AllocationMap × Nat :=
  if isData start then
    match _h : m.get? start with
    | none => (m, 0)
    | some next =>
      if _hne : next = unused then (m, 0)
      else if next = endOfChain then (m.set start unused, 1)
      else
        let (rest, freed) := (m.set start unused).freeChain next
        (rest, freed + 1)
  else (m, 0)
termination_by m.usedEntries
decreasing_by exact usedEntries_set_unused m start next _h _hne

end AllocationMap

end ClusterFs
