import ClusterFs.Proofs.Chain
import Mathlib.Data.List.Sort

/-!
The search for free clusters as a loop over the map. The loop fills a vector of bounded size, stops
at the number asked for, and goes on without a cluster for which the vector has no room. It answers
as the plain search does and leaves no cluster out. So on every map the answer is the lowest free
clusters if the count of free clusters allows it, and a refusal otherwise.
-/
namespace ClusterFs

/-- Vectors of bounded size, by what is done with them: a push answers with the new vector, or hands
the element back. -/
structure BoundedVector (α : Type) where
  Carrier : Type
  empty : Carrier
  push : Carrier → α → Except α Carrier
  elements : Carrier → List α

/-- A push adds an element at the end as long as there is room, and fails on a full vector. -/
structure BoundedVector.Lawful {α : Type} (V : BoundedVector α) (capacity : Nat) : Prop where
  empty : V.elements V.empty = []
  room : ∀ v x, (V.elements v).length < capacity →
    ∃ w, V.push v x = .ok w ∧ V.elements w = V.elements v ++ [x]
  full : ∀ v x, capacity ≤ (V.elements v).length → V.push v x = .error x

/-- A list with room for a fixed number of elements. -/
structure BoundedList (α : Type) (capacity : Nat) where
  elements : List α
  length_le : elements.length ≤ capacity

namespace BoundedList

variable {α : Type} {capacity : Nat}

def empty : BoundedList α capacity := ⟨[], Nat.zero_le _⟩

/-- The list with an element added at the end, or the element back if there is no room for it. -/
def push (l : BoundedList α capacity) (x : α) : Except α (BoundedList α capacity) :=
  if h : l.elements.length < capacity then
    .ok ⟨l.elements ++ [x], by rw [List.length_append]; exact h⟩
  else .error x

def vector (α : Type) (capacity : Nat) : BoundedVector α where
  Carrier := BoundedList α capacity
  empty := empty
  push := push
  elements := elements

theorem lawful (α : Type) (capacity : Nat) : (vector α capacity).Lawful capacity where
  empty := rfl
  room _ _ h := ⟨_, dif_pos h, rfl⟩
  full _ _ h := dif_neg (Nat.not_lt.mpr h)

end BoundedList

namespace AllocationMap

/-! ### The loop -/

variable {V : BoundedVector UInt32} {capacity : Nat}

/-- What a scan has found: the clusters in its vector, and those that the vector had no room for. -/
structure Findings (V : BoundedVector UInt32) where
  listed : V.Carrier
  dropped : List UInt32

def Findings.nothing (V : BoundedVector UInt32) : Findings V := ⟨V.empty, []⟩

def Findings.clusters (found : Findings V) : List UInt32 := V.elements found.listed

def Findings.add (found : Findings V) (c : UInt32) : Findings V :=
  match V.push found.listed c with
  | .ok listed => { found with listed }
  | .error c => { found with dropped := found.dropped ++ [c] }

/-- Goes over the numbers of clusters until `count` free ones are listed. -/
def scan (m : AllocationMap) (count : Nat) : List Nat → Findings V → Findings V
  | [], found => found
  | i :: rest, found =>
    if found.clusters.length = count then found
    else if m.entries[i]? = some unused then m.scan count rest (found.add (UInt32.ofNat i))
    else m.scan count rest found

/-- The answer of a search that lists the clusters in such a vector, and the free clusters that it
came upon without room for them. -/
def search (V : BoundedVector UInt32) (m : AllocationMap) (count : Nat) :
    Except FsError (List UInt32) × List UInt32 :=
  if mapEntries < count then (.error .insufficientSpace, [])
  else
    let found := m.scan count ((List.range mapEntries).drop 2) (.nothing V)
    (if found.clusters.length < count then .error .insufficientSpace else .ok found.clusters,
      found.dropped)

theorem Findings.add_of_room (hV : V.Lawful capacity) {found : Findings V}
    (h : found.clusters.length < capacity) (c : UInt32) :
    (found.add c).clusters = found.clusters ++ [c] ∧ (found.add c).dropped = found.dropped := by
  obtain ⟨listed, hpush, helements⟩ := hV.room found.listed c h
  simp only [add, clusters, hpush, helements, and_self]

/-- With room for the number asked for, a scan lists a first part of the free clusters on its way
and drops none. -/
theorem scan_spec (hV : V.Lawful capacity) (m : AllocationMap) {count : Nat}
    (hcount : count ≤ capacity) (numbers : List Nat) (found : Findings V)
    (hfound : found.clusters.length ≤ count) :
    (m.scan count numbers found).clusters =
        (found.clusters ++ numbers.filterMap fun i =>
          if m.entries[i]? = some unused then some (UInt32.ofNat i) else none).take count ∧
      (m.scan count numbers found).dropped = found.dropped := by
  induction numbers generalizing found with
  | nil =>
    rw [List.filterMap_nil, List.append_nil, List.take_of_length_le hfound]
    exact ⟨rfl, rfl⟩
  | cons i rest ih =>
    rw [scan]
    split_ifs with hfull hfree
    · rw [List.take_append_of_le_length (Nat.le_of_eq hfull.symm),
        List.take_of_length_le (Nat.le_of_eq hfull)]
      exact ⟨rfl, rfl⟩
    · -- the vector does not hold the number asked for, hence it is not full
      obtain ⟨hlisted, hdropped⟩ :=
        Findings.add_of_room hV (by omega : found.clusters.length < capacity) (UInt32.ofNat i)
      have hroom : (found.add (UInt32.ofNat i)).clusters.length ≤ count := by
        rw [hlisted, List.length_append, List.length_singleton]
        omega
      obtain ⟨helements, hrest⟩ := ih _ hroom
      rw [helements, hrest, hlisted, hdropped, List.filterMap_cons, if_pos hfree, List.append_assoc]
      exact ⟨rfl, rfl⟩
    · rw [List.filterMap_cons, if_neg hfree]
      exact ih found hfound

/-- A scan of the whole map lists the first free clusters. -/
theorem scan_map (hV : V.Lawful mapEntries) (m : AllocationMap) {count : Nat}
    (hcount : count ≤ mapEntries) :
    (m.scan count ((List.range mapEntries).drop 2) (.nothing V)).clusters =
        m.freeClusters.take count ∧
      (m.scan count ((List.range mapEntries).drop 2) (.nothing V)).dropped = [] := by
  have hnothing : (Findings.nothing V).clusters = [] := hV.empty
  obtain ⟨hlisted, hdropped⟩ := m.scan_spec hV hcount ((List.range mapEntries).drop 2) (.nothing V)
    (by rw [hnothing]; exact Nat.zero_le count)
  refine ⟨?_, hdropped⟩
  rw [hlisted, hnothing, freeClusters]
  exact congrArg (List.take count) (List.nil_append _)

/-- The loop answers as the plain search, and it drops nothing. -/
theorem search_eq (hV : V.Lawful mapEntries) (m : AllocationMap) (count : Nat) :
    m.search V count = (m.findFree count, []) := by
  have hfree := m.length_freeClusters_le
  by_cases hlarge : mapEntries < count
  · have hroom : ¬ count ≤ m.freeClusters.length := by
      unfold mapEntries at hlarge
      omega
    simp only [search, findFree, if_pos hlarge, if_neg hroom]
  · obtain ⟨hlisted, hdropped⟩ := m.scan_map hV (Nat.not_lt.mp hlarge)
    simp only [search, findFree, if_neg hlarge, hlisted, hdropped, List.length_take]
    by_cases hroom : count ≤ m.freeClusters.length
    · rw [if_neg (by omega), if_pos hroom]
    · rw [if_pos (by omega), if_neg hroom]

/-! ### The lowest free clusters -/

/-- The lowest free clusters, followed by the other free ones, are the free clusters in order. -/
theorem Lowest.append_rest {m : AllocationMap} {count : Nat} {clusters : List UInt32}
    (h : m.Lowest count clusters) :
    clusters ++ m.freeClusters.filter (· ∉ clusters) = m.freeClusters := by
  have hordered : (clusters ++ m.freeClusters.filter (· ∉ clusters)).Pairwise (· < ·) := by
    refine List.pairwise_append.mpr ⟨h.increasing, m.increasing_freeClusters.filter _, ?_⟩
    intro d hd c hc
    obtain ⟨hfree, hnotMem⟩ := List.mem_filter.mp hc
    obtain ⟨hdata, hunused⟩ := mem_freeClusters.mp hfree
    obtain ⟨hlow, hhigh⟩ := isData_iff.mp hdata
    exact h.least c hlow hhigh hunused (of_decide_eq_true hnotMem) d hd
  apply hordered.eq_of_mem_iff m.increasing_freeClusters
  intro c
  rw [List.mem_append, List.mem_filter, decide_eq_true_eq]
  constructor
  · rintro (hlowest | ⟨hfree, -⟩)
    · obtain ⟨hlow, hhigh, hunused⟩ := h.free c hlowest
      exact mem_freeClusters.mpr ⟨isData_iff.mpr ⟨hlow, hhigh⟩, hunused⟩
    · exact hfree
  · intro hfree
    by_cases hlowest : c ∈ clusters
    · exact .inl hlowest
    · exact .inr ⟨hfree, hlowest⟩

/-- A map has one list of its lowest free clusters, if it has so many. -/
theorem lowest_iff {m : AllocationMap} {count : Nat} {clusters : List UInt32} :
    m.Lowest count clusters ↔ m.findFree count = .ok clusters := by
  refine ⟨fun h => ?_, lowest_findFree⟩
  rw [findFree_eq_ok_iff, freeCount_eq, ← h.append_rest]
  constructor
  · rw [List.length_append, h.length]
    exact Nat.le_add_right ..
  · rw [← h.length, List.take_left]

/-- On every map and for every count, the loop answers as the plain search and drops no cluster. It
succeeds exactly if so many clusters are counted as free, its answer is then the list of the lowest
free clusters, and otherwise it refuses for want of space. -/
theorem search_finds_lowest (hV : V.Lawful 512) (m : AllocationMap) (count : Nat) :
    m.search V count = (m.findFree count, []) ∧
      ((∃ clusters, m.findFree count = .ok clusters) ↔ count ≤ m.freeCount) ∧
      (∀ clusters, m.findFree count = .ok clusters ↔ m.Lowest count clusters) ∧
      (m.findFree count = .error .insufficientSpace ↔ m.freeCount < count) := by
  refine ⟨m.search_eq hV count, ?_, fun clusters => lowest_iff.symm, findFree_eq_error_iff⟩
  simp only [findFree_eq_ok_iff, exists_and_left, exists_eq, and_true]

/-- On the map of an empty volume, a search with a list of 512 elements finds two clusters behind
the root. -/
theorem search_formatted_two :
    (BoundedList.vector UInt32 512).Lawful 512 ∧
      formatted.search (BoundedList.vector UInt32 512) 2 = (.ok [3, 4], []) := by
  have hlawful := BoundedList.lawful UInt32 512
  obtain ⟨hsearch, -⟩ := search_finds_lowest hlawful formatted 2
  have hroom : 2 ≤ ((List.range' 3 509).map UInt32.ofNat).length := by
    rw [List.length_map, List.length_range']
    decide
  rw [hsearch, findFree, freeClusters_formatted, if_pos hroom]
  exact ⟨hlawful, rfl⟩

end AllocationMap

end ClusterFs
