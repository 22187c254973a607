import ClusterFs.AllocationMap
import Mathlib.Data.List.Nodup

/-!
Chains in the allocation map. A list of clusters is linked if each entry names the next cluster and
the last is the end mark. The walk finds exactly the linked clusters, releasing a chain empties
exactly these, and the search for free clusters yields distinct empty ones. On a map whose links
lead anywhere, releasing a chain still changes no entry that the walk does not visit.
-/
namespace ClusterFs.AllocationMap

theorem isData_iff {c : UInt32} : isData c = true ↔ 2 ≤ c.toNat ∧ c.toNat < 512 := by
  simp [isData]

theorem isData_ne_unused {c : UInt32} (h : isData c = true) : c ≠ unused := by
  rintro rfl
  exact absurd h (by decide)

theorem isData_ne_endOfChain {c : UInt32} (h : isData c = true) : c ≠ endOfChain := by
  rintro rfl
  exact absurd h (by decide)

theorem isData_ne_mapCluster {c : UInt32} (h : isData c = true) : c ≠ mapCluster := by
  rintro rfl
  exact absurd h (by decide)

theorem get?_set_of_ne (m : AllocationMap) {c d : UInt32} (value : UInt32) (h : d ≠ c) :
    (m.set c value).get? d = m.get? d := by
  have hne : c.toNat ≠ d.toNat := fun he => h (UInt32.toNat_inj.mp he.symm)
  simp [get?, set, hne]

theorem get?_set (m : AllocationMap) {c : UInt32} (value d : UInt32) (hc : isData c = true) :
    (m.set c value).get? d = if d = c then some value else m.get? d := by
  by_cases h : d = c
  · subst h
    simp [get?, set, (isData_iff.mp hc).2]
  · rw [get?_set_of_ne m value h, if_neg h]

/-- A map is known by its entries. -/
theorem ext_get? {m n : AllocationMap} (h : ∀ c, m.get? c = n.get? c) : m = n := by
  obtain ⟨entries⟩ := m
  obtain ⟨entries'⟩ := n
  simp only [AllocationMap.mk.injEq]
  refine Vector.ext fun i hi => ?_
  have hindex : (UInt32.ofNat i).toNat = i :=
    UInt32.toNat_ofNat_of_lt' (Nat.lt_trans hi (by decide))
  have hentry := h (UInt32.ofNat i)
  simp only [get?, hindex, Vector.getElem?_eq_getElem hi, Option.some.injEq] at hentry
  exact hentry

theorem lt_of_get?_eq_some {m : AllocationMap} {c value : UInt32} (h : m.get? c = some value) :
    c.toNat < 512 :=
  (Vector.getElem?_eq_some_iff.mp h).1

theorem isTerminal_iff {m : AllocationMap} {c : UInt32} :
    m.isTerminal c = true ↔ isData c = true ∧ m.get? c = some endOfChain := by
  simp only [isTerminal, Bool.and_eq_true, decide_eq_true_eq, beq_iff_eq, isData_iff]
  exact ⟨fun h => ⟨⟨h.1, lt_of_get?_eq_some h.2⟩, h.2⟩, fun h => ⟨h.1.1, h.2⟩⟩

/-! ### Free clusters -/

theorem mem_dataNumbers {i : Nat} : i ∈ (List.range mapEntries).drop 2 ↔ 2 ≤ i ∧ i < 512 := by
  rw [List.range_eq_range', List.drop_range', List.mem_range'_1]
  simp only [mapEntries]

/-- The number that the scan turns into a free cluster is that cluster's own. -/
private theorem scan_eq_some {m : AllocationMap} {i : Nat} {c : UInt32}
    (h : (if m.entries[i]? = some unused then some (UInt32.ofNat i) else none) = some c) :
    c.toNat = i ∧ m.entries[i]? = some unused := by
  split_ifs at h with hfree
  obtain rfl := Option.some.inj h
  have hi := (Vector.getElem?_eq_some_iff.mp hfree).1
  refine ⟨UInt32.toNat_ofNat_of_lt' ?_, hfree⟩
  show i < 4294967296
  omega

theorem mem_freeClusters {m : AllocationMap} {c : UInt32} :
    c ∈ m.freeClusters ↔ isData c = true ∧ m.get? c = some unused := by
  unfold freeClusters get?
  rw [List.mem_filterMap, isData_iff]
  constructor
  · rintro ⟨i, hi, h⟩
    obtain ⟨rfl, hfree⟩ := scan_eq_some h
    exact ⟨mem_dataNumbers.mp hi, hfree⟩
  · rintro ⟨hrange, hfree⟩
    exact ⟨c.toNat, mem_dataNumbers.mpr hrange, by rw [if_pos hfree, UInt32.ofNat_toNat]⟩

theorem nodup_freeClusters (m : AllocationMap) : m.freeClusters.Nodup := by
  apply List.Nodup.filterMap
  · intro i j c hi hj
    rw [← (scan_eq_some hi).1, ← (scan_eq_some hj).1]
  · exact List.nodup_range.sublist (List.drop_sublist ..)

/-- The clusters counted as free are the free clusters. -/
theorem freeCount_eq (m : AllocationMap) : m.freeCount = m.freeClusters.length := by
  have hentries : m.entries.toList = (List.range mapEntries).map fun i => m.entries[i]?.getD 0 := by
    apply List.ext_getElem
    · simp
    · intro i hi hi'
      have hlt : i < 512 := by simpa using hi
      simp [Vector.getElem?_eq_getElem hlt]
  rw [freeCount, freeClusters, List.length_filterMap_eq_countP, hentries, ← List.map_drop,
    List.count_eq_countP, List.countP_map]
  apply List.countP_congr
  intro i hi
  have hlt := (mem_dataNumbers.mp hi).2
  simp only [Function.comp, Vector.getElem?_eq_getElem hlt, Option.getD_some, beq_iff_eq,
    Option.some.injEq]
  split_ifs with hunused
  · exact iff_of_true hunused rfl
  · exact iff_of_false hunused Bool.false_ne_true

/-- The scan meets the free clusters in increasing order. -/
theorem increasing_freeClusters (m : AllocationMap) : m.freeClusters.Pairwise (· < ·) := by
  rw [freeClusters, List.pairwise_filterMap]
  refine (List.pairwise_lt_range.drop (i := 2)).imp fun {i j} hij c hc d hd => ?_
  rw [UInt32.lt_iff_toNat_lt, (scan_eq_some hc).1, (scan_eq_some hd).1]
  exact hij

/-- A search that succeeds yields as many distinct empty clusters as asked for. -/
theorem findFree_spec {m : AllocationMap} {count : Nat} {clusters : List UInt32}
    (h : m.findFree count = .ok clusters) :
    clusters.length = count ∧ clusters.Nodup ∧
      ∀ c ∈ clusters, isData c = true ∧ m.get? c = some unused := by
  simp only [findFree] at h
  split at h
  · rename_i hle
    obtain rfl := Except.ok.inj h
    refine ⟨?_, (nodup_freeClusters m).sublist (List.take_sublist ..), ?_⟩
    · rw [List.length_take]
      omega
    · exact fun c hc => mem_freeClusters.mp (List.mem_of_mem_take hc)
  · contradiction

theorem findFree_error {m : AllocationMap} {count : Nat} {cause : FsError}
    (h : m.findFree count = .error cause) : cause = .insufficientSpace := by
  simp only [findFree] at h
  split at h
  · cases h
  · exact (Except.error.inj h).symm

theorem findFree_eq_ok_iff {m : AllocationMap} {count : Nat} {clusters : List UInt32} :
    m.findFree count = .ok clusters ↔
      count ≤ m.freeCount ∧ clusters = m.freeClusters.take count := by
  rw [findFree, freeCount_eq]
  split_ifs with hcount
  · simp only [hcount, true_and, Except.ok.injEq, eq_comm]
  · simp only [hcount, false_and]

theorem findFree_eq_error_iff {m : AllocationMap} {count : Nat} :
    m.findFree count = .error .insufficientSpace ↔ m.freeCount < count := by
  rw [findFree, freeCount_eq]
  split_ifs with hcount
  · simp only [Nat.not_lt.mpr hcount]
  · simp only [Nat.not_le.mp hcount]

/-- The `count` lowest free clusters, in increasing order. -/
structure Lowest (m : AllocationMap) (count : Nat) (clusters : List UInt32) : Prop where
  length : clusters.length = count
  increasing : clusters.Pairwise (· < ·)
  free : ∀ c ∈ clusters, 2 ≤ c.toNat ∧ c.toNat < 512 ∧ m.entries[c.toNat]? = some 0
  least : ∀ c : UInt32, 2 ≤ c.toNat → c.toNat < 512 → m.entries[c.toNat]? = some 0 →
    c ∉ clusters → ∀ d ∈ clusters, d < c

/-- A search takes the lowest free clusters. -/
theorem lowest_findFree {m : AllocationMap} {count : Nat} {clusters : List UInt32}
    (h : m.findFree count = .ok clusters) : m.Lowest count clusters := by
  obtain ⟨hlength, -, hfree⟩ := findFree_spec h
  obtain ⟨-, rfl⟩ := findFree_eq_ok_iff.mp h
  refine ⟨hlength, m.increasing_freeClusters.sublist (List.take_sublist ..), fun c hc => ?_, ?_⟩
  · obtain ⟨hdata, hunused⟩ := hfree c hc
    obtain ⟨hlow, hhigh⟩ := isData_iff.mp hdata
    exact ⟨hlow, hhigh, hunused⟩
  · intro c hlow hhigh hunused hnotMem d hd
    -- a free cluster that was not taken lies in the rest of the list
    have hmem : c ∈ m.freeClusters :=
      mem_freeClusters.mpr ⟨isData_iff.mpr ⟨hlow, hhigh⟩, hunused⟩
    have hordered := m.increasing_freeClusters
    rw [← List.take_append_drop count m.freeClusters] at hmem hordered
    have hrest := (List.mem_append.mp hmem).resolve_left hnotMem
    exact (List.pairwise_append.mp hordered).2.2 d hd c hrest

theorem length_freeClusters_le (m : AllocationMap) : m.freeClusters.length ≤ 510 := by
  have hscan := List.length_filterMap_le
    (fun c => if m.entries[c]? = some unused then some (UInt32.ofNat c) else none)
    ((List.range mapEntries).drop 2)
  simpa [freeClusters, mapEntries] using hscan

theorem length_findFree_lt {m : AllocationMap} {count : Nat} {clusters : List UInt32}
    (h : m.findFree count = .ok clusters) : clusters.length < 512 := by
  have hfree := m.length_freeClusters_le
  obtain ⟨-, rfl⟩ := findFree_eq_ok_iff.mp h
  rw [List.length_take]
  omega

theorem get?_formatted {c : UInt32} (hc : c.toNat < 512) :
    formatted.get? c = some (if c.toNat = 0 then reserved0 else if c.toNat = 1 then reserved1
      else if c.toNat = 2 then endOfChain else unused) := by
  unfold get?
  rw [Vector.getElem?_eq_getElem hc]
  simp only [formatted, Vector.getElem_ofFn]

theorem freeClusters_formatted :
    formatted.freeClusters = (List.range' 3 509).map UInt32.ofNat := by
  have hrange : (List.range mapEntries).drop 2 = 2 :: List.range' 3 509 := by
    rw [List.range_eq_range', List.drop_range']
    rfl
  unfold freeClusters
  rw [hrange, List.filterMap_cons_none, ← List.filterMap_eq_map]
  · apply List.filterMap_congr
    intro i hi
    rw [List.mem_range'_1] at hi
    have hindex : (UInt32.ofNat i).toNat = i := UInt32.toNat_ofNat_of_lt' (by
      show i < 4294967296
      omega)
    have hentry := get?_formatted (c := UInt32.ofNat i) (by omega)
    rw [get?, hindex, if_neg (by omega), if_neg (by omega), if_neg (by omega)] at hentry
    rw [if_pos hentry]
    rfl
  · have hentry := get?_formatted (c := 2) (by decide)
    rw [if_neg]
    intro hfree
    exact absurd (hentry.symm.trans hfree) (by decide)

/-! ### Linked clusters -/

/-- Each cluster's entry names the next one, and the last carries the end mark. -/
def Linked (m : AllocationMap) : List UInt32 → Prop
  | [] => False
  | [last] => m.get? last = some endOfChain
  | c :: next :: rest => m.get? c = some next ∧ m.Linked (next :: rest)

theorem Linked.congr {m n : AllocationMap} {clusters : List UInt32} (h : m.Linked clusters)
    (heq : ∀ c ∈ clusters, n.get? c = m.get? c) : n.Linked clusters := by
  induction clusters with
  | nil => exact h
  | cons c rest ih =>
    cases rest with
    | nil => exact (heq c (by simp)).trans h
    | cons next rest =>
      exact ⟨(heq c (by simp)).trans h.1, ih h.2 fun d hd => heq d (List.mem_cons_of_mem _ hd)⟩

theorem Linked.get?_ne_unused {m : AllocationMap} {clusters : List UInt32} (h : m.Linked clusters)
    (hdata : ∀ c ∈ clusters, isData c = true) : ∀ c ∈ clusters, m.get? c ≠ some unused := by
  induction clusters with
  | nil => simp
  | cons c rest ih =>
    cases rest with
    | nil =>
      have hend : m.get? c = some endOfChain := h
      simp [hend, show endOfChain ≠ unused by decide]
    | cons next rest =>
      have hnext := isData_ne_unused (hdata next (by simp))
      have htail := ih h.2 fun d hd => hdata d (List.mem_cons_of_mem _ hd)
      intro d hd
      rcases List.mem_cons.mp hd with rfl | hd
      · simp [h.1, hnext]
      · exact htail d hd

/-- Only the last of linked clusters carries the end mark. -/
theorem Linked.eq_last {m : AllocationMap} {clusters : List UInt32} (h : m.Linked clusters)
    (hdata : ∀ c ∈ clusters, isData c = true) {i : Nat} (hi : i < clusters.length)
    (hend : m.get? clusters[i] = some endOfChain) : i = clusters.length - 1 := by
  induction clusters generalizing i with
  | nil => simp at hi
  | cons c rest ih =>
    cases rest with
    | nil => simpa using hi
    | cons next rest =>
      have htail : ∀ d ∈ next :: rest, isData d = true :=
        fun d hd => hdata d (List.mem_cons_of_mem _ hd)
      cases i with
      | zero =>
        have hnext : some next = some endOfChain := h.1.symm.trans hend
        exact absurd (Option.some.inj hnext) (isData_ne_endOfChain (htail next (by simp)))
      | succ i =>
        have hlast := ih h.2 htail (by simpa using hi) hend
        simp only [List.length_cons] at hlast ⊢
        omega

theorem Linked.get?_last {m : AllocationMap} {clusters : List UInt32} (h : m.Linked clusters)
    (hlast : clusters.length - 1 < clusters.length) :
    m.get? clusters[clusters.length - 1] = some endOfChain := by
  induction clusters with
  | nil => exact h.elim
  | cons c rest ih =>
    cases rest with
    | nil => exact h
    | cons next rest => exact ih h.2 (by simp)

theorem length_walk_le (m : AllocationMap) (fuel : Nat) (start : UInt32) :
    (m.walk fuel start).length ≤ fuel := by
  induction fuel generalizing start with
  | zero => simp [walk]
  | succ fuel ih =>
    unfold walk
    split
    · split
      · simp
      · rename_i next _
        split_ifs
        · simp
        · simp
        · simpa using ih next
    · simp

theorem isData_of_mem_walk {m : AllocationMap} {fuel : Nat} {start c : UInt32}
    (h : c ∈ m.walk fuel start) : isData c = true := by
  induction fuel generalizing start with
  | zero => simp [walk] at h
  | succ fuel ih =>
    unfold walk at h
    split at h
    · rename_i hdata
      split at h
      · simp at h
      · split_ifs at h
        · simp at h
        · obtain rfl := List.mem_singleton.mp h
          exact hdata
        · rcases List.mem_cons.mp h with rfl | h
          · exact hdata
          · exact ih h
    · simp at h

theorem isData_of_mem_chain {m : AllocationMap} {start c : UInt32} (h : c ∈ m.chain start) :
    isData c = true :=
  isData_of_mem_walk h

/-- A walk stops before a free cluster. -/
theorem get?_ne_unused_of_mem_walk {m : AllocationMap} {fuel : Nat} {start c : UInt32}
    (h : c ∈ m.walk fuel start) : m.get? c ≠ some unused := by
  induction fuel generalizing start with
  | zero => simp [walk] at h
  | succ fuel ih =>
    unfold walk at h
    split at h
    · split at h
      · simp at h
      · rename_i next hnext
        split_ifs at h with hunused
        · simp at h
        · obtain rfl := List.mem_singleton.mp h
          simpa [hnext] using hunused
        · rcases List.mem_cons.mp h with rfl | h
          · simpa [hnext] using hunused
          · exact ih h
    · simp at h

theorem get?_ne_unused_of_mem_chain {m : AllocationMap} {start c : UInt32}
    (h : c ∈ m.chain start) : m.get? c ≠ some unused :=
  get?_ne_unused_of_mem_walk h

/-- A walk over linked clusters visits all of them and ends at the end mark. -/
theorem walk_of_linked {m : AllocationMap} {start : UInt32} {rest : List UInt32} {fuel : Nat}
    (hl : m.Linked (start :: rest)) (hdata : ∀ c ∈ start :: rest, isData c = true)
    (hfuel : rest.length < fuel) : m.walk fuel start = start :: rest := by
  induction rest generalizing start fuel with
  | nil =>
    obtain ⟨fuel, rfl⟩ : ∃ k, fuel = k + 1 := ⟨fuel - 1, by omega⟩
    have hend : m.get? start = some endOfChain := hl
    simp [walk, hdata start (by simp), hend, show endOfChain ≠ unused by decide]
  | cons next rest ih =>
    obtain ⟨fuel, rfl⟩ : ∃ k, fuel = k + 1 := ⟨fuel - 1, by omega⟩
    have hn := hdata next (by simp)
    have htail := ih hl.2 (fun c hc => hdata c (List.mem_cons_of_mem _ hc))
      (by simpa using hfuel)
    simp [walk, hdata start (by simp), hl.1, isData_ne_unused hn, isData_ne_endOfChain hn, htail]

theorem chain_of_linked {m : AllocationMap} {start : UInt32} {rest : List UInt32}
    (hl : m.Linked (start :: rest)) (hdata : ∀ c ∈ start :: rest, isData c = true)
    (hlength : rest.length < 512) : m.chain start = start :: rest :=
  walk_of_linked hl hdata hlength

/-- A walk that visits a cluster starts with it. -/
theorem walk_eq_cons {m : AllocationMap} {fuel : Nat} {start c : UInt32} {rest : List UInt32}
    (h : m.walk fuel start = c :: rest) : start = c := by
  cases fuel with
  | zero => simp [walk] at h
  | succ fuel =>
    unfold walk at h
    split at h
    · split at h
      · contradiction
      · split_ifs at h
        · exact (List.cons.inj h).1
        · exact (List.cons.inj h).1
    · contradiction

theorem exists_chain_eq_cons {m : AllocationMap} {start : UInt32}
    (hl : m.Linked (m.chain start)) : ∃ rest, m.chain start = start :: rest := by
  cases hchain : m.chain start with
  | nil => simp [hchain, Linked] at hl
  | cons c rest =>
    obtain rfl := walk_eq_cons hchain
    exact ⟨rest, rfl⟩

/-- A chain that is linked stays the same when its own entries do. -/
theorem chain_congr {m n : AllocationMap} {start : UInt32} (hl : m.Linked (m.chain start))
    (heq : ∀ c ∈ m.chain start, n.get? c = m.get? c) : n.chain start = m.chain start := by
  have hlength := length_walk_le m mapEntries start
  have hdata : ∀ c ∈ m.chain start, isData c = true := fun _ => isData_of_mem_chain
  have hn := hl.congr heq
  change (m.chain start).length ≤ 512 at hlength
  obtain ⟨rest, hchain⟩ := exists_chain_eq_cons hl
  rw [hchain] at hdata hn hlength ⊢
  exact chain_of_linked hn hdata hlength

theorem freeChain_of_end {m : AllocationMap} {c : UInt32} (hd : isData c = true)
    (hend : m.get? c = some endOfChain) : (m.freeChain c).1 = m.set c unused := by
  rw [freeChain, if_pos hd]
  split
  · simp_all
  · rename_i next h
    obtain rfl : endOfChain = next := Option.some.inj (hend.symm.trans h)
    rw [dif_neg (by decide), if_pos rfl]

theorem freeChain_of_link {m : AllocationMap} {c next : UInt32} (hd : isData c = true)
    (hn : isData next = true) (hlink : m.get? c = some next) :
    (m.freeChain c).1 = ((m.set c unused).freeChain next).1 := by
  rw [freeChain, if_pos hd]
  split
  · simp_all
  · rename_i found h
    obtain rfl : next = found := Option.some.inj (hlink.symm.trans h)
    rw [dif_neg (isData_ne_unused hn), if_neg (isData_ne_endOfChain hn)]

theorem get?_freeChain {m : AllocationMap} {start : UInt32} {rest : List UInt32}
    (hl : m.Linked (start :: rest)) (hdata : ∀ c ∈ start :: rest, isData c = true)
    (hnodup : (start :: rest).Nodup) (c : UInt32) :
    (m.freeChain start).1.get? c = if c ∈ start :: rest then some unused else m.get? c := by
  have hd := hdata start (by simp)
  induction rest generalizing start m with
  | nil =>
    rw [freeChain_of_end hd hl, get?_set _ _ _ hd]
    simp
  | cons next rest ih =>
    have hn := hdata next (by simp)
    have hnotMem : start ∉ next :: rest := (List.nodup_cons.mp hnodup).1
    -- the tail is linked as before, since its entries are not the one that was emptied
    have htail : (m.set start unused).Linked (next :: rest) := by
      apply hl.2.congr
      intro d hmem
      rw [get?_set _ _ _ hd, if_neg]
      rintro rfl
      exact hnotMem hmem
    rw [freeChain_of_link hd hn hl.1, ih htail (fun d hmem => hdata d (List.mem_cons_of_mem _ hmem))
      (List.nodup_cons.mp hnodup).2 hn, get?_set _ _ _ hd]
    by_cases hc : c = start <;> by_cases hmem : c ∈ next :: rest <;> simp_all

/-- Releasing a chain that is linked empties exactly its clusters. -/
theorem get?_freeChain_of_linked {m : AllocationMap} {start : UInt32}
    (hl : m.Linked (m.chain start)) (hnodup : (m.chain start).Nodup) (c : UInt32) :
    (m.freeChain start).1.get? c = if c ∈ m.chain start then some unused else m.get? c := by
  have hdata : ∀ c ∈ m.chain start, isData c = true := fun _ => isData_of_mem_chain
  obtain ⟨rest, hchain⟩ := exists_chain_eq_cons hl
  rw [hchain] at hl hnodup hdata ⊢
  exact get?_freeChain hl hdata hnodup c

/-! ### Chains of any map -/

/-- A walk that starts at a link visits the start and goes on with the next cluster. -/
theorem walk_succ_of_link {m : AllocationMap} {start next : UInt32} (fuel : Nat)
    (hd : isData start = true) (hlink : m.get? start = some next) (hne : next ≠ unused)
    (hend : next ≠ endOfChain) : m.walk (fuel + 1) start = start :: m.walk fuel next := by
  simp [walk, hd, hlink, hne, hend]

theorem walk_succ_of_end {m : AllocationMap} {start : UInt32} (fuel : Nat)
    (hd : isData start = true) (hend : m.get? start = some endOfChain) :
    m.walk (fuel + 1) start = [start] := by
  simp [walk, hd, hend, show endOfChain ≠ unused by decide]

/-- On a map of which some entries were emptied, releasing a chain reaches only clusters that a walk
on the whole map visits. -/
theorem get?_freeChain_of_notMem_walk {m n : AllocationMap} {start c : UInt32} {fuel : Nat}
    (hsub : ∀ d, n.get? d = m.get? d ∨ n.get? d = some unused) (hfuel : n.usedEntries ≤ fuel)
    (hc : c ∉ m.walk fuel start) : (n.freeChain start).1.get? c = n.get? c := by
  -- an entry that is still used is the one of the whole map
  have hkept {n : AllocationMap} (hsub : ∀ d, n.get? d = m.get? d ∨ n.get? d = some unused)
      {d next : UInt32} (hnext : n.get? d = some next) (hne : next ≠ unused) :
      m.get? d = some next := by
    rcases hsub d with hd | hd
    · rw [← hd, hnext]
    · exact absurd (Option.some.inj (hnext.symm.trans hd)) hne
  fun_induction freeChain n start generalizing fuel with
  | case1 | case2 | case5 => rfl
  | case3 n start hd hend hne =>
    have hfewer := usedEntries_set_unused n start _ hend hne
    obtain ⟨fuel, rfl⟩ : ∃ k, fuel = k + 1 := ⟨fuel - 1, by omega⟩
    rw [walk_succ_of_end fuel hd (hkept hsub hend hne), List.mem_singleton] at hc
    rw [get?_set _ _ _ hd, if_neg hc]
  | case4 n start hd next hnext hne hend rest freed hrest ih =>
    have hfewer := usedEntries_set_unused n start _ hnext hne
    obtain ⟨fuel, rfl⟩ : ∃ k, fuel = k + 1 := ⟨fuel - 1, by omega⟩
    rw [walk_succ_of_link fuel hd (hkept hsub hnext hne) hne hend, List.mem_cons, not_or] at hc
    have hsub' : ∀ d, (n.set start unused).get? d = m.get? d ∨
        (n.set start unused).get? d = some unused := by
      intro d
      rw [get?_set n unused d hd]
      split_ifs
      · exact .inr rfl
      · exact hsub d
    have hstep := ih hsub' (Nat.le_of_lt_succ (Nat.lt_of_lt_of_le hfewer hfuel)) hc.2
    rw [hrest] at hstep
    rw [hstep, get?_set _ _ _ hd, if_neg hc.1]

theorem usedEntries_le (m : AllocationMap) : m.usedEntries ≤ mapEntries :=
  Vector.countP_le_size

/-- On every map, releasing a chain changes no entry but those of the chain. -/
theorem get?_freeChain_of_notMem_chain {m : AllocationMap} {start c : UInt32}
    (hc : c ∉ m.chain start) : (m.freeChain start).1.get? c = m.get? c :=
  get?_freeChain_of_notMem_walk (fun _ => .inl rfl) m.usedEntries_le hc

end ClusterFs.AllocationMap
