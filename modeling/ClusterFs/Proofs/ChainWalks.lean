import ClusterFs.Proofs.Chain
import Mathlib.Logic.Relation
import Mathlib.Order.Interval.Finset.Nat

/-!
Walking and releasing on a map of any links. The clusters of a chain form a path in a graph where
each cluster has at most one successor, so a walk that repeats a cluster has run into a cycle, and
one that meets no cycle ends within the map. The walk stops by counting its steps, and the release
stops because it empties the links it follows, yet both visit the same clusters.
-/
namespace ClusterFs.AllocationMap

variable {m n : AllocationMap} {start c d : UInt32} {fuel : Nat}

/-- A walk at the data cluster `c` goes on with `d`. -/
def Leads (m : AllocationMap) (c d : UInt32) : Prop :=
  isData c = true ∧ m.get? c = some d ∧ d ≠ unused ∧ d ≠ endOfChain

/-- The walk from a cluster ends after these clusters. There is no limit on the steps. -/
inductive Walks (m : AllocationMap) : UInt32 → List UInt32 → Prop where
  | outside {c : UInt32} : isData c = false → m.Walks c []
  | free {c : UInt32} : m.get? c = some unused → m.Walks c []
  | last {c : UInt32} : isData c = true → m.get? c = some endOfChain → m.Walks c [c]
  | next {c d : UInt32} {rest : List UInt32} :
      m.Leads c d → m.Walks d rest → m.Walks c (c :: rest)

theorem Leads.walk (h : m.Leads c d) : m.walk (fuel + 1) c = c :: m.walk fuel d :=
  walk_succ_of_link fuel h.1 h.2.1 h.2.2.1 h.2.2.2

/-- What a step of the walk can find. -/
theorem walk_cases (m : AllocationMap) (fuel : Nat) (c : UInt32) :
    (isData c = false ∧ m.walk (fuel + 1) c = []) ∨
    (m.get? c = some unused ∧ m.walk (fuel + 1) c = []) ∨
    (isData c = true ∧ m.get? c = some endOfChain ∧ m.walk (fuel + 1) c = [c]) ∨
    ∃ d, m.Leads c d := by
  by_cases hdata : isData c = true
  · obtain ⟨d, hd⟩ : ∃ d, m.get? c = some d :=
      ⟨_, Vector.getElem?_eq_getElem (isData_iff.mp hdata).2⟩
    by_cases hunused : d = unused
    · subst hunused
      exact .inr (.inl ⟨hd, by simp [walk, hdata, hd]⟩)
    · by_cases hend : d = endOfChain
      · subst hend
        exact .inr (.inr (.inl ⟨hdata, hd, walk_succ_of_end fuel hdata hd⟩))
      · exact .inr (.inr (.inr ⟨d, hdata, hd, hunused, hend⟩))
  · exact .inl ⟨by simpa using hdata, by simp [walk, hdata]⟩

/-! ### Cycles -/

/-- A walk on a cycle never ends. -/
theorem length_walk_of_cycle (h : Relation.TransGen m.Leads c c) :
    (m.walk fuel c).length = fuel := by
  induction fuel generalizing c with
  | zero => simp [walk]
  | succ fuel ih =>
    obtain ⟨d, hlead, hback⟩ := Relation.TransGen.head'_iff.mp h
    rw [hlead.walk, List.length_cons, ih (Relation.TransGen.tail' hback hlead)]

/-- A walk that meets a cycle never ends. -/
theorem length_walk_of_mem_cycle (hc : c ∈ m.walk fuel start)
    (h : Relation.TransGen m.Leads c c) : (m.walk fuel start).length = fuel := by
  induction fuel generalizing start with
  | zero => simp [walk] at hc
  | succ fuel ih =>
    by_cases hstart : c = start
    · subst hstart
      exact length_walk_of_cycle h
    · rcases m.walk_cases fuel start with ⟨-, hw⟩ | ⟨-, hw⟩ | ⟨-, -, hw⟩ | ⟨d, hlead⟩
      · simp [hw] at hc
      · simp [hw] at hc
      · simp [hw, hstart] at hc
      · rw [hlead.walk] at hc ⊢
        rw [List.length_cons, ih ((List.mem_cons.mp hc).resolve_left hstart)]

/-- Each cluster of a walk leads to every later one. -/
theorem pairwise_walk (m : AllocationMap) (fuel : Nat) (start : UInt32) :
    (m.walk fuel start).Pairwise (Relation.TransGen m.Leads) := by
  suffices h : (m.walk fuel start).Pairwise (Relation.TransGen m.Leads) ∧
      ∀ c ∈ m.walk fuel start, Relation.ReflTransGen m.Leads start c from h.1
  induction fuel generalizing start with
  | zero => simp [walk]
  | succ fuel ih =>
    rcases m.walk_cases fuel start with ⟨-, hw⟩ | ⟨-, hw⟩ | ⟨-, -, hw⟩ | ⟨d, hlead⟩
    · simp [hw]
    · simp [hw]
    · simp [hw, Relation.ReflTransGen.refl]
    · obtain ⟨hpairs, hreach⟩ := ih d
      rw [hlead.walk]
      refine ⟨List.pairwise_cons.mpr ⟨fun c hc => ?_, hpairs⟩, fun c hc => ?_⟩
      · exact Relation.TransGen.head' hlead (hreach c hc)
      · rcases List.mem_cons.mp hc with rfl | hc
        · exact .refl
        · exact .head hlead (hreach c hc)

/-- A list of distinct data clusters is shorter than the map. -/
theorem length_le_of_nodup {clusters : List UInt32} (hnodup : clusters.Nodup)
    (hdata : ∀ c ∈ clusters, isData c = true) : clusters.length ≤ 510 := by
  have hnumbers : (clusters.map UInt32.toNat).Nodup :=
    hnodup.map fun _ _ h => UInt32.toNat_inj.mp h
  have hsub : (clusters.map UInt32.toNat).toFinset ⊆ Finset.Ico 2 512 := by
    intro i hi
    obtain ⟨c, hc, rfl⟩ := List.mem_map.mp (List.mem_toFinset.mp hi)
    exact Finset.mem_Ico.mpr (isData_iff.mp (hdata c hc))
  have hcard := Finset.card_le_card hsub
  rw [List.toFinset_card_of_nodup hnumbers, List.length_map, Nat.card_Ico] at hcard
  exact hcard

/-- A chain lists a cluster twice exactly if it runs into a cycle. -/
theorem nodup_chain_iff (m : AllocationMap) (start : UInt32) :
    (m.chain start).Nodup ↔ ∀ c ∈ m.chain start, ¬ Relation.TransGen m.Leads c c := by
  constructor
  · intro hnodup c hc hcycle
    -- on a cycle the walk takes all its steps, and there are fewer data clusters than that
    have hlength : (m.chain start).length = 512 := length_walk_of_mem_cycle hc hcycle
    have hle := length_le_of_nodup hnodup fun _ => isData_of_mem_chain
    omega
  · intro hacyclic
    refine (m.pairwise_walk mapEntries start).imp_of_mem fun {a b} ha _ hreach => ?_
    rintro rfl
    exact hacyclic a ha hreach

/-! ### Walks that end -/

/-- A walk of enough steps lists the clusters of the walk without a limit. -/
theorem Walks.walk_eq {clusters : List UInt32} (h : m.Walks start clusters)
    (hfuel : clusters.length < fuel) : m.walk fuel start = clusters := by
  induction h generalizing fuel with
  | outside hdata => cases fuel <;> simp [walk, hdata]
  | @free c hfree =>
    cases fuel with
    | zero => rfl
    | succ fuel => by_cases hdata : isData c = true <;> simp [walk, hdata, hfree]
  | last hdata hend =>
    obtain ⟨fuel, rfl⟩ : ∃ k, fuel = k + 1 := ⟨fuel - 1, by omega⟩
    exact walk_succ_of_end fuel hdata hend
  | next hlead _ ih =>
    obtain ⟨fuel, rfl⟩ : ∃ k, fuel = k + 1 := ⟨fuel - 1, by omega⟩
    rw [hlead.walk, ih (by simpa using hfuel)]

/-- A walk that ends meets no cycle, so it lists no cluster twice. -/
theorem Walks.nodup {clusters : List UInt32} (h : m.Walks start clusters) : clusters.Nodup := by
  have hwalk := h.walk_eq (Nat.lt_succ_self _)
  rw [← hwalk]
  refine (m.pairwise_walk _ start).imp_of_mem fun {a b} ha _ hreach => ?_
  rintro rfl
  have hlength := length_walk_of_mem_cycle ha hreach
  rw [hwalk] at hlength
  omega

/-- The limit on the steps cuts off no walk that ends. -/
theorem Walks.chain_eq {clusters : List UInt32} (h : m.Walks start clusters) :
    m.chain start = clusters := by
  have hdata : ∀ c ∈ clusters, isData c = true := by
    intro c hc
    rw [← h.walk_eq (Nat.lt_succ_self _)] at hc
    exact isData_of_mem_walk hc
  have hlength := length_le_of_nodup h.nodup hdata
  exact h.walk_eq (show clusters.length < 512 by omega)

/-! ### Releasing -/

theorem get?_set_unused (m : AllocationMap) (hdata : isData c = true)
    (h : d = c ∨ m.get? d = some unused) : (m.set c unused).get? d = some unused := by
  rw [get?_set _ _ _ hdata]
  split_ifs with hd
  · rfl
  · exact h.resolve_left hd

/-- Releasing a chain leaves free entries free. -/
theorem get?_freeChain_of_unused (m : AllocationMap) (start : UInt32)
    (h : m.get? c = some unused) : (m.freeChain start).1.get? c = some unused := by
  fun_induction freeChain m start with
  | case1 | case2 | case5 => exact h
  | case3 m start hdata => exact get?_set_unused m hdata (.inr h)
  | case4 m start hdata next _ _ _ rest freed hrest ih =>
    rw [hrest] at ih
    exact ih (get?_set_unused m hdata (.inr h))

/-- The cluster a release starts with ends up free. -/
theorem get?_freeChain_start (m : AllocationMap) (hdata : isData start = true) :
    (m.freeChain start).1.get? start = some unused := by
  rw [freeChain, if_pos hdata]
  split
  · rename_i hnone
    exact absurd hnone (by simp [get?, (isData_iff.mp hdata).2])
  · rename_i next hnext
    have hset := get?_set_unused m hdata (.inl rfl)
    split_ifs with hunused
    · rw [hnext, hunused]
    · exact hset
    · exact get?_freeChain_of_unused _ next hset

/-- A release on a map `n` that is `m` less some entries: if the emptied clusters lead, in `m`, to
emptied clusters or to the start, then afterwards they lead to emptied clusters only. -/
theorem closed_freeChain (hsub : ∀ c, n.get? c = m.get? c ∨ n.get? c = some unused)
    (hclosed : ∀ c d, m.Leads c d → isData d = true → n.get? c = some unused →
      n.get? d = some unused ∨ d = start) :
    ∀ c d, m.Leads c d → isData d = true → (n.freeChain start).1.get? c = some unused →
      (n.freeChain start).1.get? d = some unused := by
  fun_induction freeChain n start with
  | case1 n start hdata hnone =>
    exact absurd hnone (by simp [get?, (isData_iff.mp hdata).2])
  | case2 n start hdata hunused =>
    intro c d hlead hd hc
    rcases hclosed c d hlead hd hc with h | rfl
    · exact h
    · exact hunused
  | case3 n start hdata hend hne =>
    intro c d hlead hd hc
    apply get?_set_unused n hdata
    by_cases hstart : c = start
    · subst hstart
      -- the end mark leads nowhere
      have hentry := (hsub c).resolve_right (by simp [hend, hne])
      exact absurd (Option.some.inj (hlead.2.1.symm.trans (hentry.symm.trans hend))) hlead.2.2.2
    · rw [get?_set_of_ne n unused hstart] at hc
      exact (hclosed c d hlead hd hc).symm
  | case4 n start hdata next hnext hne hend rest freed hrest ih =>
    rw [hrest] at ih
    apply ih
    · intro c
      rw [get?_set _ _ _ hdata]
      split_ifs
      · exact .inr rfl
      · exact hsub c
    · intro c d hlead hd hc
      by_cases hstart : c = start
      · subst hstart
        -- the emptied cluster led to the cluster the release goes on with
        have hentry := (hsub c).resolve_right (by simp [hnext, hne])
        exact .inr (Option.some.inj (hlead.2.1.symm.trans (hentry.symm.trans hnext)))
      · rw [get?_set_of_ne n unused hstart] at hc
        exact .inl (get?_set_unused n hdata (hclosed c d hlead hd hc).symm)
  | case5 n start hdata =>
    intro c d hlead hd hc
    refine (hclosed c d hlead hd hc).resolve_right ?_
    rintro rfl
    exact hdata hd

/-- What holds of the start and is handed from a cluster to the next holds along a walk. -/
theorem forall_mem_walk {p : UInt32 → Prop} (hstart : isData start = true → p start)
    (hlead : ∀ c d, m.Leads c d → isData d = true → p c → p d) : ∀ c ∈ m.walk fuel start, p c := by
  induction fuel generalizing start with
  | zero => simp [walk]
  | succ fuel ih =>
    rcases m.walk_cases fuel start with ⟨-, hw⟩ | ⟨-, hw⟩ | ⟨hdata, -, hw⟩ | ⟨d, hnext⟩
    · simp [hw]
    · simp [hw]
    · simpa [hw] using hstart hdata
    · intro c hc
      rw [hnext.walk] at hc
      rcases List.mem_cons.mp hc with rfl | hc
      · exact hstart hnext.1
      · exact ih (fun hdata => hlead start d hnext hdata (hstart hnext.1)) c hc

/-- On every map, releasing a chain empties the entries of the chain and no others. -/
theorem get?_freeChain_eq (m : AllocationMap) (start c : UInt32) :
    (m.freeChain start).1.get? c = if c ∈ m.chain start then some unused else m.get? c := by
  split_ifs with hc
  · refine forall_mem_walk m.get?_freeChain_start (closed_freeChain (fun _ => .inl rfl) ?_) c hc
    intro c d hlead _ hc
    exact absurd (Option.some.inj (hlead.2.1.symm.trans hc)) hlead.2.2.1
  · exact get?_freeChain_of_notMem_chain hc

/-- Emptying an entry that was in use makes one more cluster free. -/
theorem freeCount_set_unused (hdata : isData c = true) (hused : m.get? c ≠ some unused) :
    (m.set c unused).freeCount = m.freeCount + 1 := by
  have hmem : ∀ d, d ∈ (m.set c unused).freeClusters ↔ d ∈ c :: m.freeClusters := by
    intro d
    rw [List.mem_cons, mem_freeClusters, mem_freeClusters, get?_set _ _ _ hdata]
    by_cases hd : d = c <;> simp [hd, hdata]
  have hnodup : (c :: m.freeClusters).Nodup :=
    List.nodup_cons.mpr ⟨fun h => hused (mem_freeClusters.mp h).2, m.nodup_freeClusters⟩
  rw [freeCount_eq, freeCount_eq, ← List.length_cons (a := c)]
  exact ((List.perm_ext_iff_of_nodup (nodup_freeClusters _) hnodup).mpr hmem).length_eq

/-- Each cluster that a release counts is one more free cluster. -/
theorem freeCount_freeChain (m : AllocationMap) (start : UInt32) :
    (m.freeChain start).1.freeCount = m.freeCount + (m.freeChain start).2 := by
  fun_induction freeChain m start with
  | case1 | case2 | case5 => rfl
  | case3 m start hdata hend hne =>
    exact freeCount_set_unused hdata (by simp [hend, hne])
  | case4 m start hdata next hnext hne _ rest freed hrest ih =>
    simp only [hrest, freeCount_set_unused hdata (show m.get? start ≠ some unused by
      simp [hnext, hne])] at ih
    show rest.freeCount = m.freeCount + (freed + 1)
    omega

/-- The clusters free after a release are those free before and those of the chain. -/
theorem freeCount_freeChain_eq_card (m : AllocationMap) (start : UInt32) :
    (m.freeChain start).1.freeCount = m.freeCount + (m.chain start).toFinset.card := by
  have hunion : (m.freeChain start).1.freeClusters.toFinset =
      m.freeClusters.toFinset ∪ (m.chain start).toFinset := by
    ext c
    simp only [Finset.mem_union, List.mem_toFinset, mem_freeClusters, get?_freeChain_eq]
    split_ifs with hc
    · simp [hc, isData_of_mem_chain hc]
    · simp [hc]
  have hdisjoint : Disjoint m.freeClusters.toFinset (m.chain start).toFinset := by
    rw [Finset.disjoint_left]
    intro c hfree hc
    exact get?_ne_unused_of_mem_chain (List.mem_toFinset.mp hc)
      (mem_freeClusters.mp (List.mem_toFinset.mp hfree)).2
  rw [freeCount_eq, freeCount_eq, ← List.toFinset_card_of_nodup (nodup_freeClusters _), hunion,
    Finset.card_union_of_disjoint hdisjoint, List.toFinset_card_of_nodup (nodup_freeClusters _)]

/-- A release counts each cluster of the chain once, so it takes fewer turns than the map has
entries. -/
theorem freed_eq_card (m : AllocationMap) (start : UInt32) :
    (m.freeChain start).2 = (m.chain start).toFinset.card := by
  have hcount := m.freeCount_freeChain start
  have hcard := m.freeCount_freeChain_eq_card start
  omega

/-- On every map, with `freed` the count a release returns: the release empties exactly the entries
of the clusters that the walk visits, so never entries 0 and 1; it counts each of them once, which
bounds its turns, and as many clusters more are free afterwards. The walk visits data clusters only.
It lists a cluster twice exactly if it runs into a cycle, and if the walk without a limit ends, the
limit on the steps takes nothing from it. -/
theorem freeChain_agrees_with_chain (m : AllocationMap) (start : UInt32) :
    (∀ c, (m.freeChain start).1.get? c =
      if c ∈ m.chain start then some unused else m.get? c) ∧
    (m.freeChain start).1.get? 0 = m.get? 0 ∧
    (m.freeChain start).1.get? 1 = m.get? 1 ∧
    (m.freeChain start).2 = (m.chain start).toFinset.card ∧
    (m.freeChain start).2 ≤ 510 ∧
    (m.freeChain start).1.freeCount = m.freeCount + (m.freeChain start).2 ∧
    (∀ c ∈ m.chain start, 2 ≤ c.toNat ∧ c.toNat ≤ 511) ∧
    ((m.chain start).Nodup ↔ ∀ c ∈ m.chain start, ¬ Relation.TransGen m.Leads c c) ∧
    ∀ clusters, m.Walks start clusters → m.chain start = clusters := by
  have hreserved : ∀ c, isData c = false → (m.freeChain start).1.get? c = m.get? c := by
    intro c hc
    rw [get?_freeChain_eq, if_neg]
    intro hmem
    simp [isData_of_mem_chain hmem] at hc
  have hbound : (m.chain start).toFinset.card ≤ 510 := by
    have h := length_le_of_nodup (m.chain start).nodup_dedup
      fun c hc => isData_of_mem_chain (List.mem_dedup.mp hc)
    rwa [List.card_toFinset]
  refine ⟨m.get?_freeChain_eq start, hreserved 0 (by decide), hreserved 1 (by decide),
    m.freed_eq_card start, (m.freed_eq_card start).trans_le hbound, m.freeCount_freeChain start,
    fun c hc => ?_, m.nodup_chain_iff start, fun _ h => h.chain_eq⟩
  have hdata := isData_iff.mp (isData_of_mem_chain hc)
  omega

end ClusterFs.AllocationMap
