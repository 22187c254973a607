import ClusterFs.Proofs.Updates

/-!
What the tables lead to from the root, and which of it the map backs: an entry that is listed in a
reachable directory should have its whole chain. A sound volume backs everything that is listed, and
so do other contents with the same tables whose map keeps the chains.
-/
namespace ClusterFs
open AllocationMap

/-- A map in which the chain of an entry is whole: linked up to its end, and as long as the size of
the entry requires. -/
structure AllocationMap.Holds (m : AllocationMap) (e : Entry) : Prop where
  linked : m.Linked (m.chain e.cluster)
  nodup : (m.chain e.cluster).Nodup
  length : (m.chain e.cluster).length = requiredClusters e.size.toNat

theorem AllocationMap.Holds.get?_cluster_ne_unused {m : AllocationMap} {e : Entry}
    (h : m.Holds e) : m.get? e.cluster ≠ some unused := by
  obtain ⟨rest, hchain⟩ := exists_chain_eq_cons h.linked
  exact get?_ne_unused_of_mem_chain (hchain ▸ List.mem_cons_self)

namespace Contents

variable {x y : Contents} {directories files : Finset UInt32} {p q parent : UInt32} {i j : Fin 62}

/-- The directories that the tables lead to from the root on. -/
inductive Reachable (x : Contents) : UInt32 → Prop
  | root : x.Reachable rootCluster
  | child {p : UInt32} {i : Fin 62} (hp : x.Reachable p) (hused : (x.child p i).isUsed = true)
      (hdir : (x.child p i).isDirectory = true) : x.Reachable (x.child p i).cluster

/-- Contents whose map holds every entry that is listed in a reachable directory. -/
def Backed (x : Contents) : Prop :=
  ∀ p, x.Reachable p → ∀ i, (x.child p i).isUsed = true → x.map.Holds (x.child p i)

theorem table_congr (h : y.cluster q = x.cluster q) : y.table q = x.table q := by
  simp only [table, h]

namespace Structured

theorem mem_of_reachable (h : x.Structured directories files) (hp : x.Reachable p) :
    p ∈ directories := by
  induction hp with
  | root => exact h.root_mem
  | child _ hused hdir ih => exact ((h.sound _ ih _ hused).directory hdir).2.1

/-- Contents with the same tables lead to the same directories. -/
theorem reachable_iff (h : x.Structured directories files)
    (htable : ∀ p ∈ directories, y.table p = x.table p) : y.Reachable p ↔ x.Reachable p := by
  have hchild {p : UInt32} (hp : x.Reachable p) (i : Fin 62) : y.child p i = x.child p i := by
    simp only [Contents.child, htable p (h.mem_of_reachable hp)]
  constructor
  · intro hp
    induction hp with
    | root => exact .root
    | child _ hused hdir ih =>
      rw [hchild ih] at hused hdir ⊢
      exact .child ih hused hdir
  · intro hp
    induction hp with
    | root => exact .root
    | @child p i hp hused hdir ih =>
      rw [← hchild hp] at hused hdir ⊢
      exact .child ih hused hdir

/-- A map that keeps the entries of the chains that are listed backs the same tables. -/
theorem backed_of_agree (h : x.Structured directories files)
    (htable : ∀ p ∈ directories, y.table p = x.table p)
    (hentry : ∀ p, x.Reachable p → ∀ i, (x.child p i).isUsed = true →
      ∀ c ∈ x.map.chain (x.child p i).cluster, y.map.get? c = x.map.get? c) : y.Backed := by
  intro p hp i hused
  have hp := (h.reachable_iff htable).mp hp
  have hmem := h.mem_of_reachable hp
  have hchild : y.child p i = x.child p i := by simp only [Contents.child, htable p hmem]
  rw [hchild] at hused ⊢
  obtain ⟨hlinked, hnodup, -⟩ := h.extent hmem hused
  have hkept := hentry p hp i hused
  have hchain := chain_congr hlinked hkept
  constructor
  · rw [hchain]
    exact hlinked.congr hkept
  · rw [hchain]
    exact hnodup
  · rw [hchain]
    exact h.length_chain hmem hused

/-- To release the chain of a child leaves the entries of every other chain. -/
theorem get?_freeChain_of_ne (h : x.Structured directories files) (hparent : parent ∈ directories)
    (hused : (x.child parent i).isUsed = true) (hp : p ∈ directories)
    (hused' : (x.child p j).isUsed = true) (hne : ¬ (p = parent ∧ j = i)) :
    ∀ c ∈ x.map.chain (x.child p j).cluster,
      (x.map.freeChain (x.child parent i).cluster).1.get? c = x.map.get? c := fun c hc =>
  get?_freeChain_of_notMem_chain fun hmem =>
    hne (h.owner p hp parent hparent j i c hused' hused hc hmem)

/-- To release the chain of a child frees its first cluster, which was in use. -/
theorem get?_freeChain_cluster (h : x.Structured directories files) (hparent : parent ∈ directories)
    (hused : (x.child parent i).isUsed = true) :
    x.map.get? (x.child parent i).cluster ≠ some unused ∧
      (x.map.freeChain (x.child parent i).cluster).1.get? (x.child parent i).cluster =
        some unused := by
  obtain ⟨hlinked, hnodup, hmem⟩ := h.extent hparent hused
  obtain ⟨rest, hchain⟩ := exists_chain_eq_cons hlinked
  have hfirst : (x.child parent i).cluster ∈ x.map.chain (x.child parent i).cluster :=
    hchain ▸ List.mem_cons_self
  refine ⟨h.ne_unused_of_mem (hmem _ hfirst), ?_⟩
  rw [get?_freeChain_of_linked hlinked hnodup, if_pos hfirst]

/-- A child that was removed leaves the others backed when its chain is released. -/
theorem backed_erase (h : x.Structured directories files) (hparent : parent ∈ directories)
    (hused : (x.child parent i).isUsed = true)
    (htable : ∀ p ∈ directories, y.table p = (x.setEntry parent i .empty).table p)
    (hmap : y.map = (x.map.freeChain (x.child parent i).cluster).1) : y.Backed := by
  have herased := h.erase hparent i
  refine herased.backed_of_agree htable fun p hp j hused' => ?_
  have hmem := herased.mem_of_reachable hp
  rw [child_setEntry] at hused' ⊢
  split_ifs at hused' ⊢ with hsame
  · contradiction
  · rw [hmap]
    exact h.get?_freeChain_of_ne hparent hused hmem hused' hsame

/-- A child that is still listed has lost the chain that was released. When its directory is not
reachable, all others are backed. -/
theorem backed_iff_of_released (h : x.Structured directories files) (hparent : parent ∈ directories)
    (hused : (x.child parent i).isUsed = true)
    (htable : ∀ p ∈ directories, y.table p = x.table p)
    (hmap : y.map = (x.map.freeChain (x.child parent i).cluster).1) :
    y.Backed ↔ ¬ x.Reachable parent := by
  constructor
  · intro hbacked hreach
    have hchild : y.child parent i = x.child parent i := by
      simp only [Contents.child, htable parent hparent]
    have hholds := hbacked parent ((h.reachable_iff htable).mpr hreach) i (by rwa [hchild])
    have hfreed := (h.get?_freeChain_cluster hparent hused).2
    rw [← hmap, ← hchild] at hfreed
    exact hholds.get?_cluster_ne_unused hfreed
  · intro hreach
    refine h.backed_of_agree htable fun p hp j hused' => ?_
    have hne : ¬ (p = parent ∧ j = i) := fun hsame => hreach (hsame.1 ▸ hp)
    rw [hmap]
    exact h.get?_freeChain_of_ne hparent hused (h.mem_of_reachable hp) hused' hne

/-- After the chain of a child was released, everything that is listed is backed unless the table of
a reachable directory still lists the child. -/
theorem backed_iff (h : x.Structured directories files) (hparent : parent ∈ directories)
    (hused : (x.child parent i).isUsed = true)
    (hmap : y.map = (x.map.freeChain (x.child parent i).cluster).1)
    (htable : (∀ p ∈ directories, y.table p = x.table p) ∨
      ∀ p ∈ directories, y.table p = (x.setEntry parent i .empty).table p) :
    y.Backed ↔
      ¬ (x.Reachable parent ∧ y.map ≠ x.map ∧ y.table parent = x.table parent) := by
  rcases htable with hold | hnew
  · have hne : y.map ≠ x.map := fun heq => by
      obtain ⟨hbefore, hfreed⟩ := h.get?_freeChain_cluster hparent hused
      rw [← hmap, heq] at hfreed
      exact hbefore hfreed
    rw [h.backed_iff_of_released hparent hused hold hmap]
    exact not_congr ⟨fun hreach => ⟨hreach, hne, hold parent hparent⟩, And.left⟩
  · refine iff_of_true (h.backed_erase hparent hused hnew hmap) ?_
    rintro ⟨-, -, hsame⟩
    have hgone : (y.child parent i).isUsed = false := by
      rw [child, hnew parent hparent, ← child, child_setEntry, if_pos ⟨rfl, rfl⟩,
        Entry.isUsed_empty]
    rw [child, hsame, ← child, hused] at hgone
    contradiction

end Structured

end Contents

end ClusterFs
