import ClusterFs.Directory
import Mathlib.Data.Fin.Basic

/-!
Directory tables as sets of named children: what a search by name finds, and how a changed child
changes the searches. A new table describes its own cluster and has no children.
-/
namespace ClusterFs

namespace Entry

@[simp] theorem cluster_withCluster (e : Entry) (c : UInt32) : (e.withCluster c).cluster = c := by
  have hc := c.toNat_lt
  apply UInt32.toNat_inj.mp
  simp only [cluster, withCluster, UInt32.toNat_ofNat', UInt16.toNat_ofNat']
  omega

theorem isUsed_iff {e : Entry} : e.isUsed = true ↔ e.userAttributes = 0xAA := beq_iff_eq

theorem isUsed_eq_false_iff {e : Entry} : e.isUsed = false ↔ e.userAttributes ≠ 0xAA :=
  Bool.eq_false_iff.trans (not_congr isUsed_iff)

theorem isDirectory_iff {e : Entry} : e.isDirectory = true ↔ e.attributes &&& 0x10 ≠ 0 :=
  bne_iff_ne

/-- The two halves hold the whole number. -/
theorem cluster_eq_iff {e : Entry} {c : UInt32} :
    e.cluster = c ↔ 65536 * e.clusterHigh.toNat + e.clusterLow.toNat = c.toNat := by
  have hhigh := e.clusterHigh.toNat_lt
  have hlow := e.clusterLow.toNat_lt
  rw [← UInt32.toNat_inj, cluster, UInt32.toNat_ofNat_of_lt' (by show _ < 4294967296; omega)]

@[simp] theorem isUsed_empty : empty.isUsed = false := rfl

@[simp] theorem size_create (name : ShortName) (kind : EntryKind) (size c : UInt32) :
    (create name kind size c).size = size := rfl

@[simp] theorem isUsed_create (name : ShortName) (kind : EntryKind) (size c : UInt32) :
    (create name kind size c).isUsed = true := rfl

@[simp] theorem cluster_create (name : ShortName) (kind : EntryKind) (size c : UInt32) :
    (create name kind size c).cluster = c :=
  cluster_withCluster ..

@[simp] theorem isDirectory_create (name : ShortName) (kind : EntryKind) (size c : UInt32) :
    (create name kind size c).isDirectory = decide (kind = .directory) := by
  show (kind.attributes &&& EntryKind.directory.attributes != 0) = _
  cases kind <;> decide

end Entry

namespace Directory

variable {t u : Directory} {name : ShortName} {i j : Fin 62} {e : Entry}

theorem get_setChild (t : Directory) (i j : Fin 62) (e : Entry) :
    (t.setChild i e).children.get j = if j = i then e else t.children.get j := by
  show (t.children.set i.1 e i.2)[j.1] = _
  rw [Vector.getElem_set]
  by_cases h : j = i
  · rw [if_pos h, if_pos (congrArg Fin.val h).symm]
  · rw [if_neg h, if_neg fun hv => h (Fin.ext hv.symm)]
    rfl

@[simp] theorem setChild_setChild (t : Directory) (i : Fin 62) (e f : Entry) :
    (t.setChild i e).setChild i f = t.setChild i f := by
  simp only [setChild, Vector.set_set]

private theorem findFinIdx?_eq_some_iff {n : Nat} {xs : Vector Entry n} {p : Entry → Bool}
    {i : Fin n} :
    xs.findFinIdx? p = some i ↔ p (xs.get i) = true ∧ ∀ j < i, ¬ p (xs.get j) = true := by
  rcases xs with ⟨xs, rfl⟩
  rw [Vector.findFinIdx?_mk, Option.map_eq_some_iff]
  simp only [Fin.cast_eq_self, exists_eq_right, Array.findFinIdx?_eq_some_iff, Bool.not_eq_true]
  rfl

theorem find?_eq_some_iff : t.find? name = some i ↔
    ((t.children.get i).isUsed = true ∧ (t.children.get i).name = name) ∧
      ∀ j < i, ¬ ((t.children.get j).isUsed = true ∧ (t.children.get j).name = name) := by
  simp only [find?, findFinIdx?_eq_some_iff, Bool.and_eq_true, beq_iff_eq]

theorem find?_eq_none_iff : t.find? name = none ↔
    ∀ i, (t.children.get i).isUsed = true → (t.children.get i).name ≠ name := by
  simp only [find?, Vector.findFinIdx?_eq_none_iff, Bool.and_eq_true, beq_iff_eq, not_and]
  constructor
  · intro h i
    exact h _ (Vector.getElem_mem i.2)
  · intro h e he
    obtain ⟨k, hk, rfl⟩ := Vector.getElem_of_mem he
    exact h ⟨k, hk⟩

/-- A search depends only on which children carry the name. -/
theorem find?_congr (h : ∀ i, ((u.children.get i).isUsed = true ∧ (u.children.get i).name = name) ↔
    ((t.children.get i).isUsed = true ∧ (t.children.get i).name = name)) :
    u.find? name = t.find? name := by
  apply Option.ext
  intro i
  simp only [find?_eq_some_iff, h]

theorem find?_of_unique (hused : (t.children.get i).isUsed = true)
    (hname : (t.children.get i).name = name)
    (hunique : ∀ j, (t.children.get j).isUsed = true → (t.children.get j).name = name → j = i) :
    t.find? name = some i := by
  refine find?_eq_some_iff.mpr ⟨⟨hused, hname⟩, fun j hj h => ?_⟩
  exact absurd (hunique j h.1 h.2) (Fin.ne_of_lt hj)

/-- Changing a child leaves the searches for other names. -/
theorem find?_setChild (hold : (t.children.get i).isUsed = true → (t.children.get i).name ≠ name)
    (hnew : e.isUsed = true → e.name ≠ name) : (t.setChild i e).find? name = t.find? name := by
  apply find?_congr
  intro j
  rw [get_setChild]
  by_cases h : j = i
  · subst h
    rw [if_pos rfl]
    exact ⟨fun h => absurd h.2 (hnew h.1), fun h => absurd h.2 (hold h.1)⟩
  · rw [if_neg h]

/-- The vacancy is the lowest unused child. -/
theorem vacancy?_eq_some_iff : t.vacancy? = some i ↔
    (t.children.get i).isUsed = false ∧ ∀ j < i, (t.children.get j).isUsed = true := by
  simp only [vacancy?, findFinIdx?_eq_some_iff, Bool.not_eq_true', Bool.not_eq_false]

theorem vacancy?_eq_none_iff : t.vacancy? = none ↔ ∀ i, (t.children.get i).isUsed = true := by
  simp only [vacancy?, Vector.findFinIdx?_eq_none_iff, Bool.not_eq_true', Bool.not_eq_false]
  exact ⟨fun h i => h _ (Vector.getElem_mem i.2), fun h e he => by
    obtain ⟨k, hk, rfl⟩ := Vector.getElem_of_mem he
    exact h ⟨k, hk⟩⟩

theorem isUsed_of_vacancy? (h : t.vacancy? = some i) : (t.children.get i).isUsed = false :=
  (vacancy?_eq_some_iff.mp h).1

theorem describes_iff {c : UInt32} : t.describes c = true ↔
    t.self.userAttributes = 0xAA ∧ t.self.attributes &&& 0x10 ≠ 0 ∧
      65536 * t.self.clusterHigh.toNat + t.self.clusterLow.toNat = c.toNat := by
  rw [describes, Bool.and_eq_true, Bool.and_eq_true, beq_iff_eq, Entry.isUsed_iff,
    Entry.isDirectory_iff, Entry.cluster_eq_iff, and_assoc]

@[simp] theorem describes_setChild (t : Directory) (i : Fin 62) (e : Entry) (c : UInt32) :
    (t.setChild i e).describes c = t.describes c := rfl

@[simp] theorem describes_create (name : ShortName) (c : UInt32) :
    (create name c).describes c = true := by
  simp [describes, create]

@[simp] theorem get_children_create (name : ShortName) (c : UInt32) (i : Fin 62) :
    (create name c).children.get i = .empty := by
  show (Vector.replicate 62 Entry.empty)[i.1] = _
  rw [Vector.getElem_replicate]

theorem find?_create (name n : ShortName) (c : UInt32) : (create name c).find? n = none := by
  rw [find?_eq_none_iff]
  intro i hused
  rw [get_children_create] at hused
  contradiction

theorem vacancy?_create (name : ShortName) (c : UInt32) : (create name c).vacancy? = some 0 := by
  refine findFinIdx?_eq_some_iff.mpr ⟨?_, fun j hj => absurd hj (Nat.not_lt_zero _)⟩
  rw [get_children_create]
  rfl

/-- Behind a first child the second slot is vacant. -/
theorem vacancy?_setChild_create (name : ShortName) (c : UInt32) {e : Entry}
    (hused : e.isUsed = true) : ((create name c).setChild 0 e).vacancy? = some 1 := by
  refine findFinIdx?_eq_some_iff.mpr ⟨?_, fun j hj => ?_⟩
  · rw [get_setChild, if_neg (by decide), get_children_create]
    rfl
  · obtain rfl : j = 0 := by omega
    rw [get_setChild, if_pos rfl, hused]
    exact Bool.false_ne_true

end Directory

end ClusterFs
