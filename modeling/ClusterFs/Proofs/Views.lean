import ClusterFs.Proofs.Updates

/-!
What requests see of one name in one directory: its entry, and for a file its chain and the bytes
on it. Writes and deletes of other names leave this view, whatever clusters and slots they use.
-/
namespace ClusterFs.Contents
open AllocationMap Volume

variable {x y z : Contents} {directories files : Finset UInt32} {parent q c : UInt32}
  {name n : ShortName} {data : Payload} {p : Placement} {i : Fin 62} {e : Entry}

/-- Two contents that show the same entry under a name, and for a file the same chain with the same
bytes. -/
structure SameView (q : UInt32) (n : ShortName) (x y : Contents) : Prop where
  lookup : y.lookup q n = x.lookup q n
  chain : ∀ e, x.lookup q n = .ok e → e.isDirectory = false →
    y.map.chain e.cluster = x.map.chain e.cluster
  cluster : ∀ e, x.lookup q n = .ok e → e.isDirectory = false →
    ∀ c ∈ x.map.chain e.cluster, y.cluster c = x.cluster c

theorem SameView.refl (q : UInt32) (n : ShortName) (x : Contents) : SameView q n x x :=
  ⟨rfl, fun _ _ _ => rfl, fun _ _ _ _ _ => rfl⟩

theorem SameView.trans (h : SameView q n x y) (h' : SameView q n y z) : SameView q n x z where
  lookup := h'.lookup.trans h.lookup
  chain e he hfile := (h'.chain e (h.lookup.trans he) hfile).trans (h.chain e he hfile)
  cluster e he hfile c hc := by
    have hc' : c ∈ y.map.chain e.cluster := by rwa [h.chain e he hfile]
    rw [h'.cluster e (h.lookup.trans he) hfile c hc', h.cluster e he hfile c hc]

theorem bytes_congr {clusters : List UInt32} (h : ∀ c ∈ clusters, y.cluster c = x.cluster c) :
    y.bytes clusters = x.bytes clusters := by
  induction clusters with
  | nil => rfl
  | cons c rest ih =>
    rw [bytes, bytes, h c (by simp), ih fun d hd => h d (List.mem_cons_of_mem _ hd)]

/-- A name that is seen alike is read alike. -/
theorem SameView.readFile (h : SameView q n x y) (capacity : Nat) :
    y.readFile q n capacity = x.readFile q n capacity := by
  simp only [Contents.readFile, h.lookup]
  cases hlookup : x.lookup q n with
  | error cause => rfl
  | ok e =>
    cases hdir : e.isDirectory with
    | true => simp only [hdir, if_true]
    | false =>
      have hbytes : y.bytes ((x.map.chain e.cluster).take (capacity / clusterSize)) =
          x.bytes ((x.map.chain e.cluster).take (capacity / clusterSize)) :=
        bytes_congr fun c hc => h.cluster e hlookup hdir c (List.mem_of_mem_take hc)
      simp only [h.chain e hlookup hdir, hbytes]

/-! ### Looking up a name -/

theorem lookup_of_accepts (h : x.accepts q = true) : x.lookup q n =
    match (x.table q).find? n with
    | none => .error .notFound
    | some i => .ok (x.child q i) := by
  cases hfind : (x.table q).find? n with
  | none => simp only [lookup, directory_of_accepts h, hfind]
  | some i => simp only [lookup, directory_of_accepts h, hfind, child]

theorem locate_of_accepts (h : x.accepts q = true) : x.locate q n =
    match (x.table q).find? n with
    | none => .error .notFound
    | some i => .ok i := by
  cases hfind : (x.table q).find? n with
  | none => simp only [locate, directory_of_accepts h, hfind]
  | some i => simp only [locate, directory_of_accepts h, hfind]

/-- The entry under a name is the child at its place. -/
theorem lookup_eq_map_locate (x : Contents) (q : UInt32) (n : ShortName) :
    x.lookup q n = (x.locate q n).map (x.child q) := by
  cases haccepts : x.accepts q with
  | false =>
    rw [lookup, locate, directory_of_not_accepts haccepts]
    rfl
  | true =>
    rw [lookup_of_accepts haccepts, locate_of_accepts haccepts]
    cases (x.table q).find? n <;> rfl

theorem exists_locate_of_lookup (h : x.lookup q n = .ok e) :
    ∃ i, x.locate q n = .ok i ∧ x.child q i = e := by
  rw [lookup_eq_map_locate] at h
  cases hlocate : x.locate q n with
  | error cause =>
    rw [hlocate] at h
    cases h
  | ok i =>
    rw [hlocate] at h
    exact ⟨i, rfl, Except.ok.inj h⟩

/-- No write places an entry under a name that is there. -/
theorem lookup_of_place (haccepts : x.accepts q = true)
    (hplace : place x.map (x.table q) n data.size = .ok p) : x.lookup q n = .error .notFound := by
  simp only [lookup_of_accepts haccepts, (place_spec hplace).1]

theorem lookup_congr (haccepts : y.accepts q = x.accepts q) (htable : y.table q = x.table q) :
    y.lookup q n = x.lookup q n := by
  simp only [lookup, directory, haccepts, htable]

theorem find?_eq_some (h : (x.table q).find? n = some i) :
    (x.child q i).isUsed = true ∧ (x.child q i).name = n := by
  unfold child
  exact (Directory.find?_eq_some_iff.mp h).1

/-- An entry that is found is a used child of that name. -/
theorem exists_child_of_lookup (h : x.lookup q n = .ok e) :
    x.accepts q = true ∧ ∃ i, x.child q i = e ∧ e.isUsed = true ∧ e.name = n := by
  cases haccepts : x.accepts q with
  | false =>
    rw [lookup, directory_of_not_accepts haccepts] at h
    contradiction
  | true =>
    rw [lookup_of_accepts haccepts] at h
    cases hfind : (x.table q).find? n with
    | none =>
      simp only [hfind] at h
      contradiction
    | some i =>
      simp only [hfind] at h
      obtain rfl := Except.ok.inj h
      exact ⟨rfl, i, rfl, find?_eq_some hfind⟩

theorem exists_child_of_locate (h : x.locate q n = .ok i) :
    x.accepts q = true ∧ (x.child q i).isUsed = true ∧ (x.child q i).name = n ∧
      x.lookup q n = .ok (x.child q i) := by
  cases haccepts : x.accepts q with
  | false =>
    rw [locate, directory_of_not_accepts haccepts] at h
    contradiction
  | true =>
    rw [lookup_of_accepts haccepts]
    rw [locate_of_accepts haccepts] at h
    cases hfind : (x.table q).find? n with
    | none =>
      simp only [hfind] at h
      contradiction
    | some j =>
      simp only [hfind] at h
      obtain rfl := Except.ok.inj h
      obtain ⟨hused, hname⟩ := find?_eq_some hfind
      exact ⟨rfl, hused, hname, rfl⟩

/-- A child that was exchanged for a used entry under a new name is found under that name. -/
theorem lookup_setEntry_self (haccepts : x.accepts q = true) (hused : e.isUsed = true)
    (hname : ∀ j, (x.child q j).isUsed = true → (x.child q j).name = e.name → j = i) :
    (x.setEntry q i e).lookup q e.name = .ok e := by
  have hchild (j : Fin 62) : ((x.table q).setChild i e).children.get j =
      if j = i then e else x.child q j := by
    rw [Directory.get_setChild, child]
  have hfind : ((x.table q).setChild i e).find? e.name = some i := by
    apply Directory.find?_of_unique
    · rw [hchild, if_pos rfl, hused]
    · rw [hchild, if_pos rfl]
    · intro j hj hjname
      rw [hchild] at hj hjname
      split_ifs at hj hjname with hji
      · exact hji
      · exact hname j hj hjname
  rw [lookup_of_accepts ((accepts_setEntry ..).trans haccepts), table_setEntry, if_pos rfl]
  simp only [hfind, child_setEntry, and_self, if_true]

/-- A child that was removed is not found any more. -/
theorem lookup_setEntry_empty (haccepts : x.accepts q = true)
    (hname : ∀ j, (x.child q j).isUsed = true → (x.child q j).name = n → j = i) :
    (x.setEntry q i .empty).lookup q n = .error .notFound := by
  have hfind : ((x.table q).setChild i .empty).find? n = none := by
    rw [Directory.find?_eq_none_iff]
    intro j hused hjname
    rw [Directory.get_setChild] at hused hjname
    split_ifs at hused hjname with hji
    · contradiction
    · simp only [child] at hname
      exact hji (hname j hused hjname)
  rw [lookup_of_accepts ((accepts_setEntry ..).trans haccepts), table_setEntry, if_pos rfl]
  simp only [hfind]

/-! ### Changes elsewhere -/

namespace Structured

/-- The clusters of a file that is found are linked, in use, and no directories. -/
theorem mem_files_of_lookup (h : x.Structured directories files) (hq : q ∈ directories)
    (hlookup : x.lookup q n = .ok e) (hfile : e.isDirectory = false) :
    x.map.Linked (x.map.chain e.cluster) ∧ ∀ c ∈ x.map.chain e.cluster, c ∈ files := by
  obtain ⟨-, i, rfl, hused, -⟩ := exists_child_of_lookup hlookup
  obtain ⟨-, -, -, hlinked, hfiles⟩ := (h.sound q hq i hused).file hfile
  exact ⟨hlinked, hfiles⟩

theorem sameView_of_agreeOff (h : x.Structured directories files) {P : UInt32 → Prop}
    (hagree : AgreeOff P x y) (hfree : ∀ c, P c → isData c = true ∧ x.map.get? c = some unused)
    (hq : q ∈ directories) : SameView q n x y := by
  have htable := h.table_of_agreeOff hagree hfree hq
  have hentry := hagree.entry q (h.not_of_free hfree (.inl hq))
  refine ⟨lookup_congr ?_ htable, fun e he hfile => ?_, fun e he hfile c hc => ?_⟩
  · simp only [Contents.accepts, isTerminal, hentry, htable]
  · obtain ⟨hlinked, hfiles⟩ := h.mem_files_of_lookup hq he hfile
    exact chain_congr hlinked fun c hc =>
      hagree.entry c (h.not_of_free hfree (.inr (hfiles c hc)))
  · have hmem := (h.mem_files_of_lookup hq he hfile).2 c hc
    exact hagree.cluster c (h.not_of_free hfree (.inr hmem))
      (isData_ne_mapCluster (h.isData_of_mem (.inr hmem)))

theorem sameView_setEntry (h : x.Structured directories files) (hparent : parent ∈ directories)
    (hq : q ∈ directories) (i : Fin 62) (e : Entry)
    (hold : q = parent → (x.child parent i).isUsed = true → (x.child parent i).name ≠ n)
    (hnew : q = parent → e.isUsed = true → e.name ≠ n) :
    SameView q n x (x.setEntry parent i e) := by
  refine ⟨?_, fun _ _ _ => rfl, fun e he hfile c hc => ?_⟩
  · by_cases hsame : q = parent
    · subst hsame
      have hfind : ((x.table q).setChild i e).find? n = (x.table q).find? n :=
        Directory.find?_setChild (by simpa only [child] using hold rfl) (hnew rfl)
      simp only [lookup, directory, accepts_setEntry, table_setEntry, if_true]
      split_ifs
      · simp only [hfind]
        cases hsome : (x.table q).find? n with
        | none => rfl
        | some j =>
          -- the child that is found is not the one that was exchanged
          have hj := find?_eq_some hsome
          have hne : j ≠ i := by
            rintro rfl
            exact hold rfl hj.1 hj.2
          simp only [Directory.get_setChild, if_neg hne]
      · rfl
    · exact lookup_congr (accepts_setEntry ..) (by rw [table_setEntry, if_neg hsame])
  · have hmem := (h.mem_files_of_lookup hq he hfile).2 c hc
    apply cluster_setEntry_of_ne
    rintro rfl
    exact Finset.disjoint_left.mp h.apart hparent hmem

theorem sameView_release (h : x.Structured directories files) {clusters : List UInt32}
    {m : AllocationMap}
    (hm : ∀ c, m.get? c = if c ∈ clusters then some unused else x.map.get? c)
    (hq : q ∈ directories) (hkept : q ∉ clusters)
    (hunowned : ∀ i, (x.child q i).isUsed = true →
      ∀ c ∈ x.map.chain (x.child q i).cluster, c ∉ clusters) :
    SameView q n x (x.withMap m).saveMap := by
  have hkeep {c : UInt32} (hc : c ∉ clusters) : m.get? c = x.map.get? c := by rw [hm, if_neg hc]
  refine ⟨lookup_congr ?_ (table_release x m (h.ne_mapCluster hq)), fun e he hfile => ?_,
    fun e he hfile c hc => ?_⟩
  · exact accepts_release (hkeep hkept) (h.isData_of_mem (.inl hq))
  · obtain ⟨-, i, rfl, hused, -⟩ := exists_child_of_lookup he
    exact chain_congr (h.extent hq hused).1 fun c hc => hkeep (hunowned i hused c hc)
  · have hmem := (h.mem_files_of_lookup hq he hfile).2 c hc
    rw [cluster_saveMap_of_ne _ (isData_ne_mapCluster (h.isData_of_mem (.inr hmem))),
      cluster_withMap]

/-- A write leaves the view of every other name. -/
theorem sameView_write (h : x.Structured directories files) (hparent : parent ∈ directories)
    (hplace : place x.map (x.table parent) name data.size = .ok p) (hq : q ∈ directories)
    (hne : ¬ (q = parent ∧ n = name)) :
    SameView q n x (x.applyAll (writeSteps parent (x.table parent) name data p)) := by
  have hfree := (placement_clusters hplace).2.2.1
  have hstored := stored_contentSteps hplace
  have hagree := hstored.agree
  obtain ⟨-, hvacancy, -, -⟩ := place_spec hplace
  rw [h.applyAll_writeSteps hparent hplace]
  refine (h.sameView_of_agreeOff hagree hfree hq).trans ?_
  refine (h.of_stored hplace hstored).sameView_setEntry (Finset.mem_union_left _ hparent)
    (Finset.mem_union_left _ hq) _ _ (fun _ hused => ?_) (fun hsame _ hname => ?_)
  · rw [h.child_of_agreeOff hagree hfree hparent] at hused
    simp only [child, Directory.isUsed_of_vacancy? hvacancy] at hused
    contradiction
  · exact hne ⟨hsame, hname.symm⟩

theorem sameView_erase (h : x.Structured directories files) (hlocate : x.locate parent name = .ok i)
    (hparent : parent ∈ directories) (hq : q ∈ directories) (hne : ¬ (q = parent ∧ n = name)) :
    SameView q n x (x.setEntry parent i .empty) := by
  obtain ⟨-, -, hname, -⟩ := exists_child_of_locate hlocate
  exact h.sameView_setEntry hparent hq i .empty
    (fun hsame _ hold => hne ⟨hsame, hold.symm.trans hname⟩) (fun _ hused => nomatch hused)

/-- Releasing the chain of a child that was removed leaves every view. -/
theorem sameView_release_chain (h : x.Structured directories files)
    (hlocate : x.locate parent name = .ok i) (hparent : parent ∈ directories)
    (hq : q ∈ directories) (hkept : q ∉ x.map.chain (x.child parent i).cluster) :
    SameView q n (x.setEntry parent i .empty)
      ((x.withMap (x.map.freeChain (x.child parent i).cluster).1).applyAll
        (x.deleteSteps parent i)) := by
  obtain ⟨-, hused, -, -⟩ := exists_child_of_locate hlocate
  obtain ⟨hlinked, hnodup, -⟩ := h.extent hparent hused
  refine (h.erase hparent i).sameView_release (get?_freeChain_of_linked hlinked hnodup) hq hkept ?_
  intro j hused' c hc hmem
  rw [child_setEntry] at hused' hc
  split_ifs at hused' hc with hsame
  · contradiction
  · exact hsame (h.owner q hq parent hparent j i c hused' hused hc hmem)

/-- A delete leaves the view of every other name in the directories that it does not release. -/
theorem sameView_delete (h : x.Structured directories files)
    (hlocate : x.locate parent name = .ok i) (hparent : parent ∈ directories)
    (hq : q ∈ directories) (hkept : q ∉ x.map.chain (x.child parent i).cluster)
    (hne : ¬ (q = parent ∧ n = name)) :
    SameView q n x ((x.withMap (x.map.freeChain (x.child parent i).cluster).1).applyAll
      (x.deleteSteps parent i)) :=
  (h.sameView_erase hlocate hparent hq hne).trans
    (h.sameView_release_chain hlocate hparent hq hkept)

/-- After a write its entry is found. -/
theorem lookup_write (h : x.Structured directories files) (hparent : parent ∈ directories)
    (hplace : place x.map (x.table parent) name data.size = .ok p) :
    (x.applyAll (writeSteps parent (x.table parent) name data p)).lookup parent name =
      .ok (newEntry name data p) := by
  have hfree := (placement_clusters hplace).2.2.1
  have hstored := stored_contentSteps hplace
  have hnone := (place_spec hplace).1
  rw [h.applyAll_writeSteps hparent hplace]
  refine lookup_setEntry_self ((h.of_stored hplace hstored).accepts _
    (Finset.mem_union_left _ hparent)) rfl fun j hused hname => ?_
  rw [h.child_of_agreeOff hstored.agree hfree hparent] at hused hname
  unfold child at hused hname
  exact absurd hname (Directory.find?_eq_none_iff.mp hnone j hused)

/-- A name is not found once its child was removed, whether or not its chain was released. -/
theorem lookup_erase (h : x.Structured directories files) (hlocate : x.locate parent name = .ok i)
    (hparent : parent ∈ directories) :
    (x.setEntry parent i .empty).lookup parent name = .error .notFound := by
  obtain ⟨haccepts, hused, hname, -⟩ := exists_child_of_locate hlocate
  exact lookup_setEntry_empty haccepts fun j hj hjname =>
    h.names parent hparent j i hj hused (hjname.trans hname.symm)

theorem lookup_delete (h : x.Structured directories files) (hlocate : x.locate parent name = .ok i)
    (hparent : parent ∈ directories) :
    ((x.withMap (x.map.freeChain (x.child parent i).cluster).1).applyAll
      (x.deleteSteps parent i)).lookup parent name = .error .notFound := by
  have hkept := h.loopless parent hparent i (exists_child_of_locate hlocate).2.1
  rw [(h.sameView_release_chain hlocate hparent hparent hkept).lookup,
    h.lookup_erase hlocate hparent]

end Structured

end ClusterFs.Contents
