import ClusterFs.Proofs.Operations
import ClusterFs.Proofs.Structure

/-!
A write and a delete keep the structure of a volume, and so does every first part of their steps
once the map is taken from the device: a write that stops early has only taken free clusters, and a
delete that stops early has released none.
-/
namespace ClusterFs.Contents
open AllocationMap Volume

variable {x y : Contents} {directories files : Finset UInt32} {parent c : UInt32}
  {table : Directory} {name : ShortName} {data : Payload} {p : Placement} {i : Fin 62}

/-- After the steps of a file its clusters are linked and hold the data, and the map is saved. -/
theorem applyAll_fileSteps (x : Contents) (data : Payload) (k : Nat) {clusters : List UInt32}
    (hne : clusters ≠ []) (hdata : ∀ c ∈ clusters, isData c = true) (hnodup : clusters.Nodup) :
    (x.applyAll (fileSteps data k clusters)).map.Linked clusters ∧
      (∀ j (hj : j < clusters.length),
        (x.applyAll (fileSteps data k clusters)).cluster clusters[j] = data.cluster (k + j)) ∧
      (x.applyAll (fileSteps data k clusters)).cluster mapCluster =
        (x.applyAll (fileSteps data k clusters)).map.encode := by
  induction clusters generalizing k x with
  | nil => contradiction
  | cons c rest ih =>
    have hc := hdata c (by simp)
    simp only [fileSteps, applyAll_cons]
    cases rest with
    | nil =>
      simp only [fileSteps, applyAll_nil, apply, List.headD_nil]
      refine ⟨?_, ?_, ?_⟩
      · exact (get?_set _ _ _ hc).trans (if_pos rfl)
      · intro j hj
        obtain rfl : j = 0 := by simpa using hj
        exact cluster_store_self ..
      · rw [cluster_store_of_ne _ _ (isData_ne_mapCluster hc).symm, cluster_saveMap_self]
        rfl
    | cons next rest =>
      simp only [apply, List.headD_cons]
      generalize hz : ((x.withMap (x.map.set c next)).saveMap.store c (data.cluster k)) = z
      have hrest : ∀ d ∈ next :: rest, isData d = true :=
        fun d hd => hdata d (List.mem_cons_of_mem _ hd)
      have hnotMem : c ∉ next :: rest := (List.nodup_cons.mp hnodup).1
      obtain ⟨hlinked, hcluster, hsaved⟩ :=
        ih z (k + 1) (by simp) hrest (List.nodup_cons.mp hnodup).2
      -- the later steps leave the first cluster and its entry
      have hagree := agreeOff_applyAll (P := (· ∈ next :: rest)) hrest
        (within_fileSteps data (k + 1) fun d hd => hd) z
      refine ⟨⟨?_, hlinked⟩, ?_, hsaved⟩
      · rw [hagree.entry c hnotMem, ← hz]
        exact (get?_set _ _ _ hc).trans (if_pos rfl)
      · intro j hj
        cases j with
        | zero =>
          show Contents.cluster _ c = data.cluster k
          rw [hagree.cluster c hnotMem (isData_ne_mapCluster hc), ← hz]
          exact cluster_store_self ..
        | succ j =>
          have hindex : k + (j + 1) = k + 1 + j := by omega
          rw [hindex]
          exact hcluster j (by simpa using hj)

theorem applyAll_directorySteps (x : Contents) (name : ShortName) (hc : isData c = true) :
    (x.applyAll (directorySteps name c)).map.get? c = some endOfChain ∧
      (x.applyAll (directorySteps name c)).cluster c = (Directory.create name c).encode ∧
      (x.applyAll (directorySteps name c)).cluster mapCluster =
        (x.applyAll (directorySteps name c)).map.encode := by
  simp only [directorySteps, applyAll_cons, applyAll_nil, apply]
  refine ⟨?_, ?_, ?_⟩
  · exact (get?_set _ _ _ hc).trans (if_pos rfl)
  · rw [cluster_saveMap_of_ne _ (isData_ne_mapCluster hc), cluster_withMap]
    exact cluster_store_self ..
  · rw [cluster_saveMap_self]
    rfl

/-- What the steps of a write leave before the parent table is stored. -/
structure Stored (name : ShortName) (data : Payload) (p : Placement) (x y : Contents) : Prop where
  agree : AgreeOff (· ∈ p.clusters) x y
  saved : y.cluster mapCluster = y.map.encode
  directory : data.size = 0 → p.clusters = [p.first] ∧ y.map.get? p.first = some endOfChain ∧
    y.cluster p.first = (Directory.create name p.first).encode
  file : data.size ≠ 0 → y.map.Linked p.clusters ∧
    ∀ j (hj : j < p.clusters.length), y.cluster p.clusters[j] = data.cluster j

theorem clusters_eq_of_directory (h : place x.map table name data.size = .ok p)
    (hsize : data.size = 0) : p.clusters = [p.first] := by
  have hlength := (placement_clusters h).1
  rw [requiredClusters, if_pos hsize] at hlength
  obtain ⟨c, hc⟩ := List.length_eq_one_iff.mp hlength
  rw [Placement.first, hc]
  rfl

theorem stored_contentSteps (h : place x.map table name data.size = .ok p) :
    Stored name data p x (x.applyAll (contentSteps name data p)) := by
  obtain ⟨-, hnodup, hfree, hfirst⟩ := placement_clusters h
  have hdata : ∀ c ∈ p.clusters, isData c = true := fun c hc => (hfree c hc).1
  have hagree := agreeOff_applyAll (P := (· ∈ p.clusters)) hdata (within_contentSteps h) x
  by_cases hsize : data.size = 0
  · have hsteps : contentSteps name data p = directorySteps name p.first := by
      simp only [contentSteps, kindFor, if_pos hsize]
    obtain ⟨hend, hcluster, hsaved⟩ := applyAll_directorySteps x name (hdata _ hfirst)
    rw [hsteps] at hagree ⊢
    exact ⟨hagree, hsaved, fun _ => ⟨clusters_eq_of_directory h hsize, hend, hcluster⟩,
      fun hne => absurd hsize hne⟩
  · have hsteps : contentSteps name data p = fileSteps data 0 p.clusters := by
      simp only [contentSteps, kindFor, if_neg hsize]
    obtain ⟨hlinked, hcluster, hsaved⟩ :=
      applyAll_fileSteps x data 0 (List.ne_nil_of_mem hfirst) hdata hnodup
    rw [hsteps] at hagree ⊢
    simp only [Nat.zero_add] at hcluster
    exact ⟨hagree, hsaved, fun heq => absurd heq hsize, fun _ => ⟨hlinked, hcluster⟩⟩

theorem Stored.linked (hstored : Stored name data p x y) : y.map.Linked p.clusters := by
  by_cases hsize : data.size = 0
  · obtain ⟨hclusters, hend, -⟩ := hstored.directory hsize
    rw [hclusters]
    exact hend
  · exact (hstored.file hsize).1

/-- The clusters stored for an entry are the chain of its first. -/
theorem Stored.chain_eq (hstored : Stored name data p x y)
    (h : place x.map table name data.size = .ok p) : y.map.chain p.first = p.clusters := by
  obtain ⟨-, -, hfree, hfirst⟩ := placement_clusters h
  have hlinked := hstored.linked
  have hdata : ∀ c ∈ p.clusters, isData c = true := fun c hc => (hfree c hc).1
  have hshort := length_findFree_lt (place_spec h).2.2.2
  obtain ⟨rest, hrest⟩ : ∃ rest, p.clusters = p.first :: rest := by
    cases hclusters : p.clusters with
    | nil => simp [hclusters] at hfirst
    | cons c rest => exact ⟨rest, by simp [Placement.first, hclusters]⟩
  rw [hrest] at hlinked hdata hshort ⊢
  rw [List.length_cons] at hshort
  exact chain_of_linked hlinked hdata (by omega)

/-- A cluster that passes as a directory is not free, so no placement takes it. -/
theorem notMem_clusters_of_accepts (haccepts : x.accepts c = true)
    (h : place x.map table name data.size = .ok p) : c ∉ p.clusters := by
  intro hc
  have hend := (isTerminal_iff.mp (isTerminal_of_accepts haccepts)).2
  exact absurd (hend.symm.trans ((placement_clusters h).2.2.1 c hc).2) (by decide)

/-- A write stores what its entry refers to, and then the entry. -/
theorem applyAll_writeSteps (haccepts : x.accepts parent = true)
    (h : place x.map (x.table parent) name data.size = .ok p) :
    x.applyAll (writeSteps parent (x.table parent) name data p) =
      (x.applyAll (contentSteps name data p)).setEntry parent p.index (newEntry name data p) := by
  have htable := (stored_contentSteps h).agree.table (notMem_clusters_of_accepts haccepts h)
    (isData_ne_mapCluster (isData_of_accepts haccepts))
  rw [writeSteps_eq, applyAll_append, Contents.setEntry, htable]
  rfl

/-- A directory as a write makes it is accepted and has no children. -/
theorem accepts_of_create (hc : isData c = true) (hend : y.map.get? c = some endOfChain)
    (hcluster : y.cluster c = (Directory.create name c).encode) :
    y.accepts c = true ∧ ∀ i, (y.child c i).isUsed = false := by
  have htable : y.table c = Directory.create name c := by
    unfold Contents.table
    rw [hcluster, Directory.decode_encode]
  constructor
  · unfold accepts
    rw [htable, isTerminal_iff.mpr ⟨hc, hend⟩, Directory.describes_create]
    rfl
  · intro i
    unfold child
    rw [htable, Directory.get_children_create, Entry.isUsed_empty]

/-- The clusters that a write adds to the directories and to those of files. -/
def newDirectories (data : Payload) (p : Placement) : Finset UInt32 :=
  if data.size = 0 then {p.first} else ∅
def newFiles (data : Payload) (p : Placement) : Finset UInt32 :=
  if data.size = 0 then ∅ else p.clusters.toFinset

theorem mem_newDirectories : c ∈ newDirectories data p ↔ data.size = 0 ∧ c = p.first := by
  unfold newDirectories
  split_ifs with hsize <;> simp [hsize]

theorem mem_newFiles : c ∈ newFiles data p ↔ data.size ≠ 0 ∧ c ∈ p.clusters := by
  unfold newFiles
  split_ifs with hsize <;> simp [hsize]

theorem isDirectory_newEntry (name : ShortName) (data : Payload) (p : Placement) :
    (newEntry name data p).isDirectory = decide (data.size = 0) := by
  rw [newEntry, Entry.isDirectory_create, kindFor]
  split_ifs with hempty <;> simp [hempty]

namespace Structured

/-- Storing what a new entry refers to keeps the structure; no entry refers to it yet. -/
theorem of_stored (h : x.Structured directories files)
    (hplace : place x.map table name data.size = .ok p) (hstored : Stored name data p x y) :
    y.Structured (directories ∪ newDirectories data p) (files ∪ newFiles data p) := by
  obtain ⟨-, -, hfree, hfirst⟩ := placement_clusters hplace
  have hdata : ∀ c ∈ p.clusters, isData c = true := fun c hc => (hfree c hc).1
  have hnot {c : UInt32} (hc : c ∈ p.clusters) : ¬ (c ∈ directories ∨ c ∈ files) := fun hmem =>
    h.ne_unused_of_mem hmem (hfree c hc).2
  have hdirectory {c : UInt32} (hc : c ∈ newDirectories data p) : c ∈ p.clusters := by
    rw [(mem_newDirectories.mp hc).2]
    exact hfirst
  have hfile {c : UInt32} (hc : c ∈ newFiles data p) : c ∈ p.clusters := (mem_newFiles.mp hc).2
  apply h.grow hstored.agree hstored.saved hfree
  · intro c
    simp only [Finset.mem_union]
    exact ⟨fun hc => hc.imp_right fun hc => ⟨hdirectory hc, .inr hc⟩,
      fun hc => hc.elim .inl And.right⟩
  · intro c
    simp only [Finset.mem_union]
    exact ⟨fun hc => hc.imp_right fun hc => ⟨hfile hc, .inr hc⟩, fun hc => hc.elim .inl And.right⟩
  · rw [Finset.disjoint_left]
    intro c hc hc'
    rcases Finset.mem_union.mp hc with hc | hc <;> rcases Finset.mem_union.mp hc' with hc' | hc'
    · exact Finset.disjoint_left.mp h.apart hc hc'
    · exact hnot (hfile hc') (.inl hc)
    · exact hnot (hdirectory hc) (.inr hc')
    · exact (mem_newFiles.mp hc').1 (mem_newDirectories.mp hc).1
  · intro c hc
    have hold := hnot hc
    simp only [Finset.mem_union]
    by_cases hsize : data.size = 0
    · obtain ⟨hclusters, hend, -⟩ := hstored.directory hsize
      obtain rfl : c = p.first := by simpa [hclusters] using hc
      simp [mem_newDirectories, hsize, hend, show endOfChain ≠ unused by decide]
    · have hne := (hstored.file hsize).1.get?_ne_unused hdata c hc
      simp [mem_newFiles, hsize, hc, hne]
  · intro c hc hmem
    rcases Finset.mem_union.mp hmem with hmem | hmem
    · exact absurd (.inl hmem) (hnot hc)
    · obtain ⟨hsize, rfl⟩ := mem_newDirectories.mp hmem
      obtain ⟨-, hend, hcluster⟩ := hstored.directory hsize
      exact accepts_of_create (hdata _ hc) hend hcluster

/-- The entry of a write refers to what was stored for it. -/
theorem sound_newEntry (h : x.Structured directories files)
    (hplace : place x.map table name data.size = .ok p) (hstored : Stored name data p x y) :
    y.map.chain p.first = p.clusters ∧
      y.Sound (directories ∪ newDirectories data p) (files ∪ newFiles data p)
        (newEntry name data p) := by
  obtain ⟨hlength, hnodup, hfree, hfirst⟩ := placement_clusters hplace
  have hword := (place_spec hplace).2.2.1
  have hchain := hstored.chain_eq hplace
  refine ⟨hchain, ?_, ?_⟩
  · intro hdir
    have hsize : data.size = 0 := by rwa [isDirectory_newEntry, decide_eq_true_eq] at hdir
    refine ⟨?_, ?_, ?_⟩
    · simp [newEntry, hsize]
    · rw [newEntry, Entry.cluster_create]
      exact Finset.mem_union_right _ (mem_newDirectories.mpr ⟨hsize, rfl⟩)
    · rw [newEntry, Entry.cluster_create]
      intro hroot
      exact h.ne_unused_of_mem (.inl h.root_mem) (hroot ▸ (hfree _ hfirst).2)
  · intro hdir
    have hsize : data.size ≠ 0 := by rwa [isDirectory_newEntry, decide_eq_false_iff_not] at hdir
    have htoNat : (UInt32.ofNat data.size).toNat = data.size := UInt32.toNat_ofNat_of_lt' hword
    simp only [newEntry, Entry.size_create, Entry.cluster_create, hchain, htoNat]
    refine ⟨Nat.pos_of_ne_zero hsize, ?_, hnodup, (hstored.file hsize).1, ?_⟩
    · rw [hlength, requiredClusters, if_neg hsize]
    · exact fun c hc => Finset.mem_union_right _ (mem_newFiles.mpr ⟨hsize, hc⟩)

theorem applyAll_writeSteps (h : x.Structured directories files) (hparent : parent ∈ directories)
    (hplace : place x.map (x.table parent) name data.size = .ok p) :
    x.applyAll (writeSteps parent (x.table parent) name data p) =
      (x.applyAll (contentSteps name data p)).setEntry parent p.index (newEntry name data p) :=
  Contents.applyAll_writeSteps (h.accepts _ hparent) hplace

/-- A write that is carried out keeps the structure. -/
theorem write (h : x.Structured directories files) (hparent : parent ∈ directories)
    (hplace : place x.map (x.table parent) name data.size = .ok p) :
    (x.applyAll (writeSteps parent (x.table parent) name data p)).Structured
      (directories ∪ newDirectories data p) (files ∪ newFiles data p) := by
  have hfree := (placement_clusters hplace).2.2.1
  have hstored := stored_contentSteps hplace
  obtain ⟨hnone, hvacancy, -, -⟩ := place_spec hplace
  obtain ⟨hchain, hsound⟩ := h.sound_newEntry hplace hstored
  rw [h.applyAll_writeSteps hparent hplace]
  generalize x.applyAll (contentSteps name data p) = y at hstored hchain hsound ⊢
  refine (h.of_stored hplace hstored).setEntry (Finset.mem_union_left _ hparent) _ _
    (fun _ => hsound) (fun _ j hused hname => ?_) (fun _ q hq j c hused hc hc' => ?_)
    (fun _ hc => ?_)
  · -- no child had the name
    rw [h.child_of_agreeOff hstored.agree hfree hparent] at hused hname
    unfold child at hused hname
    exact absurd hname (Directory.find?_eq_none_iff.mp hnone j hused)
  · -- the clusters were free, so no child referred to them
    exfalso
    rw [newEntry, Entry.cluster_create, hchain] at hc
    rcases Finset.mem_union.mp hq with hq | hq
    · rw [h.child_of_agreeOff hstored.agree hfree hq] at hused hc'
      rw [h.chain_eq hq hused (h.get?_of_agreeOff hstored.agree hfree hq hused)] at hc'
      exact h.not_of_free hfree ((h.extent hq hused).2.2 c hc') hc
    · obtain ⟨hsize, rfl⟩ := mem_newDirectories.mp hq
      obtain ⟨hclusters, hend, hcluster⟩ := hstored.directory hsize
      have hmem : p.first ∈ p.clusters := by simp [hclusters]
      rw [(accepts_of_create (hfree _ hmem).1 hend hcluster).2 j] at hused
      contradiction
  · rw [newEntry, Entry.cluster_create, hchain] at hc
    exact h.not_of_free hfree (.inl hparent) hc

/-- A write that stops early has taken some of its clusters and nothing refers to them. -/
theorem write_stopped (h : x.Structured directories files)
    (hplace : place x.map table name data.size = .ok p) {done rest : List Step}
    (hdone : contentSteps name data p = done ++ rest) :
    ∃ leaked : Finset UInt32, leaked ⊆ p.clusters.toFinset ∧
      (x.applyAll done).reload.Structured directories (files ∪ leaked) ∧
      AgreeOff (· ∈ p.clusters) x (x.applyAll done).reload := by
  have hfree := (placement_clusters hplace).2.2.1
  have hdata : ∀ c ∈ p.clusters, isData c = true := fun c hc => (hfree c hc).1
  have hwithin : ∀ step ∈ done, step.Within (· ∈ p.clusters) := fun step hstep =>
    within_contentSteps hplace step (hdone ▸ List.mem_append_left rest hstep)
  have hagree := agreeOff_applyAll (P := (· ∈ p.clusters)) hdata hwithin x
  obtain ⟨hreload, hsaved⟩ := agreeOff_reload hagree
    (savedOff_applyAll hdata hwithin (.refl _ x) ⟨x.map, h.saved, fun _ _ => rfl⟩)
  generalize (x.applyAll done).reload = z at hreload hsaved ⊢
  refine ⟨p.clusters.toFinset.filter (z.map.get? · ≠ some unused), Finset.filter_subset _ _, ?_,
    hreload⟩
  apply h.grow hreload hsaved hfree
  · exact fun c => ⟨.inl, fun hc => hc.elim id And.right⟩
  · intro c
    simp only [Finset.mem_union, Finset.mem_filter, List.mem_toFinset]
    exact ⟨fun hc => hc.imp_right fun hc => ⟨hc.1, .inr hc⟩, fun hc => hc.elim .inl And.right⟩
  · rw [Finset.disjoint_union_right]
    refine ⟨h.apart, Finset.disjoint_left.mpr fun c hc hleak => ?_⟩
    have hmem := List.mem_toFinset.mp (Finset.mem_filter.mp hleak).1
    exact h.not_of_free hfree (.inl hc) hmem
  · intro c hc
    have hold := h.not_of_free hfree (c := c)
    simp only [Finset.mem_union, Finset.mem_filter, List.mem_toFinset]
    constructor
    · rintro (hmem | hmem | hmem)
      · exact absurd hc (hold (.inl hmem))
      · exact absurd hc (hold (.inr hmem))
      · exact hmem.2
    · exact fun hne => .inr (.inr ⟨hc, hne⟩)
  · exact fun c hc hmem => absurd hc (h.not_of_free hfree (.inl hmem))

theorem root_notMem_chain (h : x.Structured directories files) (hparent : parent ∈ directories)
    (hused : (x.child parent i).isUsed = true) :
    rootCluster ∉ x.map.chain (x.child parent i).cluster := by
  have hsound := h.sound parent hparent i hused
  cases hdir : (x.child parent i).isDirectory with
  | true =>
    obtain ⟨-, hmem, hroot⟩ := hsound.directory hdir
    rw [chain_of_accepts (h.accepts _ hmem), List.mem_singleton]
    exact hroot.symm
  | false =>
    obtain ⟨-, -, -, -, hfiles⟩ := hsound.file hdir
    exact fun hmem => Finset.disjoint_left.mp h.apart h.root_mem (hfiles _ hmem)

/-- A delete that is carried out keeps the structure, with the released clusters left out. -/
theorem delete (h : x.Structured directories files) (hparent : parent ∈ directories)
    (hused : (x.child parent i).isUsed = true) :
    ((x.withMap (x.map.freeChain (x.child parent i).cluster).1).applyAll
      (x.deleteSteps parent i)).Structured
        (directories.filter (· ∉ x.map.chain (x.child parent i).cluster))
        (files.filter (· ∉ x.map.chain (x.child parent i).cluster)) := by
  obtain ⟨hlinked, hnodup, -⟩ := h.extent hparent hused
  refine (h.erase hparent i).release (get?_freeChain_of_linked hlinked hnodup)
    (fun c hc => isData_of_mem_chain hc) (h.root_notMem_chain hparent hused) ?_
  intro q hq j hused' c hc hmem
  rw [child_setEntry] at hused' hc
  split_ifs at hused' hc with hsame
  · contradiction
  · exact hsame (h.owner q hq parent hparent j i c hused' hused hc hmem)

/-- A delete leaves what the clusters pass as that it does not release. -/
theorem accepts_delete (h : x.Structured directories files) (hparent : parent ∈ directories)
    (hused : (x.child parent i).isUsed = true) (hdata : isData c = true)
    (hkept : c ∉ x.map.chain (x.child parent i).cluster) :
    ((x.withMap (x.map.freeChain (x.child parent i).cluster).1).applyAll
      (x.deleteSteps parent i)).accepts c = x.accepts c := by
  obtain ⟨hlinked, hnodup, -⟩ := h.extent hparent hused
  have hentry := get?_freeChain_of_linked hlinked hnodup c
  rw [if_neg hkept] at hentry
  rw [← accepts_setEntry x parent c i .empty]
  exact accepts_release (x := x.setEntry parent i .empty) hentry hdata

end Structured

/-- The first parts of a delete, once the map is taken from the device, show the volume as it was or
without the child. -/
theorem delete_stopped (hsaved : x.cluster mapCluster = x.map.encode)
    (hparent : parent ≠ mapCluster) (m : AllocationMap) {done rest : List Step}
    (hdone : x.deleteSteps parent i = done ++ rest) (hrest : rest ≠ []) :
    ((x.withMap m).applyAll done).reload = x ∨
      ((x.withMap m).applyAll done).reload = x.setEntry parent i .empty := by
  unfold deleteSteps at hdone
  cases done with
  | nil =>
    left
    rw [applyAll_nil, reload_withMap, reload_eq hsaved]
  | cons step done =>
    rw [List.cons_append] at hdone
    obtain ⟨rfl, htail⟩ := List.cons.inj hdone
    cases done with
    | nil =>
      right
      have hsteps : (x.withMap m).applyAll
          [.store parent ((x.table parent).setChild i .empty).encode] =
            (x.setEntry parent i .empty).withMap m := rfl
      rw [hsteps, reload_withMap, reload_eq]
      rw [cluster_setEntry_of_ne x i .empty hparent.symm, map_setEntry, hsaved]
    | cons step done =>
      rw [List.cons_append] at htail
      have hnil := (List.cons.inj htail).2
      exact absurd (List.append_eq_nil_iff.mp hnil.symm).2 hrest

end ClusterFs.Contents
