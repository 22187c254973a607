import ClusterFs.Proofs.FileData
import ClusterFs.Proofs.Invariant
import ClusterFs.Proofs.Requests

/-!
Which clusters pass as parents. The check of a parent reads bytes that a file may have put there: a
file whose last cluster of data is a table that describes this very cluster passes as a directory.
Without such a write only directories do.
-/
namespace ClusterFs

theorem Payload.size_ofCluster (v : Cluster) : (ofArray v.toArray).size = 2048 :=
  Vector.size_toArray v

theorem Payload.cluster_ofCluster (v : Cluster) : (ofArray v.toArray).cluster 0 = v := by
  apply Vector.ext
  intro j hj
  simp only [cluster, Vector.getElem_ofFn, size_ofCluster, Nat.mul_zero, Nat.zero_add, if_pos hj]
  simp [ofArray, Array.getD, hj]

namespace Contents
open AllocationMap Volume

variable {x : Contents} {directories files : Finset UInt32} {parent c : UInt32} {name : ShortName}
  {data : Payload} {p : Placement}

namespace Structured

/-- A write leaves what the files pass as. -/
theorem accepts_write_old (h : x.Structured directories files) (hparent : parent ∈ directories)
    (hplace : place x.map (x.table parent) name data.size = .ok p) (hc : c ∈ files) :
    (x.applyAll (writeSteps parent (x.table parent) name data p)).accepts c = x.accepts c := by
  have hfree := (placement_clusters hplace).2.2.1
  have hagree := (stored_contentSteps (x := x) hplace).agree
  rw [h.applyAll_writeSteps hparent hplace, accepts_setEntry]
  exact accepts_of_agreeOff hagree (h.not_of_free hfree (.inr hc)) (h.isData_of_mem (.inr hc))

/-- Of the clusters that a file is written to only the last can pass as a directory, and it does if
the bytes put there describe it. -/
theorem accepts_write_new (h : x.Structured directories files) (hparent : parent ∈ directories)
    (hplace : place x.map (x.table parent) name data.size = .ok p) (hsize : data.size ≠ 0)
    (hc : c ∈ p.clusters) :
    let y := x.applyAll (writeSteps parent (x.table parent) name data p)
    y.accepts c = (y.map.isTerminal c &&
      (Directory.decode (data.cluster (clustersFor data.size - 1))).describes c) := by
  obtain ⟨hlength, -, hfree, -⟩ := placement_clusters hplace
  obtain ⟨hlinked, hcluster⟩ := (stored_contentSteps (x := x) hplace).file hsize
  rw [requiredClusters, if_neg hsize] at hlength
  simp only [h.applyAll_writeSteps hparent hplace, accepts_setEntry, map_setEntry]
  generalize x.applyAll (contentSteps name data p) = y at hlinked hcluster ⊢
  unfold Contents.accepts
  cases hterminal : y.map.isTerminal c with
  | false => rw [Bool.false_and, Bool.false_and]
  | true =>
    obtain ⟨i, hi, rfl⟩ := List.getElem_of_mem hc
    have hlast := hlinked.eq_last (fun d hd => (hfree d hd).1) hi (isTerminal_iff.mp hterminal).2
    rw [hlength] at hlast
    rw [Contents.table, (hcluster i hi).trans (congrArg data.cluster hlast)]

/-- The clusters that a file is written to hold its data. -/
theorem cluster_write_new (h : x.Structured directories files) (hparent : parent ∈ directories)
    (hplace : place x.map (x.table parent) name data.size = .ok p) (hsize : data.size ≠ 0)
    {i : Nat} (hi : i < p.clusters.length) :
    (x.applyAll (writeSteps parent (x.table parent) name data p)).cluster p.clusters[i] =
      data.cluster i := by
  have hfree := (placement_clusters hplace).2.2.1
  have hne : p.clusters[i] ≠ parent := fun he =>
    h.not_of_free hfree (.inl hparent) (he ▸ List.getElem_mem hi)
  rw [h.applyAll_writeSteps hparent hplace, cluster_setEntry_of_ne _ _ _ hne,
    ((stored_contentSteps hplace).file hsize).2 i hi]

/-- The last cluster of a file ends its chain. -/
theorem isTerminal_write (h : x.Structured directories files) (hparent : parent ∈ directories)
    (hplace : place x.map (x.table parent) name data.size = .ok p) (hsize : data.size ≠ 0)
    (hlast : p.clusters.length - 1 < p.clusters.length) :
    (x.applyAll (writeSteps parent (x.table parent) name data p)).map.isTerminal
      p.clusters[p.clusters.length - 1] = true := by
  obtain ⟨-, -, hfree, -⟩ := placement_clusters hplace
  rw [h.applyAll_writeSteps hparent hplace, map_setEntry, isTerminal_iff]
  exact ⟨(hfree _ (List.getElem_mem hlast)).1,
    ((stored_contentSteps hplace).file hsize).1.get?_last hlast⟩

end Structured

end Contents

namespace Session
open AllocationMap Contents Volume

variable {D : Type} [BlockDevice D] {S : Storage D} {s t : Session D} {a : Action}

/-- Every parent that an action accepts is a directory. -/
def Guarded (s : Session D) : Prop :=
  ∀ a parent, a.parent? = some parent → s.volume.outcome a ≠ .error .invalidParent →
    parent ∈ s.directories ∧ parent ∉ s.files

/-- A write of a file whose last cluster of data, read as a table, describes the cluster it was put
in. -/
def Forges (s : Session D) : Action → Prop
  | .write parent name data =>
    let r := s.volume.write parent name data
    (∃ first, r.outcome = .ok first) ∧ 0 < data.size ∧
      ∃ c ∈ s.volume.map.taken r.volume.map, r.volume.map.isTerminal c = true ∧
        (Directory.decode (data.cluster (clustersFor data.size - 1))).describes c = true
  | _ => False

/-- No cluster of a file passes as a directory. -/
def Unforged (S : Storage D) (s : Session D) : Prop :=
  ∀ c ∈ s.files, (S.contents s.volume).accepts c = false

/-! ### What a parent is answered with -/

/-- An action on a cluster that does not pass as a directory is refused. -/
theorem outcome_of_not_accepts (hs : S.Usable s.volume.disk) {parent : UInt32}
    (hparent : a.parent? = some parent) (h : (S.contents s.volume).accepts parent = false) :
    s.volume.outcome a = .error .invalidParent := by
  have hdirectory := directory_of_not_accepts h
  have hlookup (name : ShortName) : (S.contents s.volume).lookup parent name =
      .error .invalidParent := by
    simp only [lookup, hdirectory]
  have hlocate (name : ShortName) : (S.contents s.volume).locate parent name =
      .error .invalidParent := by
    simp only [locate, hdirectory]
  cases a with
  | write q name data =>
    obtain rfl : q = parent := Option.some.inj hparent
    rcases Storage.write_spec hs q name data with
      ⟨e, d, hwrite, -, hplace⟩ | ⟨p, done, rest, hplace, -⟩
    · simp only [placement, hdirectory] at hplace
      obtain rfl := Except.error.inj hplace
      simp only [Volume.outcome, hwrite, refuse, Reply.discard]
      rfl
    · rw [(placement_eq_ok_iff.mp hplace).1] at h
      cases h
  | read q name capacity =>
    obtain rfl : q = parent := Option.some.inj hparent
    have hread := Storage.read_answer hs q name capacity
    simp only [readFile, hlookup] at hread
    simp only [Volume.outcome, Reply.discard, (Prod.mk.inj hread).1]
    rfl
  | readDirectory q name capacity =>
    obtain rfl : q = parent := Option.some.inj hparent
    obtain ⟨d, -, hread, -⟩ := Storage.readTable_eq hs q name capacity fun _ e he => by
      rw [hlookup] at he
      cases he
    simp only [readTable, hlookup] at hread
    exact (Prod.mk.inj hread).1
  | delete q name =>
    obtain rfl : q = parent := Option.some.inj hparent
    rcases Storage.delete_spec hs q name (fun i hi => by rw [hlocate] at hi; cases hi) with
      ⟨e, d, hdelete, -, he⟩ | ⟨i, done, rest, hi, -⟩
    · rw [hlocate] at he
      obtain rfl := Except.error.inj he
      simp only [Volume.outcome, hdelete, refuse]
    · rw [hlocate] at hi
      cases hi
  | stat q name =>
    obtain rfl : q = parent := Option.some.inj hparent
    simp only [Volume.outcome, Storage.stat_snd hs, hlookup]
    rfl
  | remount => cases hparent

/-- A look at a cluster that passes as a directory is not refused. -/
theorem stat_of_accepts (hs : S.Usable s.volume.disk) {parent : UInt32}
    (h : (S.contents s.volume).accepts parent = true) (name : ShortName) :
    s.volume.outcome (.stat parent name) ≠ .error .invalidParent := by
  simp only [Volume.outcome, Storage.stat_snd hs, lookup_of_accepts h]
  cases ((S.contents s.volume).table parent).find? name with
  | none =>
    intro hanswer
    cases hanswer
  | some i =>
    intro hanswer
    cases hanswer

/-- In a healthy session the parents are guarded as long as no file passes as a directory. -/
theorem Healthy.guarded_iff_unforged (hs : s.Healthy S) : s.Guarded ↔ s.Unforged S := by
  constructor
  · intro h c hc
    cases haccepts : (S.contents s.volume).accepts c with
    | false => rfl
    | true =>
      have hstat := stat_of_accepts hs.usable haccepts .empty
      exact absurd hc (h (.stat c .empty) c rfl hstat).2
  · intro h a parent hparent houtcome
    cases haccepts : (S.contents s.volume).accepts parent with
    | false => exact absurd (outcome_of_not_accepts hs.usable hparent haccepts) houtcome
    | true =>
      have hnot : parent ∉ s.files := fun hmem => by
        rw [h parent hmem] at haccepts
        cases haccepts
      exact ⟨(hs.structured.mem_of_accepts haccepts).resolve_right hnot, hnot⟩

/-- While no file passes as a directory every accepted parent is one. -/
theorem Unforged.parentsIn (h : s.Unforged S) (hs : s.Healthy S) (a : Action) :
    s.ParentsIn S a := by
  intro parent _ haccepts
  refine (hs.structured.mem_of_accepts haccepts).resolve_right fun hmem => ?_
  rw [h parent hmem] at haccepts
  cases haccepts

/-! ### What a step does to the files -/

/-- A write forges if a cluster that it takes for a file passes as a directory. -/
theorem forges_iff_of_wrote (hs : s.Healthy S) {parent : UInt32} {name : ShortName}
    {data : Payload} {p : Placement} (hparent : parent ∈ s.directories)
    (hplace : place s.volume.map ((S.contents s.volume).table parent) name data.size = .ok p)
    (hcontents : S.contents t.volume = (S.contents s.volume).applyAll
      (writeSteps parent ((S.contents s.volume).table parent) name data p))
    (hvolume : (s.volume.write parent name data).volume = t.volume)
    (houtcome : (s.volume.write parent name data).outcome = .ok p.first) :
    s.Forges (.write parent name data) ↔
      ∃ c ∈ newFiles data p, (S.contents t.volume).accepts c = true := by
  simp only [Forges, houtcome, hvolume]
  by_cases hsize : data.size = 0
  · simp [hsize, newFiles]
  · have htaken := taken_write hs.structured hparent hplace hsize
    rw [← hcontents, Storage.map_contents, Storage.map_contents] at htaken
    have hnew {c : UInt32} (hc : c ∈ newFiles data p) :=
      hs.structured.accepts_write_new hparent hplace hsize (mem_newFiles.mp hc).2
    simp only [← hcontents, Storage.map_contents] at hnew
    rw [htaken]
    constructor
    · rintro ⟨-, -, c, hc, hforged⟩
      rw [← Bool.and_eq_true, ← hnew hc] at hforged
      exact ⟨c, hc, hforged⟩
    · rintro ⟨c, hc, hforged⟩
      rw [hnew hc, Bool.and_eq_true] at hforged
      exact ⟨⟨_, rfl⟩, Nat.pos_of_ne_zero hsize, c, hc, hforged⟩

/-- A step from a session in which no file passes as a directory leaves none that does, unless it
forges one. -/
theorem Unforged.step_iff (h : s.Unforged S) (hs : s.Healthy S) (hstep : s.step a = .ok t) :
    t.Healthy S ∧ (t.Unforged S ↔ ¬ s.Forges a) := by
  obtain ⟨ht, heffect⟩ := hs.step (h.parentsIn hs a) hstep
  refine ⟨ht, ?_⟩
  cases heffect with
  | same hcontents _ hfiles hrefused =>
    have hunforged : t.Unforged S := by
      unfold Unforged
      rw [hcontents, hfiles]
      exact h
    refine iff_of_true hunforged fun hforges => ?_
    cases a with
    | write parent name data =>
      obtain ⟨⟨first, houtcome⟩, -⟩ := hforges
      obtain ⟨e, he⟩ := hrefused rfl
      exact outcome_write_ne_error houtcome e he
    | _ => exact hforges
  | @wrote parent name data t p hparent hplace hcontents _ hfiles houtcome =>
    rw [forges_iff_of_wrote hs hparent hplace hcontents (volume_of_step_write hstep) houtcome,
      Unforged, hfiles]
    constructor
    · rintro hnone ⟨c, hc, haccepts⟩
      rw [hnone c (Finset.mem_union_right _ hc)] at haccepts
      cases haccepts
    · intro hnone c hc
      rcases Finset.mem_union.mp hc with hc | hc
      · have hold := hs.structured.accepts_write_old hparent hplace hc
        rw [hcontents]
        exact hold.trans (h c hc)
      · rw [← Bool.not_eq_true]
        exact fun haccepts => hnone ⟨c, hc, haccepts⟩
  | @deleted parent name t i hparent hlocate hcontents _ hfiles _ =>
    refine iff_of_true (fun c hc => ?_) id
    rw [hfiles] at hc
    obtain ⟨hc, hkept⟩ := Finset.mem_filter.mp hc
    have hsame := hs.structured.accepts_delete hparent (exists_child_of_locate hlocate).2.1
      (hs.structured.isData_of_mem (.inr hc)) hkept
    rw [hcontents]
    exact hsame.trans (h c hc)

/-- A run without forging keeps a session healthy and no file passes as a directory. -/
theorem Unforged.run {actions : List Action}
    (hrun : Run (fun s a _ => ¬ s.Forges a) s actions t) (h : s.Unforged S) (hs : s.Healthy S) :
    t.Healthy S ∧ t.Unforged S := by
  refine hrun.invariant (motive := fun t => t.Healthy S ∧ t.Unforged S) ⟨hs, h⟩ ?_
  rintro t u a ⟨ht, hunforged⟩ hstep hforges
  obtain ⟨hu, hiff⟩ := hunforged.step_iff ht hstep
  exact ⟨hu, hiff.mpr hforges⟩

/-! ### Guarded runs -/

/-- From a session in which no file passes as a directory, the parents stay guarded as long as no
file is forged. -/
theorem Unforged.guarded_run_iff (h : s.Unforged S) (hs : s.Healthy S) {actions : List Action} :
    Run (fun _ _ u => u.Guarded) s actions t ↔ Run (fun t a _ => ¬ t.Forges a) s actions t := by
  constructor
  · intro hrun
    induction hrun with
    | nil => exact .nil
    | snoc _ hstep hguarded ih =>
      obtain ⟨ht, hunforged⟩ := h.run ih hs
      obtain ⟨hu, hiff⟩ := hunforged.step_iff ht hstep
      exact ih.snoc hstep (hiff.mp (hu.guarded_iff_unforged.mp hguarded))
  · intro hrun
    induction hrun with
    | nil => exact .nil
    | snoc hrun hstep hforges ih =>
      obtain ⟨ht, hunforged⟩ := h.run hrun hs
      obtain ⟨hu, hiff⟩ := hunforged.step_iff ht hstep
      exact ih.snoc hstep (hu.guarded_iff_unforged.mpr (hiff.mpr hforges))

/-- From a formatted volume, every parent that is accepted in some session of a run is a directory
and no cluster of a file if and only if no write of the run is of a file whose last cluster of data
describes the cluster it is put in. Until then every request is answered. -/
theorem parents_guarded_iff {d : D} (hd : S.Usable d) (hwrites : S.writesLeft d = none) :
    ∃ s₀, fresh d = .ok s₀ ∧ s₀.Guarded ∧
      ∀ actions s,
        (Run (fun _ _ u => u.Guarded) s₀ actions s ↔
          Run (fun t a _ => ¬ t.Forges a) s₀ actions s) ∧
        (Run (fun t a _ => ¬ t.Forges a) s₀ actions s →
          s.Guarded ∧ ∀ a, ∃ t, s.step a = .ok t) := by
  obtain ⟨e, hfresh, hs, -⟩ := fresh_eq hd hwrites
  have hunforged : (⟨⟨e, formatted⟩, {rootCluster}, ∅⟩ : Session D).Unforged S :=
    fun c hc => absurd hc (Finset.notMem_empty c)
  refine ⟨_, hfresh, hs.guarded_iff_unforged.mpr hunforged, fun actions s => ?_⟩
  refine ⟨hunforged.guarded_run_iff hs, fun hrun => ?_⟩
  obtain ⟨ht, ht'⟩ := hunforged.run hrun hs
  refine ⟨ht.guarded_iff_unforged.mpr ht', fun a => ?_⟩
  obtain ⟨t, hstep, -⟩ := step_effect ht (ht'.parentsIn ht a)
  exact ⟨t, hstep⟩

/-- A write of a directory forges nothing. -/
theorem guarded_after_first_directory :
    ∃ s₀ s, fresh (MemoryDisk.create 512) = .ok s₀ ∧
      Run (fun _ _ u => u.Guarded) s₀ [.write rootCluster (.ofParts [65] []) .empty] s ∧
      s.Guarded := by
  obtain ⟨s₀, hfresh, -, hall⟩ :=
    parents_guarded_iff (MemoryDisk.usable_create (Nat.le_refl 512)) rfl
  obtain ⟨s, hstep⟩ := ((hall [] s₀).2 .nil).2 (.write rootCluster (.ofParts [65] []) .empty)
  have hrun : Run (fun t a _ => ¬ t.Forges a) s₀
      [.write rootCluster (.ofParts [65] []) .empty] s :=
    Run.nil.snoc hstep fun hforges => absurd hforges.2.1 (Nat.lt_irrefl 0)
  exact ⟨s₀, s, hfresh, (hall _ s).1.mpr hrun, ((hall _ s).2 hrun).1⟩

/-- A file of one cluster that describes the cluster it is put in is forged, and the cluster passes
as a directory from then on. -/
theorem step_of_describes (hs : s.Healthy S) {parent c : UInt32} {name : ShortName}
    {data : Payload} (hparents : s.ParentsIn S (.write parent name data))
    (hcount : requiredClusters data.size = 1) (hsize : data.size ≠ 0)
    (hdescribes : (Directory.decode (data.cluster 0)).describes c = true)
    (houtcome : (s.volume.write parent name data).outcome = .ok c) :
    s.Forges (.write parent name data) ∧
      ∃ t, s.step (.write parent name data) = .ok t ∧ t.Healthy S ∧ c ∈ t.files ∧
        (S.contents t.volume).accepts c = true := by
  obtain ⟨t, hstep, husable, hwrites, heffect⟩ := step_effect hs hparents
  have ht : t.Healthy S := ⟨husable, hwrites, heffect.structured hs.structured⟩
  obtain ⟨p, rfl, hparent, hplace, hcontents, -, hfiles⟩ := heffect.of_write_ok houtcome
  obtain ⟨hlength, -, -, hfirst⟩ := placement_clusters hplace
  obtain ⟨only, hclusters⟩ := List.length_eq_one_iff.mp (hlength.trans hcount)
  have honly : p.first = only := by
    rw [Placement.first, hclusters]
    rfl
  have hnew : p.first ∈ newFiles data p := mem_newFiles.mpr ⟨hsize, hfirst⟩
  have hterminal := hs.structured.isTerminal_write hparent hplace hsize (by simp [hclusters])
  simp only [hclusters, List.length_singleton, Nat.sub_self, List.getElem_cons_zero] at hterminal
  rw [requiredClusters, if_neg hsize] at hcount
  have haccepts : (S.contents t.volume).accepts p.first = true := by
    rw [hcontents, hs.structured.accepts_write_new hparent hplace hsize hfirst,
      Bool.and_eq_true, hcount]
    exact ⟨honly ▸ hterminal, hdescribes⟩
  rw [forges_iff_of_wrote hs hparent hplace hcontents (volume_of_step_write hstep) houtcome]
  refine ⟨⟨p.first, hnew, haccepts⟩, t, hstep, ht, ?_, haccepts⟩
  rw [hfiles]
  exact Finset.mem_union_right _ hnew

/-- The first cluster that a file is written to holds the start of its data. -/
theorem cluster_of_write (hs : s.Healthy S) {parent c : UInt32} {name : ShortName}
    {data : Payload} (hparents : s.ParentsIn S (.write parent name data))
    (hstep : s.step (.write parent name data) = .ok t) (hsize : data.size ≠ 0)
    (houtcome : (s.volume.write parent name data).outcome = .ok c) :
    (S.contents t.volume).cluster c = data.cluster 0 := by
  obtain ⟨-, heffect⟩ := hs.step hparents hstep
  obtain ⟨p, rfl, hparent, hplace, hcontents, -⟩ := heffect.of_write_ok houtcome
  have hlength : 0 < p.clusters.length := List.length_pos_of_mem (placement_clusters hplace).2.2.2
  have hfirst : p.first = p.clusters[0] := by
    rw [Placement.first, List.headD_eq_head?_getD, List.head?_eq_getElem?,
      List.getElem?_eq_getElem hlength]
    rfl
  rw [hcontents, hfirst]
  exact hs.structured.cluster_write_new hparent hplace hsize hlength

/-- The first file on a volume is put in cluster 3, so the table of a directory at cluster 3 is
forged, and cluster 3 then answers as a parent. -/
theorem forged_file_accepted :
    ∃ s₀ s, fresh (MemoryDisk.create 512) = .ok s₀ ∧
      Run (fun _ _ _ => True) s₀ [.write rootCluster (.ofParts [65] [])
        (.ofArray (Directory.create Volume.rootName 3).encode.toArray)] s ∧
      3 ∈ s.files ∧ (∀ name, s.volume.outcome (.stat 3 name) ≠ .error .invalidParent) ∧
      ¬ s.Guarded := by
  have husable := MemoryDisk.usable_create (Nat.le_refl 512)
  obtain ⟨e, hfresh, -⟩ := fresh_eq husable rfl
  have hforgery := Payload.cluster_ofCluster (Directory.create Volume.rootName 3).encode
  have hsize := Payload.size_ofCluster (Directory.create Volume.rootName 3).encode
  generalize (Payload.ofArray (Directory.create Volume.rootName 3).encode.toArray) = data at *
  have hcount : requiredClusters data.size = 1 := by
    rw [hsize]
    rfl
  obtain ⟨hs, houtcome⟩ := first_write_ok husable rfl hfresh (.ofParts [65] []) data (by omega)
  have hadmits := hs.admits_root (.ofParts [65] []) data
  obtain ⟨-, t, hstep, ht, hmem, haccepts⟩ := step_of_describes hs (hadmits.parentsIn hs) hcount
    (by omega) (by rw [hforgery, Directory.decode_encode, Directory.describes_create]) houtcome
  have hstat := stat_of_accepts ht.usable haccepts
  exact ⟨_, t, hfresh, Run.nil.snoc hstep trivial, hmem, hstat,
    fun hguarded => (hguarded (.stat 3 .empty) 3 rfl (hstat .empty)).2 hmem⟩

end Session

end ClusterFs
