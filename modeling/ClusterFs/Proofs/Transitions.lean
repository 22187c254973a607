import ClusterFs.Proofs.Session
import ClusterFs.Proofs.Views
import Mathlib.Data.Finset.Lattice.Lemmas

/-!
What one action does to a session on a device that takes every write: nothing, a whole write, or a
whole delete. Each of them keeps the structure of the volume, so every run does.
-/
namespace ClusterFs

theorem AllocationMap.mem_taken {before after : AllocationMap} {c : UInt32} :
    c ∈ before.taken after ↔ isData c = true ∧ before.get? c = some unused ∧
      after.get? c ≠ some unused := by
  simp only [taken, Finset.mem_sdiff, List.mem_toFinset, mem_freeClusters]
  exact ⟨fun h => ⟨h.1.1, h.1.2, fun hafter => h.2 ⟨h.1.1, hafter⟩⟩,
    fun h => ⟨⟨h.1, h.2.1⟩, fun hafter => h.2.2 hafter.2⟩⟩

namespace Session
open AllocationMap Contents Volume

variable {D : Type} [BlockDevice D] {S : Storage D} {s t : Session D} {a : Action}

/-- A session on a device that takes every write and whose contents are structured. -/
structure Healthy (S : Storage D) (s : Session D) : Prop where
  usable : S.Usable s.volume.disk
  writes : S.writesLeft s.volume.disk = none
  structured : (S.contents s.volume).Structured s.directories s.files

/-- Whether an action is answered only for parents among the directories. -/
def ParentsIn (S : Storage D) (s : Session D) (a : Action) : Prop :=
  ∀ parent, a.parent? = some parent → (S.contents s.volume).accepts parent = true →
    parent ∈ s.directories

/-- The three things that an action can do. -/
inductive Effect (S : Storage D) (s : Session D) : Action → Session D → Prop
  | same {a : Action} {t : Session D} (hcontents : S.contents t.volume = S.contents s.volume)
      (hdirectories : t.directories = s.directories) (hfiles : t.files = s.files)
      (hrefused : a.changes = true → ∃ e, s.volume.outcome a = .error e) : Effect S s a t
  | wrote {parent : UInt32} {name : ShortName} {data : Payload} {t : Session D} {p : Placement}
      (hparent : parent ∈ s.directories)
      (hplace : place s.volume.map ((S.contents s.volume).table parent) name data.size = .ok p)
      (hcontents : S.contents t.volume = (S.contents s.volume).applyAll
        (writeSteps parent ((S.contents s.volume).table parent) name data p))
      (hdirectories : t.directories = s.directories ∪ newDirectories data p)
      (hfiles : t.files = s.files ∪ newFiles data p)
      (houtcome : (s.volume.write parent name data).outcome = .ok p.first) :
      Effect S s (.write parent name data) t
  | deleted {parent : UInt32} {name : ShortName} {t : Session D} {i : Fin 62}
      (hparent : parent ∈ s.directories)
      (hlocate : (S.contents s.volume).locate parent name = .ok i)
      (hcontents : S.contents t.volume = ((S.contents s.volume).withMap
        (s.volume.map.freeChain ((S.contents s.volume).child parent i).cluster).1).applyAll
          ((S.contents s.volume).deleteSteps parent i))
      (hdirectories : t.directories = s.directories.filter
        (· ∉ s.volume.map.chain ((S.contents s.volume).child parent i).cluster))
      (hfiles : t.files = s.files.filter
        (· ∉ s.volume.map.chain ((S.contents s.volume).child parent i).cluster))
      (houtcome : (s.volume.delete parent name).outcome = .ok ()) :
      Effect S s (.delete parent name) t

/-- Each effect keeps the structure. -/
theorem Effect.structured (h : Effect S s a t)
    (hs : (S.contents s.volume).Structured s.directories s.files) :
    (S.contents t.volume).Structured t.directories t.files := by
  cases h with
  | same hcontents hdirectories hfiles _ =>
    rw [hcontents, hdirectories, hfiles]
    exact hs
  | wrote hparent hplace hcontents hdirectories hfiles _ =>
    rw [hcontents, hdirectories, hfiles]
    exact hs.write hparent hplace
  | deleted hparent hlocate hcontents hdirectories hfiles _ =>
    rw [hcontents, hdirectories, hfiles]
    exact hs.delete hparent (exists_child_of_locate hlocate).2.1

theorem outcome_write_ne_error {parent first : UInt32} {name : ShortName} {data : Payload}
    (houtcome : (s.volume.write parent name data).outcome = .ok first) (e : FsError) :
    s.volume.outcome (.write parent name data) ≠ .error e := by
  intro he
  simp only [Volume.outcome, Reply.discard, houtcome] at he
  cases he

/-- A write that succeeds was carried out whole. -/
theorem Effect.of_write_ok {parent first : UInt32} {name : ShortName} {data : Payload}
    (h : Effect S s (.write parent name data) t)
    (houtcome : (s.volume.write parent name data).outcome = .ok first) :
    ∃ p, p.first = first ∧ parent ∈ s.directories ∧
      place s.volume.map ((S.contents s.volume).table parent) name data.size = .ok p ∧
      S.contents t.volume = (S.contents s.volume).applyAll
        (writeSteps parent ((S.contents s.volume).table parent) name data p) ∧
      t.directories = s.directories ∪ newDirectories data p ∧
      t.files = s.files ∪ newFiles data p := by
  cases h with
  | same _ _ _ hrefused =>
    obtain ⟨e, he⟩ := hrefused rfl
    exact absurd he (outcome_write_ne_error houtcome e)
  | @wrote _ _ _ _ p hparent hplace hcontents hdirectories hfiles hwrite =>
    have hfirst := Except.ok.inj (hwrite.symm.trans houtcome)
    exact ⟨p, hfirst, hparent, hplace, hcontents, hdirectories, hfiles⟩

/-- A cluster that an entry leads to is on the device. -/
theorem covers_of_lookup (hs : s.Healthy S) {parent : UInt32} {name : ShortName}
    (hparent : (S.contents s.volume).accepts parent = true → parent ∈ s.directories) {e : Entry}
    (hlookup : (S.contents s.volume).lookup parent name = .ok e) (hdir : e.isDirectory = true) :
    S.Covers e.cluster := by
  obtain ⟨haccepts, i, rfl, hused, -⟩ := exists_child_of_lookup hlookup
  obtain ⟨-, hmem, -⟩ := (hs.structured.sound parent (hparent haccepts) i hused).directory hdir
  exact Storage.covers_of_lt (isData_iff.mp (hs.structured.isData_of_mem (.inl hmem))).2

/-- The clusters taken by a write are those of its placement. -/
theorem taken_write {x : Contents} {directories files : Finset UInt32}
    (h : x.Structured directories files) {parent : UInt32} {name : ShortName} {data : Payload}
    {p : Placement} (hparent : parent ∈ directories)
    (hplace : place x.map (x.table parent) name data.size = .ok p) (hsize : data.size ≠ 0) :
    x.map.taken (x.applyAll (writeSteps parent (x.table parent) name data p)).map =
      newFiles data p := by
  have hfree := (placement_clusters hplace).2.2.1
  have hstored := stored_contentSteps hplace
  rw [h.applyAll_writeSteps hparent hplace, map_setEntry]
  ext c
  rw [mem_taken, mem_newFiles]
  constructor
  · rintro ⟨-, hbefore, hafter⟩
    refine ⟨hsize, ?_⟩
    by_contra hc
    rw [hstored.agree.entry c hc] at hafter
    exact hafter hbefore
  · rintro ⟨-, hc⟩
    have hlinked := (hstored.file hsize).1
    exact ⟨(hfree c hc).1, (hfree c hc).2,
      hlinked.get?_ne_unused (fun d hd => (hfree d hd).1) c hc⟩

/-- The clusters released by a delete are those of the chain. -/
theorem mem_released {m : AllocationMap} {start c : UInt32} (hlinked : m.Linked (m.chain start))
    (hnodup : (m.chain start).Nodup) :
    c ∈ (m.freeChain start).1.taken m ↔ c ∈ m.chain start := by
  rw [mem_taken, get?_freeChain_of_linked hlinked hnodup]
  constructor
  · rintro ⟨-, hbefore, hafter⟩
    by_contra hc
    rw [if_neg hc] at hbefore
    exact hafter hbefore
  · intro hc
    have hdata : ∀ d ∈ m.chain start, isData d = true := fun _ => isData_of_mem_chain
    exact ⟨hdata c hc, if_pos hc, hlinked.get?_ne_unused hdata c hc⟩

/-- What a session keeps when a delete releases a chain. -/
theorem sdiff_released {m n : AllocationMap} {start : UInt32} (hlinked : m.Linked (m.chain start))
    (hnodup : (m.chain start).Nodup) (hn : n = (m.freeChain start).1) (clusters : Finset UInt32) :
    clusters \ n.taken m = clusters.filter (· ∉ m.chain start) := by
  ext c
  rw [Finset.mem_sdiff, Finset.mem_filter, hn, mem_released hlinked hnodup]

theorem step_write (hs : s.Healthy S) {parent : UInt32} {name : ShortName} {data : Payload}
    (hparent : s.ParentsIn S (.write parent name data)) :
    ∃ t, s.step (.write parent name data) = .ok t ∧ S.Usable t.volume.disk ∧
      S.writesLeft t.volume.disk = none ∧ Effect S s (.write parent name data) t := by
  rcases Storage.write_spec hs.usable parent name data with
    ⟨e, d, hwrite, hd, -⟩ | ⟨p, done, rest, hplace, hdone, hadvance, hcontents, hend⟩
  · refine ⟨{ s with volume := ⟨d, s.volume.map⟩ }, ?_, hd.usable, ?_, ?_⟩
    · simp only [step, hwrite, refuse]
    · exact hd.writesLeft.trans hs.writes
    · exact .same (hd.contents _) rfl rfl fun _ => ⟨e, by
        simp only [Volume.outcome, Reply.discard, hwrite, refuse]
        rfl⟩
  · obtain ⟨hwrites, hrest⟩ := hadvance.writesLeft_eq_none hs.writes
    obtain ⟨rfl, houtcome⟩ | ⟨hne, -⟩ := hend
    · rw [List.append_nil] at hdone
      obtain ⟨haccepts, hplace⟩ := placement_eq_ok_iff.mp hplace
      have hmem := hparent parent rfl haccepts
      subst hdone
      by_cases hsize : data.size = 0
      · refine ⟨⟨_, insert p.first s.directories, s.files⟩, ?_, hadvance.usable, hwrites, ?_⟩
        · simp only [step, houtcome, if_pos hsize]
        · refine .wrote hmem hplace hcontents ?_ ?_ houtcome
          · rw [newDirectories, if_pos hsize, Finset.insert_eq, Finset.union_comm]
          · rw [newFiles, if_pos hsize, Finset.union_empty]
      · have htaken := taken_write hs.structured hmem hplace hsize
        rw [← hcontents, Storage.map_contents, Storage.map_contents] at htaken
        refine ⟨⟨_, s.directories, s.files ∪ newFiles data p⟩, ?_, hadvance.usable, hwrites, ?_⟩
        · simp only [step, houtcome, if_neg hsize, htaken]
        · refine .wrote hmem hplace hcontents ?_ rfl houtcome
          rw [newDirectories, if_neg hsize, Finset.union_empty]
    · exact absurd hrest hne

theorem step_delete (hs : s.Healthy S) {parent : UInt32} {name : ShortName}
    (hparent : s.ParentsIn S (.delete parent name)) :
    ∃ t, s.step (.delete parent name) = .ok t ∧ S.Usable t.volume.disk ∧
      S.writesLeft t.volume.disk = none ∧ Effect S s (.delete parent name) t := by
  have hrange : ∀ i, (S.contents s.volume).locate parent name = .ok i →
      ((S.contents s.volume).child parent i).isDirectory = true →
        S.Covers ((S.contents s.volume).child parent i).cluster := fun i hlocate hdir =>
    covers_of_lookup hs (hparent parent rfl) (exists_child_of_locate hlocate).2.2.2 hdir
  rcases Storage.delete_spec hs.usable parent name hrange with
    ⟨e, d, hdelete, hd, -⟩ | ⟨i, done, rest, hlocate, hdone, hadvance, hcontents, hend⟩
  · have hnone : s.volume.map.taken s.volume.map = ∅ := Finset.sdiff_self _
    refine ⟨{ s with volume := ⟨d, s.volume.map⟩ }, ?_, hd.usable, ?_, ?_⟩
    · simp only [step, hdelete, refuse, hnone, Finset.sdiff_empty]
    · exact hd.writesLeft.trans hs.writes
    · exact .same (hd.contents _) rfl rfl fun _ => ⟨e, by
        simp only [Volume.outcome, hdelete, refuse]⟩
  · obtain ⟨hwrites, hrest⟩ := hadvance.writesLeft_eq_none hs.writes
    obtain ⟨rfl, houtcome⟩ | ⟨hne, -⟩ := hend
    · rw [List.append_nil] at hdone
      obtain ⟨haccepts, hused, -, -⟩ := exists_child_of_locate hlocate
      have hmem := hparent parent rfl haccepts
      obtain ⟨hlinked, hnodup, -⟩ := hs.structured.extent hmem hused
      rw [Storage.map_contents] at hlinked hnodup
      have hmap : (s.volume.delete parent name).volume.map =
          (s.volume.map.freeChain ((S.contents s.volume).child parent i).cluster).1 := by
        have hmap := congrArg Contents.map hcontents
        rw [← hdone] at hmap
        exact hmap
      refine ⟨⟨_, _, _⟩, rfl, hadvance.usable, hwrites, ?_⟩
      subst hdone
      exact .deleted hmem hlocate hcontents (sdiff_released hlinked hnodup hmap _)
        (sdiff_released hlinked hnodup hmap _) houtcome
    · exact absurd hrest hne

/-- Every action has one of the three effects. -/
theorem step_effect (hs : s.Healthy S) (hparents : s.ParentsIn S a) :
    ∃ t, s.step a = .ok t ∧ S.Usable t.volume.disk ∧ S.writesLeft t.volume.disk = none ∧
      Effect S s a t := by
  have hsame {a : Action} {d : D} (hd : S.Unchanged s.volume.disk d)
      (hstep : s.step a = .ok { s with volume := ⟨d, s.volume.map⟩ })
      (hchanges : a.changes = false) :
      ∃ t, s.step a = .ok t ∧ S.Usable t.volume.disk ∧ S.writesLeft t.volume.disk = none ∧
        Effect S s a t := by
    refine ⟨_, hstep, hd.usable, hd.writesLeft.trans hs.writes, ?_⟩
    refine .same (hd.contents _) rfl rfl fun h => ?_
    rw [hchanges] at h
    contradiction
  cases a with
  | write parent name data => exact step_write hs hparents
  | delete parent name => exact step_delete hs hparents
  | read parent name capacity =>
    obtain ⟨d, hread, -, hd⟩ := Storage.readFile_eq hs.usable parent name capacity
    exact hsame hd (by simp only [step, hread]) rfl
  | readDirectory parent name capacity =>
    obtain ⟨d, hread, -, hd⟩ := Storage.readTable_eq hs.usable parent name capacity
      fun _ e => covers_of_lookup hs (hparents parent rfl)
    exact hsame hd (by simp only [step, hread]) rfl
  | stat parent name =>
    obtain ⟨d, hstat, hd⟩ := Storage.stat_eq hs.usable parent name
    exact hsame hd (by simp only [step, hstat]) rfl
  | remount =>
    obtain ⟨d, hmount, hd⟩ := Storage.mount_eq hs.usable hs.structured.signed
    have hreload := reload_eq hs.structured.saved
    rw [hreload] at hmount
    refine hsame hd ?_ rfl
    simp only [step, hmount, Mounting.volume]
    rfl

/-- Every action keeps a session healthy, if its parent is a directory whenever it is accepted. -/
theorem Healthy.step (hs : s.Healthy S) (hparents : s.ParentsIn S a) (h : s.step a = .ok t) :
    t.Healthy S ∧ Effect S s a t := by
  obtain ⟨u, hu, husable, hwrites, heffect⟩ := step_effect hs hparents
  obtain rfl := Except.ok.inj (hu.symm.trans h)
  exact ⟨⟨husable, hwrites, heffect.structured hs.structured⟩, heffect⟩

/-- An action on a directory is admitted. -/
theorem Healthy.admits (hs : s.Healthy S)
    (h : ∀ parent, a.parent? = some parent → parent ∈ s.directories) : s.Admits a :=
  fun parent hparent => Finset.disjoint_left.mp hs.structured.apart (h parent hparent)

/-- The parent of an admitted action is a directory whenever it is accepted. -/
theorem Admits.parentsIn (hs : s.Healthy S) (h : s.Admits a) : s.ParentsIn S a := by
  intro parent hparent haccepts
  exact (hs.structured.mem_of_accepts haccepts).resolve_right (h parent hparent)

end Session

end ClusterFs
