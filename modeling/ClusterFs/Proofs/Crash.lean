import ClusterFs.Proofs.WriteOutcome

/-!
Writes and deletes on a device that stops writing. Wherever it stops, mounting the device again
finds a structured volume on which every other name is as it was and the requested one is there or
not; clusters may be lost to a write that stopped, but none is used twice.
-/
namespace ClusterFs

/-- The clusters that a write puts to use before its entry is stored are found in use or free. -/
theorem Contents.Structured.write_cut {x : Contents} {directories files : Finset UInt32}
    (h : x.Structured directories files) {parent : UInt32} {table : Directory} {name : ShortName}
    {data : Payload} {p : Volume.Placement}
    (hplace : Volume.place x.map table name data.size = .ok p) {done rest : List Volume.Step}
    (hdone : Volume.writeSteps parent table name data p = done ++ rest) (hrest : rest ≠ []) :
    ∃ leaked, (x.applyAll done).reload.Structured directories (files ∪ leaked) ∧
      ∀ q ∈ directories, ∀ n, SameView q n x (x.applyAll done).reload := by
  obtain ⟨leaked, -, hstructured, hagree⟩ :=
    h.write_stopped hplace (Volume.contentSteps_eq_of_append hdone hrest)
  refine ⟨leaked, hstructured, fun q hq n => ?_⟩
  exact h.sameView_of_agreeOff hagree (Volume.placement_clusters hplace).2.2.1 hq

section

variable {D : Type} [BlockDevice D] {S : Storage D}

/-- Two volumes that give the same answers about a name. -/
structure Volume.SeenAlike (v w : Volume D) (q : UInt32) (n : ShortName) : Prop where
  stat : (w.stat q n).2 = (v.stat q n).2
  outcome : ∀ capacity, (w.read q n capacity).outcome = (v.read q n capacity).outcome
  filled : ∀ capacity, (w.read q n capacity).filled = (v.read q n capacity).filled

/-- Two volumes that hold the same under a name: they give the same answers about it, a listing
included, and if it is the name of a directory, about every name in that directory. -/
structure Volume.HeldAlike (v w : Volume D) (q : UInt32) (n : ShortName) : Prop where
  seen : v.SeenAlike w q n
  outcome : ∀ capacity,
    (w.readDirectory q n capacity).outcome = (v.readDirectory q n capacity).outcome
  filled : ∀ capacity,
    (w.readDirectory q n capacity).filled = (v.readDirectory q n capacity).filled
  children : ∀ e, (v.stat q n).2 = .ok e → e.isDirectory = true → ∀ m, v.SeenAlike w e.cluster m

/-- Mounting a device, which is not formatted for it, gives a volume. -/
structure Storage.Mounts (S : Storage D) (e : D) (w : Volume D) : Prop where
  mount : Volume.mount e = ⟨w.disk, .ok w.map, [.mounted w.map.freeCount]⟩
  unchanged : S.Unchanged e w.disk

/-- A device is mounted in one way. -/
theorem Storage.Mounts.unique {v w : Volume D} {e : D} (hv : S.Mounts e v) (hw : S.Mounts e w) :
    v = w := by
  obtain ⟨hdisk, hmap, -⟩ := Volume.Mounting.mk.inj (hv.mount.symm.trans hw.mount)
  obtain ⟨disk, map⟩ := v
  obtain rfl : disk = w.disk := hdisk
  obtain rfl : map = w.map := Except.ok.inj hmap
  rfl

theorem Storage.seenAlike {v w : Volume D} (hv : S.Usable v.disk) (hw : S.Usable w.disk)
    {q : UInt32} {n : ShortName} (h : (S.contents v).SameView q n (S.contents w)) :
    v.SeenAlike w q n := by
  have hread (capacity : Nat) := (read_answer hw q n capacity).trans
    ((h.readFile capacity).trans (read_answer hv q n capacity).symm)
  constructor
  · rw [stat_snd hv, stat_snd hw, h.lookup]
  · exact fun capacity => (Prod.mk.inj (hread capacity)).1
  · exact fun capacity => (Prod.mk.inj (hread capacity)).2

/-- Volumes with the same contents hold the same under a name, if what it leads to is on their
devices. -/
theorem Storage.heldAlike {v w : Volume D} (hv : S.Usable v.disk) (hw : S.Usable w.disk)
    (hx : S.contents w = S.contents v) {q : UInt32} {n : ShortName}
    (hrange : ∀ e, (S.contents v).lookup q n = .ok e → e.isDirectory = true → S.Covers e.cluster) :
    v.HeldAlike w q n := by
  have hsame (q : UInt32) (n : ShortName) : v.SeenAlike w q n := by
    refine seenAlike hv hw ?_
    rw [hx]
    exact .refl ..
  have hlist (capacity : Nat) :
      ((w.readDirectory q n capacity).outcome, (w.readDirectory q n capacity).filled) =
        ((v.readDirectory q n capacity).outcome, (v.readDirectory q n capacity).filled) := by
    obtain ⟨-, -, hbefore, -⟩ := readTable_eq hv q n capacity fun _ => hrange
    obtain ⟨-, -, hafter, -⟩ := readTable_eq hw q n capacity fun _ => hx.symm ▸ hrange
    rw [hafter, hbefore, hx]
  exact ⟨hsame q n, fun capacity => (Prod.mk.inj (hlist capacity)).1,
    fun capacity => (Prod.mk.inj (hlist capacity)).2, fun e _ _ m => hsame e.cluster m⟩

/-- A device with the bytes of a volume whose contents are structured, once the map is taken from
the device, is mounted with these contents. -/
theorem Storage.exists_mounts {v : Volume D} {e : D} (he : S.Usable e)
    (himage : S.image e = S.image v.disk) {directories files : Finset UInt32}
    (h : (S.contents v).reload.Structured directories files) :
    ∃ w, S.Mounts e w ∧ S.contents w = (S.contents v).reload := by
  have hcontents : S.contents ⟨e, v.map⟩ = S.contents v := by
    simp only [contents, himage]
  have hsigned : (S.contents v).boot = BootSector.signature := by
    have hsigned := h.signed
    rwa [Contents.boot_reload] at hsigned
  rw [← hcontents] at hsigned
  obtain ⟨d, hmount, hd⟩ := mount_eq (v := ⟨e, v.map⟩) he hsigned
  rw [hcontents] at hmount
  refine ⟨⟨d, (S.contents v).reload.map⟩, ⟨hmount, hd⟩, ?_⟩
  rw [hd.contents, Contents.reload, ← hcontents]
  rfl

end

namespace Session
open AllocationMap Contents

variable {D : Type} [BlockDevice D] {S : Storage D} {s : Session D} {d e : D} {parent : UInt32}
  {name : ShortName} {data : Payload}

/-- What is found on the device after a write, which may have failed. -/
structure WriteSurvives (S : Storage D) (s : Session D) (parent : UInt32) (name : ShortName)
    (data : Payload) (outcome : Except FsError UInt32) (w : Volume D) : Prop where
  others : ∀ q ∈ s.directories, ∀ n, ¬ (q = parent ∧ n = name) → s.volume.SeenAlike w q n
  written : ∀ first, outcome = .ok first →
    (∃ e, (w.stat parent name).2 = .ok e ∧
      e.Registers name (if data.size = 0 then 0x10 else 0) data.size first) ∧
    (0 < data.size → ∀ capacity,
      ((w.read parent name capacity).outcome, (w.read parent name capacity).filled) =
        fileAnswer data capacity)
  absent : ∀ cause, outcome = .error (.device cause) → (w.stat parent name).2 = .error .notFound
  refused : ∀ cause, outcome = .error cause → (∀ e, cause ≠ .device e) →
    s.volume.HeldAlike w parent name
  structured : ∃ directories files, (S.contents w).Structured directories files ∧
    s.directories ⊆ directories ∧ s.files ⊆ files

/-- A volume with the contents of a healthy session holds the same under every name in a directory
that it accepts. -/
theorem Healthy.heldAlike (hs : s.Healthy S)
    (hparent : (S.contents s.volume).accepts parent = true → parent ∈ s.directories)
    {w : Volume D} (hw : S.Mounts e w) (hx : S.contents w = S.contents s.volume) :
    s.volume.HeldAlike w parent name :=
  Storage.heldAlike hs.usable hw.unchanged.usable hx fun _ => covers_of_lookup hs hparent

/-- A healthy session whose device holds other contents is mounted with these. -/
theorem Healthy.exists_mounts (hs : s.Healthy S) {v : Volume D} {e : D} (he : S.Usable e)
    (himage : S.image e = S.image v.disk) {x : Contents} (hreload : (S.contents v).reload = x)
    {directories files : Finset UInt32} (hx : x.Structured directories files) :
    ∃ w, S.Mounts e w ∧ S.contents w = x ∧ (S.contents w).Structured directories files ∧
      ∀ {q n}, SameView q n (S.contents s.volume) x → s.volume.SeenAlike w q n := by
  subst hreload
  obtain ⟨w, hw, hwx⟩ := Storage.exists_mounts he himage hx
  rw [← hwx] at hx
  refine ⟨w, hw, hwx, hx, fun h => ?_⟩
  rw [← hwx] at h
  exact Storage.seenAlike hs.usable hw.unchanged.usable h

/-- A write that is refused and leaves what is on the device. -/
theorem WriteSurvives.of_refused {w : Volume D} {cause : FsError} (hcause : ∀ e, cause ≠ .device e)
    (hseen : ∀ q n, s.volume.SeenAlike w q n) (hheld : s.volume.HeldAlike w parent name)
    (hmounted : (S.contents w).Structured s.directories s.files) :
    WriteSurvives S s parent name data (.error cause) w where
  others q _ n _ := hseen q n
  written first hok := by cases hok
  absent e hdevice := absurd (Except.error.inj hdevice) (hcause e)
  refused _ _ _ := hheld
  structured := ⟨_, _, hmounted, subset_rfl, subset_rfl⟩

theorem write_survives (hs : s.Healthy S) (hadmits : s.Admits (.write parent name data))
    (hd : S.Usable d) (himage : S.image d = S.image s.volume.disk) (he : S.Usable e)
    (hsame : S.image e =
      S.image ((⟨d, s.volume.map⟩ : Volume D).write parent name data).volume.disk) :
    ∃ w, S.Mounts e w ∧ WriteSurvives S s parent name data
      ((⟨d, s.volume.map⟩ : Volume D).write parent name data).outcome w := by
  have hx : S.contents ⟨d, s.volume.map⟩ = S.contents s.volume := by
    simp only [Storage.contents, himage]
  have hstructured := hs.structured
  rcases Storage.write_spec (v := ⟨d, s.volume.map⟩) hd parent name data with
    ⟨cause, d', hwrite, hd', hplace⟩ | ⟨p, done, rest, hplace, hdone, -, hcontents, hend⟩
  · -- a write that is refused leaves the device
    rw [hwrite] at hsame ⊢
    have hreload : (S.contents ⟨d', s.volume.map⟩).reload = S.contents s.volume := by
      rw [hd'.contents, hx, reload_eq hstructured.saved]
    obtain ⟨w, hw, hwx, hmounted, hseen⟩ := hs.exists_mounts he hsame hreload hstructured
    have hcause (e : DiskError) : cause ≠ .device e := by
      rintro rfl
      exact placement_ne_device e hplace
    exact ⟨w, hw, .of_refused hcause (fun _ _ => hseen (.refl ..))
      (hs.heldAlike (hadmits.parentsIn hs parent rfl) hw hwx) hmounted⟩
  · obtain ⟨haccepts, hplace⟩ := placement_eq_ok_iff.mp hplace
    rw [hx] at haccepts hplace hdone hcontents
    have hparent := hadmits.parentsIn hs parent rfl haccepts
    rcases hend with ⟨rfl, houtcome⟩ | ⟨hrest, houtcome⟩
    · -- the write was carried out
      rw [List.append_nil] at hdone
      subst hdone
      have hwritten := hstructured.write hparent hplace
      have hreload := (congrArg reload hcontents).trans (reload_eq hwritten.saved)
      obtain ⟨w, hw, hwx, hmounted, hseen⟩ := hs.exists_mounts he hsame hreload hwritten
      refine ⟨w, hw, fun q hq n hne => hseen (hstructured.sameView_write hparent hplace hq hne),
        fun first hok => ⟨?_, fun hsize capacity => ?_⟩, fun e hdevice => ?_,
        fun cause herror _ => ?_,
        _, _, hmounted, Finset.subset_union_left, Finset.subset_union_left⟩
      · obtain rfl := Except.ok.inj (houtcome.symm.trans hok)
        refine ⟨Volume.newEntry name data p, ?_, registers_newEntry name ?_ p⟩
        · rw [Storage.stat_snd hw.unchanged.usable, hwx, hstructured.lookup_write hparent hplace]
        · exact (Volume.place_spec hplace).2.2.1
      · rw [Storage.read_answer hw.unchanged.usable, hwx]
        exact hstructured.readFile_write hparent hplace (Nat.ne_of_gt hsize) capacity
      · rw [houtcome] at hdevice
        cases hdevice
      · rw [houtcome] at herror
        cases herror
    · -- the write stopped before its entry was stored
      obtain ⟨leaked, hcut, hview⟩ := hstructured.write_cut hplace hdone hrest
      have hreload := congrArg reload hcontents
      obtain ⟨w, hw, hwx, hmounted, hseen⟩ := hs.exists_mounts he hsame hreload hcut
      refine ⟨w, hw, fun q hq n _ => hseen (hview q hq n), fun first hok => ?_, fun e _ => ?_,
        fun cause herror hne => ?_, _, _, hmounted, subset_rfl, Finset.subset_union_left⟩
      · rw [houtcome] at hok
        cases hok
      · rw [Storage.stat_snd hw.unchanged.usable, hwx, (hview parent hparent name).lookup,
          lookup_of_place haccepts hplace]
      · rw [houtcome] at herror
        exact absurd (Except.error.inj herror).symm (hne .fault)

/-- Whether a cluster is the directory that a delete would release. -/
def Removes (s : Session D) (parent : UInt32) (name : ShortName) (q : UInt32) : Prop :=
  ∃ e, (s.volume.stat parent name).2 = .ok e ∧ e.isDirectory = true ∧ e.cluster = q

/-- What is found on the device after a delete, which may have failed. -/
structure DeleteSurvives (S : Storage D) (s : Session D) (parent : UInt32) (name : ShortName)
    (outcome : Except FsError Unit) (w : Volume D) : Prop where
  others : ∀ q ∈ s.directories, ¬ s.Removes parent name q → ∀ n, ¬ (q = parent ∧ n = name) →
    s.volume.SeenAlike w q n
  deleted : outcome = .ok () → (w.stat parent name).2 = .error .notFound
  stopped : ∀ cause, outcome = .error (.device cause) →
    (w.stat parent name).2 = .error .notFound ∨ s.volume.HeldAlike w parent name
  refused : ∀ cause, outcome = .error cause → (∀ e, cause ≠ .device e) →
    s.volume.HeldAlike w parent name
  structured : ∃ directories files, (S.contents w).Structured directories files ∧
    (∀ q ∈ s.directories, ¬ s.Removes parent name q → q ∈ directories) ∧
    directories ⊆ s.directories ∧ files ⊆ s.files

/-- A delete that fails and leaves what is on the device. -/
theorem DeleteSurvives.of_unchanged {outcome : Except FsError Unit} {w : Volume D} {cause : FsError}
    (herror : outcome = .error cause) (hseen : ∀ q n, s.volume.SeenAlike w q n)
    (hheld : s.volume.HeldAlike w parent name)
    (hmounted : (S.contents w).Structured s.directories s.files) :
    DeleteSurvives S s parent name outcome w where
  others q _ _ n _ := hseen q n
  deleted hok := by
    rw [herror] at hok
    cases hok
  stopped _ _ := .inr hheld
  refused _ _ _ := hheld
  structured := ⟨_, _, hmounted, fun _ hq _ => hq, subset_rfl, subset_rfl⟩

/-- A directory that a delete does not remove is not on the chain that it releases. -/
theorem notMem_chain (hs : s.Healthy S) {i : Fin 62} {q : UInt32}
    (hlocate : (S.contents s.volume).locate parent name = .ok i) (hparent : parent ∈ s.directories)
    (hq : q ∈ s.directories) (hkept : ¬ s.Removes parent name q) :
    q ∉ s.volume.map.chain ((S.contents s.volume).child parent i).cluster := by
  obtain ⟨-, hused, -, hlookup⟩ := exists_child_of_locate hlocate
  have hsound := hs.structured.sound parent hparent i hused
  cases hdir : ((S.contents s.volume).child parent i).isDirectory with
  | true =>
    obtain ⟨-, hmem, -⟩ := hsound.directory hdir
    have hchain := chain_of_accepts (hs.structured.accepts _ hmem)
    rw [Storage.map_contents] at hchain
    rw [hchain, List.mem_singleton]
    rintro rfl
    exact hkept ⟨_, (Storage.stat_snd hs.usable parent name).trans hlookup, hdir, rfl⟩
  | false =>
    obtain ⟨-, -, -, -, hfiles⟩ := hsound.file hdir
    exact fun hmem => Finset.disjoint_left.mp hs.structured.apart hq (hfiles q hmem)

theorem delete_survives (hs : s.Healthy S) (hadmits : s.Admits (.delete parent name))
    (hd : S.Usable d) (himage : S.image d = S.image s.volume.disk) (he : S.Usable e)
    (hsame : S.image e =
      S.image ((⟨d, s.volume.map⟩ : Volume D).delete parent name).volume.disk) :
    ∃ w, S.Mounts e w ∧ DeleteSurvives S s parent name
      ((⟨d, s.volume.map⟩ : Volume D).delete parent name).outcome w := by
  have hx : S.contents ⟨d, s.volume.map⟩ = S.contents s.volume := by
    simp only [Storage.contents, himage]
  have hstructured := hs.structured
  have hparents := hadmits.parentsIn hs parent rfl
  have hrange : ∀ i, (S.contents ⟨d, s.volume.map⟩).locate parent name = .ok i →
      ((S.contents ⟨d, s.volume.map⟩).child parent i).isDirectory = true →
        S.Covers ((S.contents ⟨d, s.volume.map⟩).child parent i).cluster := by
    rw [hx]
    exact fun i hlocate hdir =>
      covers_of_lookup hs hparents (exists_child_of_locate hlocate).2.2.2 hdir
  rcases Storage.delete_spec (v := ⟨d, s.volume.map⟩) hd parent name hrange with
    ⟨cause, d', hdelete, hd', -⟩ | ⟨i, done, rest, hlocate, hdone, -, hcontents, hend⟩
  · -- a delete that is refused leaves the device
    rw [hdelete] at hsame ⊢
    have hreload : (S.contents ⟨d', s.volume.map⟩).reload = S.contents s.volume := by
      rw [hd'.contents, hx, reload_eq hstructured.saved]
    obtain ⟨w, hw, hwx, hmounted, hseen⟩ := hs.exists_mounts he hsame hreload hstructured
    exact ⟨w, hw, .of_unchanged rfl (fun _ _ => hseen (.refl ..)) (hs.heldAlike hparents hw hwx)
      hmounted⟩
  · rw [hx] at hlocate hdone hcontents
    have hparent := hparents (exists_child_of_locate hlocate).1
    have hused := (exists_child_of_locate hlocate).2.1
    rcases hend with ⟨rfl, houtcome⟩ | ⟨hrest, houtcome⟩
    · -- the delete was carried out
      rw [List.append_nil] at hdone
      subst hdone
      have hdeleted := hstructured.delete hparent hused
      have hreload := (congrArg reload hcontents).trans (reload_eq hdeleted.saved)
      obtain ⟨w, hw, hwx, hmounted, hseen⟩ := hs.exists_mounts he hsame hreload hdeleted
      refine ⟨w, hw, fun q hq hkept n hne => hseen ?_, fun _ => ?_, fun e hdevice => ?_,
        fun cause herror _ => ?_, _, _, hmounted, fun q hq hkept => ?_, Finset.filter_subset _ _,
        Finset.filter_subset _ _⟩
      · exact hstructured.sameView_delete hlocate hparent hq
          (notMem_chain hs hlocate hparent hq hkept) hne
      · rw [Storage.stat_snd hw.unchanged.usable, hwx]
        exact hstructured.lookup_delete hlocate hparent
      · rw [houtcome] at hdevice
        cases hdevice
      · rw [houtcome] at herror
        cases herror
      · exact Finset.mem_filter.mpr ⟨hq, notMem_chain hs hlocate hparent hq hkept⟩
    · -- the delete stopped before the map was saved, and the clusters stay in use
      rcases delete_stopped hstructured.saved (hstructured.ne_mapCluster hparent) _ hdone hrest with
        hcut | hcut
      · obtain ⟨w, hw, hwx, hmounted, hseen⟩ :=
          hs.exists_mounts he hsame ((congrArg reload hcontents).trans hcut) hstructured
        exact ⟨w, hw, .of_unchanged houtcome (fun _ _ => hseen (.refl ..))
          (hs.heldAlike hparents hw hwx) hmounted⟩
      · obtain ⟨w, hw, hwx, hmounted, hseen⟩ := hs.exists_mounts he hsame
          ((congrArg reload hcontents).trans hcut) (hstructured.erase hparent i)
        have habsent : (w.stat parent name).2 = .error .notFound := by
          rw [Storage.stat_snd hw.unchanged.usable, hwx, hstructured.lookup_erase hlocate hparent]
        refine ⟨w, hw, fun q hq _ n hne => ?_, fun _ => habsent, fun e _ => .inl habsent,
          fun cause herror hne => ?_, _, _, hmounted, fun q hq _ => hq, subset_rfl, subset_rfl⟩
        · exact hseen (hstructured.sameView_erase hlocate hparent hq hne)
        · rw [houtcome] at herror
          exact absurd (Except.error.inj herror).symm (hne .fault)

/-- In every session that a run reaches from a formatted volume, a write or a delete on a device
that takes only so many more writes leaves it such that mounting it again shows the request done or
not done, everything else as it was, and a structured volume. -/
theorem crash_consistent {d : D} (hd : S.Usable d) (hwrites : S.writesLeft d = none) :
    ∃ s₀, fresh d = .ok s₀ ∧
      ∀ actions s, Run (fun s a _ => s.Admits a) s₀ actions s →
        ∀ k (d' e : D), S.Usable d' → S.image d' = S.image s.volume.disk →
          S.writesLeft d' = some k → S.Usable e →
          (∀ parent name data, s.Admits (.write parent name data) →
            let r := (⟨d', s.volume.map⟩ : Volume D).write parent name data
            S.image e = S.image r.volume.disk →
              ∃ w, S.Mounts e w ∧ WriteSurvives S s parent name data r.outcome w) ∧
          ∀ parent name, s.Admits (.delete parent name) →
            let r := (⟨d', s.volume.map⟩ : Volume D).delete parent name
            S.image e = S.image r.volume.disk →
              ∃ w, S.Mounts e w ∧ DeleteSurvives S s parent name r.outcome w := by
  obtain ⟨_, hfresh, hhealthy, -⟩ := fresh_eq hd hwrites
  refine ⟨_, hfresh, fun actions s hrun k d' e hd' himage _ he => ?_⟩
  have hs := hhealthy.run hrun
  exact ⟨fun parent name data hadmits hsame => write_survives hs hadmits hd' himage he hsame,
    fun parent name hadmits hsame => delete_survives hs hadmits hd' himage he hsame⟩

/-- Where a stopped request changed only the map in memory, the next mount finds what was there. -/
theorem Healthy.contents_mounted (hs : s.Healthy S) {v w : Volume D} {m : AllocationMap}
    (he : S.Usable e) (himage : S.image e = S.image v.disk)
    (hv : S.contents v = (S.contents s.volume).withMap m) (hw : S.Mounts e w) :
    S.contents w = S.contents s.volume := by
  have hreload : (S.contents v).reload = S.contents s.volume := by
    rw [hv, reload_withMap, reload_eq hs.structured.saved]
  obtain ⟨u, hu, hcontents⟩ := Storage.exists_mounts he himage (hreload ▸ hs.structured)
  rw [hw.unique hu, hcontents, hreload]

/-- A file of one byte whose data and map reach the disk, but not its entry; and a directory whose
delete reaches nothing of the disk. -/
theorem first_requests_stopped :
    ∃ s₀ r w s t u, fresh (MemoryDisk.create 512) = .ok s₀ ∧
      (s₀.on (s₀.volume.disk.failWritesAfter (some 2))).volume.write
        rootCluster (.ofParts [65] []) (.ofArray #[7]) = r ∧
      r.outcome = .error (.device .fault) ∧
      MemoryDisk.storage.Mounts (r.volume.disk.failWritesAfter none) w ∧
      (w.stat rootCluster (.ofParts [65] [])).2 = .error .notFound ∧
      Run (fun s a _ => s.Admits a) s₀ [.write rootCluster (.ofParts [66] []) .empty] s ∧
      (s.on (s.volume.disk.failWritesAfter (some 0))).volume.delete
        rootCluster (.ofParts [66] []) = t ∧
      t.outcome = .error (.device .fault) ∧
      MemoryDisk.storage.Mounts (t.volume.disk.failWritesAfter none) u ∧
      (∃ e, (s.volume.stat rootCluster (.ofParts [66] [])).2 = .ok e ∧ e.isDirectory = true) ∧
      s.volume.HeldAlike u rootCluster (.ofParts [66] []) := by
  have hd := MemoryDisk.usable_create (Nat.le_refl 512)
  obtain ⟨s₀, hfresh, hall⟩ := crash_consistent hd rfl
  obtain ⟨s, i, -, hrun, hs, hlocate, hdirectory⟩ :=
    exists_first_write hd rfl hfresh (.ofParts [66] []) .empty (by decide)
  -- the whole write takes three writes to the disk
  obtain ⟨e, hfresh', hs₀, htable⟩ := fresh_eq hd rfl
  obtain rfl := Except.ok.inj (hfresh'.symm.trans hfresh)
  have hsize : requiredClusters (Payload.ofArray #[7]).size ≤ 509 := by decide
  have hplace := Volume.place_formatted Volume.rootName (.ofParts [65] []) rootCluster hsize
  rw [← htable] at hplace
  have hd₂ := MemoryDisk.usable_failWritesAfter hs₀.usable (some 2)
  have hleft₂ := MemoryDisk.writesLeft_failWritesAfter e 2
  obtain ⟨hfault, hafter⟩ := hs₀.write_unfinished (Finset.mem_singleton_self _) hplace hd₂
    (MemoryDisk.image_failWritesAfter e (some 2)) hleft₂
    (by rw [Volume.storesAll_writeSteps _ _ _ (by decide)]; decide)
  have hwrite := (hall [] _ .nil 2 _ _ hd₂ (MemoryDisk.image_failWritesAfter e (some 2)) hleft₂
    (MemoryDisk.usable_failWritesAfter hafter none)).1 rootCluster (.ofParts [65] [])
      (.ofArray #[7]) (hs₀.admits_root _ _)
  dsimp only [on] at hwrite hfault ⊢
  generalize hr : (⟨e.failWritesAfter (some 2), formatted⟩ : Volume MemoryDisk).write
    rootCluster (.ofParts [65] []) (.ofArray #[7]) = r at hwrite hfault
  obtain ⟨w, hw, hwrite⟩ := hwrite (MemoryDisk.image_failWritesAfter _ none)
  -- the delete takes none
  have hd₀ := MemoryDisk.usable_failWritesAfter hs.usable (some 0)
  have hleft₀ := MemoryDisk.writesLeft_failWritesAfter s.volume.disk 0
  obtain ⟨hunstored, hkept, hcontents⟩ := hs.delete_unstored hs.structured.root_mem hlocate hd₀
    (MemoryDisk.image_failWritesAfter s.volume.disk (some 0)) hleft₀
  have hlast := MemoryDisk.usable_failWritesAfter hkept none
  have hdelete := (hall _ s hrun 0 _ _ hd₀ (MemoryDisk.image_failWritesAfter s.volume.disk (some 0))
    hleft₀ hlast).2 rootCluster (.ofParts [66] [])
      (hs.admits fun _ h => Option.some.inj h ▸ hs.structured.root_mem)
  dsimp only [on] at hdelete hunstored hcontents hlast
  generalize ht : (⟨s.volume.disk.failWritesAfter (some 0), s.volume.map⟩ :
    Volume MemoryDisk).delete rootCluster (.ofParts [66] []) = t at *
  obtain ⟨u, hu, hdelete⟩ := hdelete (MemoryDisk.image_failWritesAfter _ none)
  have hfound : (s.volume.stat rootCluster (.ofParts [66] [])).2 =
      .ok ((MemoryDisk.storage.contents s.volume).child rootCluster i) :=
    (Storage.stat_snd hs.usable ..).trans (exists_child_of_locate hlocate).2.2.2
  have hsame := hs.contents_mounted hlast (MemoryDisk.image_failWritesAfter _ none) hcontents hu
  have hpresent : (u.stat rootCluster (.ofParts [66] [])).2 ≠ .error .notFound := by
    rw [Storage.stat_snd hu.unchanged.usable, hsame, ← Storage.stat_snd hs.usable, hfound]
    exact nofun
  exact ⟨_, r, w, s, t, u, hfresh, hr, hfault, hw, hwrite.absent .fault hfault, hrun, ht, hunstored,
    hu, ⟨_, hfound, hdirectory⟩, (hdelete.stopped .fault hunstored).resolve_left hpresent⟩

end Session

end ClusterFs
