import ClusterFs.Proofs.Formats
import ClusterFs.Proofs.Ledger
import ClusterFs.Proofs.Persistence

/-!
Listings. A user program takes a table apart by walking over its slots, and the volume looks names
up in the table that it decoded. On every table both see the same children, and on a sound volume
these are the entries that were made in the directory and not deleted since.
-/
namespace ClusterFs

/-! ### The walk over the slots -/

namespace Entry

variable {raw : Cluster} {slot : Nat} {e f : Entry}

/-- A user program sees the used children of the decoded table, each in its slot. -/
theorem mem_children_iff : (slot, e) ∈ children raw.toArray ↔
    ∃ i : Fin 62, Directory.slotOf i = slot ∧ (Directory.decode raw).children.get i = e ∧
      e.isUsed = true := by
  rw [children_toArray, Directory.mem_listing]

/-- If no two used children carry one name, the walk meets no entry twice. -/
theorem nodup_children
    (hnames : ∀ i j, ((Directory.decode raw).children.get i).isUsed = true →
      ((Directory.decode raw).children.get j).isUsed = true →
      ((Directory.decode raw).children.get i).name = ((Directory.decode raw).children.get j).name →
      i = j) : ((children raw.toArray).map Prod.snd).Nodup := by
  rw [List.Nodup, List.pairwise_map]
  refine (increasing_children raw.toArray).imp_of_mem fun {a b} ha hb hlt heq => ?_
  obtain ⟨i, hi, hia, hused⟩ := mem_children_iff.mp ha
  obtain ⟨j, hj, hjb, -⟩ := mem_children_iff.mp hb
  rw [← hjb, ← hia] at heq
  rw [← hia] at hused
  obtain rfl := hnames i j hused (heq ▸ hused) (congrArg Entry.name heq)
  omega

end Entry

/-- A new table has no entries. -/
theorem Contents.lookup_ne_ok_of_create {x : Contents} {c : UInt32} {name n : ShortName} {e : Entry}
    (haccepts : x.accepts c = true) (htable : x.table c = Directory.create name c) :
    x.lookup c n ≠ .ok e := by
  rw [lookup_of_accepts haccepts, htable, Directory.find?_create]
  exact fun h => by cases h

namespace Contents.Structured
open AllocationMap Volume

variable {x : Contents} {directories files : Finset UInt32} {c p : UInt32} {i : Fin 62} {e : Entry}

/-- A used child of a directory is found under its name. -/
theorem lookup_child (h : x.Structured directories files) (hp : p ∈ directories)
    (hused : (x.child p i).isUsed = true) :
    x.lookup p (x.child p i).name = .ok (x.child p i) := by
  have hfind : (x.table p).find? (x.child p i).name = some i := by
    have hunique := fun j => h.names p hp j i
    simp only [child] at hused hunique ⊢
    exact Directory.find?_of_unique hused rfl fun j hj hname => hunique j hj hused hname
  simp only [lookup_of_accepts (h.accepts p hp), hfind]

/-- The walk over the slots of a directory finds the entries that a search by name finds. -/
theorem mem_children_iff_lookup (h : x.Structured directories files) (hc : c ∈ directories) :
    e ∈ (Entry.children (x.cluster c).toArray).map Prod.snd ↔ x.lookup c e.name = .ok e := by
  have hchild (i : Fin 62) : (Directory.decode (x.cluster c)).children.get i = x.child c i := by
    rw [child, table]
  simp only [List.mem_map, Prod.exists, exists_eq_right, Entry.mem_children_iff, hchild]
  constructor
  · rintro ⟨-, i, -, rfl, hused⟩
    exact h.lookup_child hc hused
  · intro hlookup
    obtain ⟨-, i, hi, hused, -⟩ := exists_child_of_lookup hlookup
    exact ⟨_, i, rfl, hi, hused⟩

/-- No entry of a directory is listed twice. -/
theorem nodup_children (h : x.Structured directories files) (hc : c ∈ directories) :
    ((Entry.children (x.cluster c).toArray).map Prod.snd).Nodup := by
  apply Entry.nodup_children
  intro i j
  have hnames := h.names c hc i j
  simp only [child, table] at hnames
  exact hnames

/-- A directory names its own cluster in slot 0. -/
theorem tableCluster_eq (h : x.Structured directories files) (hc : c ∈ directories) :
    Entry.tableCluster (x.cluster c) = c := by
  have hdescribes := (Bool.and_eq_true_iff.mp (h.accepts c hc)).2
  rw [table] at hdescribes
  simp only [Directory.describes, Bool.and_eq_true, beq_iff_eq] at hdescribes
  exact hdescribes.2

end Contents.Structured

namespace Volume

variable {D : Type} [BlockDevice D] {u v : Volume D} {c : UInt32} {table : Directory}

theorem stat_of_openDirectory (h : v.openDirectory c = (u, .ok table)) (name : ShortName) :
    v.stat c name = (u, .error .notFound) ∨ ∃ e, v.stat c name = (u, .ok e) := by
  simp only [stat, h]
  cases table.find? name with
  | none => exact .inl rfl
  | some i => exact .inr ⟨_, rfl⟩

/-- A request on a directory that can be opened is not refused for its parent. -/
theorem outcome_ne_invalidParent (h : (v.openDirectory c).2 = .ok table) {a : Action}
    (ha : a.parent? = some c) : v.outcome a ≠ .error .invalidParent := by
  obtain ⟨u, hopen⟩ : ∃ u, v.openDirectory c = (u, .ok table) := ⟨_, Prod.ext rfl h⟩
  have hstat := stat_of_openDirectory hopen
  cases a with
  | write parent name data =>
    obtain rfl : parent = c := Option.some.inj ha
    simp only [outcome, Reply.discard, write, hopen]
    cases hplace : place u.map table name data.size with
    | error e =>
      intro he
      obtain rfl := Except.error.inj he
      rcases place_error hplace with hcause | hcause | hcause <;> cases hcause
    | ok p =>
      simp only
      obtain ⟨w, _ | _⟩ := u.perform (writeSteps parent table name data p)
      · exact fun he => by cases he
      · exact fun he => by cases he
  | read parent name capacity =>
    obtain rfl : parent = c := Option.some.inj ha
    rcases hstat name with hstat | ⟨e, hstat⟩
    · simp only [outcome, Reply.discard, read, hstat]
      exact fun he => by cases he
    · simp only [outcome, Reply.discard, read, hstat]
      generalize readClusters u.disk _ #[] = got
      obtain ⟨d, bytes, _ | _⟩ := got
      · split_ifs <;> exact fun he => by cases he
      · split_ifs <;> exact fun he => by cases he
  | readDirectory parent name capacity =>
    obtain rfl : parent = c := Option.some.inj ha
    rcases hstat name with hstat | ⟨e, hstat⟩
    · simp only [outcome, readDirectory, hstat]
      exact fun he => by cases he
    · simp only [outcome, readDirectory, hstat]
      generalize readClusters u.disk _ #[] = got
      obtain ⟨d, bytes, _ | _⟩ := got
      · split_ifs <;> exact fun he => by cases he
      · split_ifs <;> exact fun he => by cases he
  | delete parent name =>
    obtain rfl : parent = c := Option.some.inj ha
    simp only [outcome, delete, hopen]
    cases table.find? name with
    | none => exact fun he => by cases he
    | some i =>
      simp only
      obtain ⟨w, _ | orphans⟩ := u.countOrphans (table.children.get i)
      · exact fun he => by cases he
      · simp only
        generalize Volume.perform (D := D) _ _ = performed
        obtain ⟨w, _ | _⟩ := performed
        · exact fun he => by cases he
        · exact fun he => by cases he
  | stat parent name =>
    obtain rfl : parent = c := Option.some.inj ha
    rcases hstat name with hstat | ⟨e, hstat⟩
    · simp only [outcome, hstat]
      exact fun he => by cases he
    · simp only [outcome, hstat]
      exact fun he => by cases he
  | remount => cases ha

end Volume

namespace Session
open AllocationMap Contents Volume

variable {D : Type} [BlockDevice D] {S : Storage D} {s t u s₀ : Session D} {a : Action}
  {actions : List Action} {c : UInt32} {e : Entry}

/-! ### Directories until they are released -/

/-- An action that does not release a cluster. -/
def Retains (c : UInt32) (s : Session D) (a : Action) (t : Session D) : Prop :=
  ∀ q n, a = .delete q n → c ∉ t.volume.map.taken s.volume.map

theorem Effect.mem_directories (h : Effect S s a t)
    (hs : (S.contents s.volume).Structured s.directories s.files) (hretains : s.Retains c a t)
    (hc : c ∈ s.directories) : c ∈ t.directories := by
  cases h with
  | same _ hdirectories _ _ => rwa [hdirectories]
  | wrote _ _ _ hdirectories _ _ => exact hdirectories ▸ Finset.mem_union_left _ hc
  | @deleted q n t i hq hlocate hcontents hdirectories _ _ =>
    obtain ⟨-, hused, -, -⟩ := exists_child_of_locate hlocate
    rw [hdirectories, Finset.mem_filter, ← mem_taken_of_deleted hs hq hused hcontents]
    exact ⟨hc, hretains q n rfl⟩

/-- A directory is a parent for every request until a delete releases it. -/
theorem Run.parent_accepted (hs : s.Healthy S) (hc : c ∈ s.directories)
    (h : Run (fun s a t => s.Admits a ∧ s.Retains c a t) s actions u) (ha : a.parent? = some c) :
    u.volume.outcome a ≠ .error .invalidParent := by
  obtain ⟨hu, hmem⟩ : u.Healthy S ∧ c ∈ u.directories := by
    apply h.invariant (motive := fun u => u.Healthy S ∧ c ∈ u.directories) ⟨hs, hc⟩
    rintro t u a ⟨ht, hmem⟩ hstep ⟨hadmits, hretains⟩
    obtain ⟨hu, heffect⟩ := ht.step (hadmits.parentsIn ht) hstep
    exact ⟨hu, heffect.mem_directories ht.structured hretains hmem⟩
  obtain ⟨d, hopen, -⟩ := Storage.openDirectory_eq hu.usable c
  rw [directory_of_accepts (hu.structured.accepts c hmem)] at hopen
  exact outcome_ne_invalidParent (congrArg Prod.snd hopen) ha

/-! ### What was made and not deleted -/

/-- One of the actions is a write that made the entry `e` in the directory `c`, and none of the
later ones deletes the entry or releases the directory. -/
def Made (s₀ : Session D) (actions : List Action) (s : Session D) (c : UInt32) (e : Entry) : Prop :=
  ∃ before r data first t after,
    actions = before ++ .write c e.name data :: after ∧
    Run (fun s a _ => s.Admits a) s₀ before r ∧ r.Admits (.write c e.name data) ∧
    (r.volume.write c e.name data).outcome = .ok first ∧ r.step (.write c e.name data) = .ok t ∧
    e = Entry.create e.name (kindFor data) (UInt32.ofNat data.size) first ∧
    Run (fun s a t => s.Admits a ∧ s.Spares c e.name a t) t after s

theorem Made.snoc (h : Made s₀ actions s c e) (hstep : s.step a = .ok t) (hadmits : s.Admits a)
    (hspares : s.Spares c e.name a t) : Made s₀ (actions ++ [a]) t c e := by
  obtain ⟨before, r, data, first, w, after, rfl, hbefore, hwrite, houtcome, hr, he, hafter⟩ := h
  exact ⟨before, r, data, first, w, after ++ [a], by simp, hbefore, hwrite, houtcome, hr, he,
    hafter.snoc hstep ⟨hadmits, hspares⟩⟩

/-- What is found after an action was made by it, or was found before and spared. -/
theorem Effect.lookup_cases (h : Effect S s a t)
    (hs : (S.contents s.volume).Structured s.directories s.files) (hc : c ∈ t.directories)
    (hlookup : (S.contents t.volume).lookup c e.name = .ok e) :
    (∃ data p, a = .write c e.name data ∧
      (s.volume.write c e.name data).outcome = .ok (Placement.first p) ∧
      e = newEntry e.name data p) ∨
    c ∈ s.directories ∧ (S.contents s.volume).lookup c e.name = .ok e ∧ s.Spares c e.name a t := by
  cases h with
  | same hcontents hdirectories _ hrefused =>
    rw [hdirectories] at hc
    rw [hcontents] at hlookup
    refine .inr ⟨hc, hlookup, ?_⟩
    rintro q n rfl
    -- the delete was refused, and the map is as before
    obtain ⟨cause, hcause⟩ := hrefused rfl
    have hmap : t.volume.map = s.volume.map := congrArg Contents.map hcontents
    refine ⟨fun hdeleted => ?_, ?_⟩
    · cases hcause.symm.trans hdeleted.2.2
    · rw [hmap, taken, Finset.sdiff_self]
      exact Finset.notMem_empty c
  | @wrote q n data t p hq hplace hcontents hdirectories _ houtcome =>
    rw [hcontents] at hlookup
    rw [hdirectories] at hc
    rcases Finset.mem_union.mp hc with hc | hnew
    · by_cases hsame : c = q ∧ e.name = n
      · obtain ⟨rfl, rfl⟩ := hsame
        have hentry := Except.ok.inj (hlookup.symm.trans (hs.lookup_write hq hplace))
        exact .inl ⟨data, p, rfl, houtcome, hentry⟩
      · rw [(hs.sameView_write hq hplace hc hsame).lookup] at hlookup
        exact .inr ⟨hc, hlookup, fun _ _ h => by cases h⟩
    · exact absurd hlookup (hs.lookup_newDirectory hq hplace hnew e)
  | @deleted q n t i hq hlocate hcontents hdirectories _ _ =>
    obtain ⟨-, hused, -, -⟩ := exists_child_of_locate hlocate
    rw [hdirectories] at hc
    obtain ⟨hc, hkept⟩ := Finset.mem_filter.mp hc
    have htaken := mem_taken_of_deleted (c := c) hs hq hused hcontents
    rw [hcontents] at hlookup
    by_cases hsame : c = q ∧ e.name = n
    · obtain ⟨rfl, rfl⟩ := hsame
      cases hlookup.symm.trans (hs.lookup_delete hlocate hq)
    · have hview := hs.sameView_delete hlocate hq hc hkept hsame
      refine .inr ⟨hc, hview.lookup.symm.trans hlookup, fun r m hdelete => ?_⟩
      obtain ⟨rfl, rfl⟩ := Action.delete.inj hdelete
      exact ⟨fun h => hsame ⟨h.1.symm, h.2.1.symm⟩, htaken.not.mpr hkept⟩

/-- In a run from a fresh session the entries of a directory are those that were made in it and not
deleted since. -/
theorem Run.lookup_iff_made {d : D} (hd : S.Usable d) (hwrites : S.writesLeft d = none)
    (hfresh : fresh d = .ok s₀) (h : Run (fun s a _ => s.Admits a) s₀ actions s)
    (hc : c ∈ s.directories) :
    (S.contents s.volume).lookup c e.name = .ok e ↔ Made s₀ actions s c e := by
  obtain ⟨d', hsession, hhealthy, htable⟩ := fresh_eq hd hwrites
  obtain rfl := Except.ok.inj (hsession.symm.trans hfresh)
  constructor
  · intro hlookup
    induction h with
    | nil =>
      -- the root of a fresh volume has no children
      obtain rfl := Finset.mem_singleton.mp hc
      exact absurd hlookup (lookup_ne_ok_of_create (hhealthy.structured.accepts _ hc) htable)
    | @snoc actions t u a hrun hstep hadmits ih =>
      have ht := hhealthy.run hrun
      obtain ⟨-, heffect⟩ := ht.step (hadmits.parentsIn ht) hstep
      rcases heffect.lookup_cases ht.structured hc hlookup with
        ⟨data, p, rfl, houtcome, hentry⟩ | ⟨hc, hlookup, hspares⟩
      · exact ⟨actions, t, data, _, u, [], rfl, hrun, hadmits, houtcome, hstep, hentry, .nil⟩
      · exact (ih hc hlookup).snoc hstep hadmits hspares
  · rintro ⟨before, r, data, first, t, after, -, hbefore, hadmits, houtcome, hstep, he, hafter⟩
    have hr := hhealthy.run hbefore
    obtain ⟨ht, heffect⟩ := hr.step (hadmits.parentsIn hr) hstep
    obtain ⟨p, rfl, hparent, hplace, hcontents, hdirectories, -⟩ := heffect.of_write_ok houtcome
    have hlookup := hr.structured.lookup_write hparent hplace
    rw [← hcontents, newEntry, ← he] at hlookup
    have hmem : c ∈ t.directories := hdirectories ▸ Finset.mem_union_left _ hparent
    obtain ⟨-, -, hview⟩ := hafter.sameView ht hmem hlookup
    exact hview.lookup.trans hlookup

/-! ### Listings -/

/-- A listing of a directory below a directory puts its table at the start of the buffer. -/
theorem Healthy.listing (hs : s.Healthy S) {p : UInt32} (hp : p ∈ s.directories) {i : Fin 62}
    (hused : ((S.contents s.volume).child p i).isUsed = true)
    (hdir : ((S.contents s.volume).child p i).isDirectory = true) {old : Array UInt8}
    (hroom : clusterSize ≤ old.size) :
    let child := (S.contents s.volume).child p i
    let r := s.volume.readDirectory p child.name old.size
    r.outcome = .ok () ∧ r.buffer old =
      ((S.contents s.volume).cluster child.cluster).toArray ++ old.extract clusterSize := by
  have hlookup := hs.structured.lookup_child hp hused
  have hcovers : ∀ e,
      (S.contents s.volume).lookup p ((S.contents s.volume).child p i).name = .ok e →
        e.isDirectory = true → S.Covers e.cluster :=
    fun e => covers_of_lookup hs fun _ => hp
  obtain ⟨d, -, hanswer, -⟩ := Storage.readTable_eq hs.usable p
    ((S.contents s.volume).child p i).name old.size fun _ => hcovers
  rw [readTable, hlookup] at hanswer
  simp only [hdir, Bool.not_true, Bool.false_eq_true, if_false, if_neg (Nat.not_lt.mpr hroom),
    Contents.bytes, Array.append_empty, Prod.mk.injEq] at hanswer
  refine ⟨hanswer.1, ?_⟩
  have hsize : ((S.contents s.volume).cluster
      ((S.contents s.volume).child p i).cluster).toArray.size = clusterSize := Vector.size_toArray _
  rw [Reply.buffer, hanswer.2, Image.patch_start (by rwa [hsize]), hsize]

/-- In every session that a run reaches from a formatted volume, and for every directory below a
directory: a listing into a buffer with room for a table succeeds and changes the start of the
buffer only. The table names its cluster, which every later request accepts as a parent until a
delete releases it. Its children come in the order of their slots, each once, and they are the
entries that `stat` finds in the directory, which are those made in it and not deleted since. -/
theorem listing_agrees {d : D} (hd : S.Usable d) (hwrites : S.writesLeft d = none) :
    ∃ s₀, fresh d = .ok s₀ ∧
      ∀ actions s, Run (fun s a _ => s.Admits a) s₀ actions s →
        ∀ p ∈ s.directories, ∀ i, ((S.contents s.volume).child p i).isUsed = true →
          ((S.contents s.volume).child p i).isDirectory = true →
          let name := ((S.contents s.volume).child p i).name
          let c := ((S.contents s.volume).child p i).cluster
          ∀ old : Array UInt8, clusterSize ≤ old.size →
            let r := s.volume.readDirectory p name old.size
            r.outcome = .ok () ∧
            ∃ table : Cluster, r.buffer old = table.toArray ++ old.extract clusterSize ∧
              Entry.tableCluster table = c ∧
              (∀ later u a, Run (fun s a t => s.Admits a ∧ s.Retains c a t) s later u →
                a.parent? = some c → u.volume.outcome a ≠ .error .invalidParent) ∧
              (Entry.children table.toArray).Pairwise (·.1 < ·.1) ∧
              ((Entry.children table.toArray).map Prod.snd).Nodup ∧
              ∀ e, (e ∈ (Entry.children table.toArray).map Prod.snd ↔
                  (s.volume.stat c e.name).2 = .ok e) ∧
                ((s.volume.stat c e.name).2 = .ok e ↔ Made s₀ actions s c e) := by
  obtain ⟨d', hfresh, hhealthy, -⟩ := fresh_eq hd hwrites
  refine ⟨_, hfresh, fun actions s hrun p hp i hused hdir old hroom => ?_⟩
  have hs := hhealthy.run hrun
  have hx := hs.structured
  obtain ⟨-, hc, -⟩ := (hx.sound p hp i hused).directory hdir
  obtain ⟨houtcome, hbuffer⟩ := hs.listing hp hused hdir hroom
  refine ⟨houtcome, _, hbuffer, hx.tableCluster_eq hc, fun later u a hlater => ?_,
    Entry.increasing_children _, hx.nodup_children hc, fun e => ?_⟩
  · exact hlater.parent_accepted hs hc
  · rw [Storage.stat_snd hs.usable]
    exact ⟨hx.mem_children_iff_lookup hc, hrun.lookup_iff_made hd hwrites hfresh hc⟩

/-- A first directory of a disk in memory is listed. -/
theorem first_directory_listed :
    ∃ s₀ s, fresh (MemoryDisk.create 512) = .ok s₀ ∧
      Run (fun s a _ => s.Admits a) s₀ [.write rootCluster (.ofParts [65] []) .empty] s ∧
      (s.volume.readDirectory rootCluster (.ofParts [65] []) clusterSize).outcome = .ok () := by
  have hd := MemoryDisk.usable_create (Nat.le_refl 512)
  obtain ⟨s₀, hfresh, hall⟩ := listing_agrees hd rfl
  obtain ⟨s, i, -, hrun, hs, hlocate, hdirectory⟩ :=
    exists_first_write hd rfl hfresh (.ofParts [65] []) .empty (by decide)
  obtain ⟨-, hused, hname, -⟩ := exists_child_of_locate hlocate
  have hlisted := hall _ s hrun rootCluster hs.structured.root_mem i hused hdirectory
    (Array.replicate clusterSize 0) (Nat.le_of_eq Array.size_replicate.symm)
  rw [hname, Array.size_replicate] at hlisted
  exact ⟨s₀, s, hfresh, hrun, hlisted.1⟩

end Session

end ClusterFs
