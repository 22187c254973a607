import ClusterFs.Proofs.Operations
import ClusterFs.Proofs.Session
import ClusterFs.Volume.Serve

/-!
Requests taken apart, on any device. A write and a delete open the parent, may be refused, and
otherwise carry out a list of steps as far as the device lets them. What a request answers with is
its outcome and the bytes put into the caller's buffer.
-/
namespace ClusterFs

/-- What the caller of a request, or of a new mount, gets to see. -/
inductive Answer where
  | write (outcome : Except FsError UInt32)
  | read (outcome : Except FsError UInt32) (filled : Array UInt8)
  | readDirectory (outcome : Except FsError Unit) (filled : Array UInt8)
  | delete (outcome : Except FsError Unit)
  | stat (outcome : Except FsError Entry)
  | remount (outcome : Except DiskError Unit)

namespace Volume

variable {D : Type} [BlockDevice D]

def answer (v : Volume D) : Action → Answer
  | .write parent name data => .write (v.write parent name data).outcome
  | .read parent name capacity =>
    .read (v.read parent name capacity).outcome (v.read parent name capacity).filled
  | .readDirectory parent name capacity =>
    .readDirectory (v.readDirectory parent name capacity).outcome
      (v.readDirectory parent name capacity).filled
  | .delete parent name => .delete (v.delete parent name).outcome
  | .stat parent name => .stat (v.stat parent name).2
  | .remount => .remount ((mount v.disk).map.map fun _ => ())

/-- Whether a cluster may be taken by a write. -/
def Free (v : Volume D) (c : UInt32) : Prop :=
  AllocationMap.isData c = true ∧ v.map.get? c = some AllocationMap.unused

omit [BlockDevice D] in
theorem Reply.discard_eq_error_iff {α : Type} {r : Reply D α} {e : FsError} :
    r.discard.outcome = .error e ↔ r.outcome = .error e := by
  unfold discard
  cases r.outcome with
  | ok a => exact iff_of_false (fun h => by cases h) (fun h => by cases h)
  | error cause => exact ⟨fun h => congrArg _ (Except.error.inj h), fun h => h ▸ rfl⟩

/-- The outcome of a request whose steps ended so. -/
def finish {α : Type} (value : α) : Except DiskError Unit → Except FsError α
  | .ok () => .ok value
  | .error e => .error (.device e)

/-- What each step keeps, whether or not it succeeds, holds wherever a list of them ends. -/
theorem perform_invariant {motive : Volume D → Prop} {steps : List Step} {v : Volume D}
    (hstep : ∀ step ∈ steps, ∀ u, motive u → motive (step.apply u).1) (hv : motive v) :
    motive (v.perform steps).1 := by
  induction steps generalizing v with
  | nil => exact hv
  | cons step steps ih =>
    have happlied := hstep step (by simp) v hv
    unfold perform
    generalize step.apply v = applied at happlied
    obtain ⟨u, _ | _⟩ := applied
    · exact happlied
    · exact ih (fun s hs => hstep s (List.mem_cons_of_mem _ hs)) happlied

theorem perform_append (v : Volume D) (steps rest : List Step) :
    v.perform (steps ++ rest) =
      match v.perform steps with
      | (u, .error e) => (u, .error e)
      | (u, .ok ()) => u.perform rest := by
  induction steps generalizing v with
  | nil => rfl
  | cons step steps ih =>
    simp only [List.cons_append, perform]
    obtain ⟨u, _ | _⟩ := step.apply v
    · rfl
    · exact ih u

theorem perform_singleton (v : Volume D) (step : Step) :
    (v.perform [step]).1 = (step.apply v).1 := by
  unfold perform
  obtain ⟨u, _ | _⟩ := step.apply v <;> rfl

/-- Whether a step links certain clusters only. -/
def Step.Links (P : UInt32 → Prop) : Step → Prop
  | .link c _ => P c
  | .saveMap | .store _ _ => True

theorem Step.Links.imp {P Q : UInt32 → Prop} {step : Step} (h : step.Links P)
    (hPQ : ∀ c, P c → Q c) : step.Links Q := by
  cases step with
  | link c next => exact hPQ c h
  | saveMap => trivial
  | store c bytes => trivial

theorem Step.Within.links {P : UInt32 → Prop} {step : Step} (h : step.Within P) : step.Links P := by
  cases step with
  | link c next => exact h
  | saveMap => trivial
  | store c bytes => trivial

theorem links_writeSteps {map : AllocationMap} {table : Directory} {name : ShortName}
    {data : Payload} {p : Placement} (h : place map table name data.size = .ok p)
    (parent : UInt32) :
    ∀ step ∈ writeSteps parent table name data p, step.Links (· ∈ p.clusters) := by
  rw [writeSteps_eq]
  intro step hstep
  rcases List.mem_append.mp hstep with hstep | hstep
  · exact (within_contentSteps h step hstep).links
  · rw [List.mem_singleton.mp hstep]
    trivial

theorem exists_store_fileSteps (data : Payload) (i : Nat) {clusters : List UInt32} {c : UInt32}
    (h : c ∈ clusters) : ∃ b, .store c b ∈ fileSteps data i clusters := by
  induction clusters generalizing i with
  | nil => cases h
  | cons d rest ih =>
    simp only [fileSteps]
    rcases List.mem_cons.mp h with rfl | h
    · exact ⟨data.cluster i, by simp⟩
    · obtain ⟨b, hb⟩ := ih (i + 1) h
      exact ⟨b, by simp [hb]⟩

/-- A write stores all the clusters that it takes. -/
theorem exists_store_writeSteps {map : AllocationMap} {table : Directory} {name : ShortName}
    {data : Payload} {p : Placement} (h : place map table name data.size = .ok p)
    (parent : UInt32) {c : UInt32} (hc : c ∈ p.clusters) :
    ∃ b, .store c b ∈ writeSteps parent table name data p := by
  have hstored : ∃ b, .store c b ∈ contentSteps name data p := by
    unfold contentSteps
    split
    · rename_i hkind
      have hsize : data.size = 0 := by
        by_contra hsize
        simp [kindFor, hsize] at hkind
      have hlength := (placement_clusters h).1
      rw [requiredClusters, if_pos hsize] at hlength
      obtain ⟨only, honly⟩ := List.length_eq_one_iff.mp hlength
      rw [honly, List.mem_singleton] at hc
      have hfirst : p.first = c := by
        rw [Placement.first, honly, hc]
        rfl
      exact ⟨(Directory.create name c).encode, by simp [directorySteps, hfirst]⟩
    · exact exists_store_fileSteps data 0 hc
  obtain ⟨b, hb⟩ := hstored
  exact ⟨b, writeSteps_eq .. ▸ List.mem_append_left _ hb⟩

theorem within_deleteSteps {parent : UInt32} (table : Directory) (i : Fin 62)
    (hparent : AllocationMap.isData parent = true) :
    ∀ step ∈ [.store parent (table.setChild i .empty).encode, .saveMap],
      Step.Within (AllocationMap.isData · = true) step := by
  simp only [List.forall_mem_cons]
  exact ⟨hparent, trivial, by simp⟩

theorem links_deleteSteps (parent : UInt32) (table : Directory) (i : Fin 62) :
    ∀ step ∈ [.store parent (table.setChild i .empty).encode, .saveMap],
      Step.Links (fun _ => False) step := by
  simp [Step.Links]

/-- The map in memory changes only where a step links. -/
theorem get?_perform {P : UInt32 → Prop} {steps : List Step} (v : Volume D)
    (hsteps : ∀ step ∈ steps, step.Links P) {c : UInt32} (hc : ¬ P c) :
    (v.perform steps).1.map.get? c = v.map.get? c := by
  refine perform_invariant (motive := fun u => u.map.get? c = v.map.get? c) ?_ rfl
  intro step hstep u hu
  cases step with
  | link d next =>
    have hne : c ≠ d := fun h => hc (h ▸ hsteps _ hstep)
    exact (AllocationMap.get?_set_of_ne u.map next hne).trans hu
  | saveMap => exact hu
  | store d bytes => exact hu

/-- A property of volumes that no read of the device changes. -/
def KeptByReads (motive : Volume D → Prop) : Prop :=
  ∀ (u : Volume D) (lba count capacity : Nat), motive u →
    motive ⟨(BlockDevice.read u.disk lba count capacity).1, u.map⟩

namespace KeptByReads

variable {motive : Volume D → Prop} {v : Volume D}

theorem loadTable (h : KeptByReads motive) (hv : motive v) (c : UInt32) :
    motive (v.loadTable c).1 :=
  h v (clusterLba c) sectorsPerCluster clusterSize hv

theorem openDirectory (h : KeptByReads motive) (hv : motive v) (c : UInt32) :
    motive (v.openDirectory c).1 := by
  have hload := h.loadTable hv c
  unfold Volume.openDirectory
  split
  · generalize v.loadTable c = loaded at hload
    obtain ⟨u, _ | table⟩ := loaded <;> exact hload
  · exact hv

theorem countOrphans (h : KeptByReads motive) (hv : motive v) (e : Entry) :
    motive (v.countOrphans e).1 := by
  have hload := h.loadTable hv e.cluster
  unfold Volume.countOrphans
  split
  · generalize v.loadTable e.cluster = loaded at hload
    obtain ⟨u, _ | table⟩ := loaded <;> exact hload
  · exact hv

theorem stat (h : KeptByReads motive) (hv : motive v) (parent : UInt32) (name : ShortName) :
    motive (v.stat parent name).1 := by
  have hopen := h.openDirectory hv parent
  unfold Volume.stat
  generalize v.openDirectory parent = opened at hopen
  obtain ⟨u, _ | table⟩ := opened
  · exact hopen
  · simp only
    split <;> exact hopen

theorem readClusters (h : KeptByReads motive) {d : D} {map : AllocationMap} (hv : motive ⟨d, map⟩)
    (clusters : List UInt32) (delivered : Array UInt8) :
    motive ⟨(readClusters d clusters delivered).1, map⟩ := by
  induction clusters generalizing d delivered with
  | nil => exact hv
  | cons c rest ih =>
    have hread := h ⟨d, map⟩ (clusterLba c) sectorsPerCluster clusterSize hv
    unfold ClusterFs.readClusters
    generalize BlockDevice.read d (clusterLba c) sectorsPerCluster clusterSize = got at hread
    obtain ⟨d', bytes, _ | _⟩ := got
    · exact hread
    · exact ih hread _

theorem read (h : KeptByReads motive) (hv : motive v) (parent : UInt32) (name : ShortName)
    (capacity : Nat) : motive (v.read parent name capacity).volume := by
  have hstat := h.stat hv parent name
  unfold Volume.read
  generalize v.stat parent name = found at hstat
  obtain ⟨u, _ | entry⟩ := found
  · exact hstat
  have hlater := h.readClusters hstat
    ((u.map.chain entry.cluster).take (capacity / clusterSize)) #[]
  simp only
  split
  · exact hstat
  · split
    · exact hstat
    · split <;> exact hlater

theorem readDirectory (h : KeptByReads motive) (hv : motive v) (parent : UInt32) (name : ShortName)
    (capacity : Nat) : motive (v.readDirectory parent name capacity).volume := by
  have hstat := h.stat hv parent name
  unfold Volume.readDirectory
  generalize v.stat parent name = found at hstat
  obtain ⟨u, _ | entry⟩ := found
  · exact hstat
  · simp only
    split_ifs
    · exact hstat
    · exact hstat
    · exact h.readClusters hstat [entry.cluster] #[]

end KeptByReads

/-- A directory that is opened lies on a cluster that ends its chain. -/
theorem isTerminal_of_openDirectory {v : Volume D} {c : UInt32} {table : Directory}
    (h : (v.openDirectory c).2 = .ok table) : v.map.isTerminal c = true := by
  unfold openDirectory at h
  split at h
  · assumption
  · cases h

theorem openDirectory_map (v : Volume D) (c : UInt32) : (v.openDirectory c).1.map = v.map :=
  KeptByReads.openDirectory (motive := (·.map = v.map)) (fun _ _ _ _ hu => hu) rfl c

theorem countOrphans_map (v : Volume D) (e : Entry) : (v.countOrphans e).1.map = v.map :=
  KeptByReads.countOrphans (motive := (·.map = v.map)) (fun _ _ _ _ hu => hu) rfl e

/-- A write is refused, or carries out the steps of a placement. -/
theorem write_cases (v : Volume D) (parent : UInt32) (name : ShortName) (data : Payload) :
    (∃ e, v.write parent name data = (v.openDirectory parent).1.refuse e) ∨
    ∃ table p, (v.openDirectory parent).2 = .ok table ∧
      place v.map table name data.size = .ok p ∧
      (v.write parent name data).volume =
        ((v.openDirectory parent).1.perform (writeSteps parent table name data p)).1 ∧
      (v.write parent name data).outcome =
        finish p.first ((v.openDirectory parent).1.perform
          (writeSteps parent table name data p)).2 := by
  have hmap := v.openDirectory_map parent
  unfold write
  generalize v.openDirectory parent = opened at hmap
  obtain ⟨u, answer⟩ := opened
  cases answer with
  | error e => exact .inl ⟨e, rfl⟩
  | ok table =>
    simp only at hmap ⊢
    cases hplace : place u.map table name data.size with
    | error e => exact .inl ⟨e, rfl⟩
    | ok p =>
      refine .inr ⟨table, p, rfl, hmap ▸ hplace, ?_⟩
      simp only
      generalize u.perform (writeSteps parent table name data p) = performed
      obtain ⟨w, _ | _⟩ := performed
      · exact ⟨rfl, rfl⟩
      · exact ⟨rfl, rfl⟩

/-- A delete is refused, before or after a look into the directory that it removes, or carries out
its steps on the map without the chain. -/
theorem delete_cases (v : Volume D) (parent : UInt32) (name : ShortName) :
    (∃ e, v.delete parent name = (v.openDirectory parent).1.refuse e) ∨
    ∃ table i, (v.openDirectory parent).2 = .ok table ∧ table.find? name = some i ∧
      let entry := table.children.get i
      let looked := (v.openDirectory parent).1.countOrphans entry
      ((∃ e, looked.2 = .error e ∧ v.delete parent name = looked.1.refuse (.device e)) ∨
        let steps := [.store parent (table.setChild i .empty).encode, .saveMap]
        let u : Volume D := { looked.1 with map := (v.map.freeChain entry.cluster).1 }
        (v.delete parent name).volume = (u.perform steps).1 ∧
          (v.delete parent name).outcome = finish () (u.perform steps).2) := by
  have hmap := v.openDirectory_map parent
  unfold delete
  generalize v.openDirectory parent = opened at hmap
  obtain ⟨u, answer⟩ := opened
  cases answer with
  | error e => exact .inl ⟨e, rfl⟩
  | ok table =>
    cases hfind : table.find? name with
    | none => exact .inl ⟨.notFound, by simp only [hfind]⟩
    | some i =>
      refine .inr ⟨table, i, rfl, hfind, ?_⟩
      have hcount := u.countOrphans_map (table.children.get i)
      simp only [hfind]
      generalize u.countOrphans (table.children.get i) = looked at hcount
      obtain ⟨x, _ | orphans⟩ := looked
      · exact .inl ⟨_, rfl, rfl⟩
      · right
        have hfreed : x.map = v.map := hcount.trans hmap
        simp only [hfreed]
        generalize Volume.perform (D := D) _ _ = performed
        obtain ⟨w, _ | _⟩ := performed
        · exact ⟨rfl, rfl⟩
        · exact ⟨rfl, rfl⟩

/-- A property of devices that no transfer changes, whether or not it succeeds. -/
structure KeptByTransfers (P : D → Prop) : Prop where
  read : ∀ d lba count capacity, P d → P (BlockDevice.read d lba count capacity).1
  write : ∀ d bytes lba count, P d → P (BlockDevice.write d bytes lba count).1

namespace KeptByTransfers

variable {P : D → Prop} {v : Volume D}

theorem keptByReads (h : KeptByTransfers P) : KeptByReads fun u : Volume D => P u.disk :=
  fun u lba count capacity hu => h.read u.disk lba count capacity hu

theorem perform (h : KeptByTransfers P) (hv : P v.disk) (steps : List Step) :
    P (v.perform steps).1.disk := by
  refine perform_invariant (motive := fun u => P u.disk) (fun step _ u hu => ?_) hv
  cases step with
  | link c next => exact hu
  | saveMap => exact h.write _ _ _ _ hu
  | store c bytes => exact h.write _ _ _ _ hu

/-- No request changes what no transfer changes. -/
theorem serve (h : KeptByTransfers P) (hv : P v.disk) (call : Call) (name : ShortName)
    (parent : UInt32) (buffer : Payload) :
    P (v.serve call name parent buffer).volume.disk := by
  have hopen := h.keptByReads.openDirectory hv parent
  cases call with
  | read => exact h.keptByReads.read hv parent name buffer.size
  | readDirectory => exact h.keptByReads.readDirectory hv parent name buffer.size
  | write =>
    show P (v.write parent name buffer).volume.disk
    rcases v.write_cases parent name buffer with ⟨e, hrefused⟩ | ⟨table, p, -, -, hvolume, -⟩
    · rw [hrefused]
      exact hopen
    · rw [hvolume]
      exact h.perform hopen _
  | delete =>
    show P (v.delete parent name).volume.disk
    rcases v.delete_cases parent name with
      ⟨e, hrefused⟩ | ⟨table, i, -, -, ⟨e, -, hrefused⟩ | ⟨hvolume, -⟩⟩
    · rw [hrefused]
      exact hopen
    · rw [hrefused]
      exact h.keptByReads.countOrphans hopen _
    · have hlooked := h.keptByReads.countOrphans hopen (table.children.get i)
      rw [hvolume]
      refine h.perform ?_ _
      exact hlooked

end KeptByTransfers

end Volume

namespace Session

variable {D : Type} [BlockDevice D]

/-- The answers to a list of actions; they end where a mount fails. -/
def answers (s : Session D) : List Action → List Answer
  | [] => []
  | a :: rest =>
    s.volume.answer a ::
      match s.step a with
      | .ok t => t.answers rest
      | .error _ => []

/-- Only a mount that fails leaves no session. -/
theorem eq_remount_of_step_error {s : Session D} {a : Action} {e : DiskError}
    (h : s.step a = .error e) : a = .remount := by
  cases a with
  | write parent name data =>
    simp only [step] at h
    split at h
    · cases h
    · split_ifs at h
  | remount => rfl
  | _ => cases h

/-- Every request is answered. -/
theorem length_answers {s : Session D} {actions : List Action} (h : .remount ∉ actions) :
    (s.answers actions).length = actions.length := by
  induction actions generalizing s with
  | nil => rfl
  | cons a rest ih =>
    cases hstep : s.step a with
    | error e => exact absurd (eq_remount_of_step_error hstep ▸ List.mem_cons_self) h
    | ok t => simp [answers, hstep, ih (s := t) fun hmem => h (List.mem_cons_of_mem a hmem)]

theorem volume_of_step_write {s t : Session D} {parent : UInt32} {name : ShortName} {data : Payload}
    (hstep : s.step (.write parent name data) = .ok t) :
    (s.volume.write parent name data).volume = t.volume := by
  simp only [step] at hstep
  split at hstep
  · rw [← Except.ok.inj hstep]
  · split_ifs at hstep <;> rw [← Except.ok.inj hstep]

end Session

end ClusterFs
