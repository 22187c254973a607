import ClusterFs.Proofs.Contents
import ClusterFs.Volume.Mount
import ClusterFs.Volume.Read

/-!
What each operation does to the contents of a volume. Reading, and every refusal, leaves them as
they are; its answer is a function of the contents. A write or a delete that is not refused carries
out a list of steps that the contents determine.
-/
namespace ClusterFs

theorem Image.window_toArray {n : Nat} (v : Vector UInt8 n) : window n v.toArray 0 = v := by
  ext i hi
  rw [getElem_window, Nat.zero_add, Array.getD_eq_getD_getElem?,
    Array.getElem?_eq_getElem (by rwa [Vector.size_toArray]), Option.getD_some,
    Vector.getElem_toArray]

namespace Volume

theorem place_spec {map : AllocationMap} {table : Directory} {name : ShortName} {size : Nat}
    {p : Placement} (h : place map table name size = .ok p) :
    table.find? name = none ∧ table.vacancy? = some p.index ∧ size < wordLimit ∧
      map.findFree (requiredClusters size) = .ok p.clusters := by
  unfold place at h
  split at h
  · contradiction
  · rename_i hfind
    split at h
    · contradiction
    · rename_i index hindex
      split at h
      · contradiction
      · rename_i hsize
        split at h
        · contradiction
        · rename_i clusters hfree
          obtain rfl := Except.ok.inj h
          exact ⟨by simpa using hfind, hindex, by omega, hfree⟩

theorem place_error {map : AllocationMap} {table : Directory} {name : ShortName} {size : Nat}
    {cause : FsError} (h : place map table name size = .error cause) :
    cause = .alreadyExists ∨ cause = .directoryFull ∨ cause = .insufficientSpace := by
  unfold place at h
  split at h
  · exact .inl (Except.error.inj h).symm
  · split at h
    · exact .inr (.inl (Except.error.inj h).symm)
    · split at h
      · exact .inr (.inr (Except.error.inj h).symm)
      · split at h
        · rename_i hfree
          have hcause := Except.error.inj h
          exact .inr (.inr (hcause ▸ AllocationMap.findFree_error hfree))
        · contradiction

/-- A placement has as many distinct free clusters as its size asks for. -/
theorem placement_clusters {map : AllocationMap} {table : Directory} {name : ShortName}
    {size : Nat} {p : Placement} (h : place map table name size = .ok p) :
    p.clusters.length = requiredClusters size ∧ p.clusters.Nodup ∧
      (∀ c ∈ p.clusters, AllocationMap.isData c = true ∧
        map.get? c = some AllocationMap.unused) ∧
      p.first ∈ p.clusters := by
  obtain ⟨hlength, hnodup, hfree⟩ := AllocationMap.findFree_spec (place_spec h).2.2.2
  refine ⟨hlength, hnodup, hfree, ?_⟩
  have hpos := requiredClusters_pos size
  cases hclusters : p.clusters with
  | nil => simp [hclusters] at hlength; omega
  | cons c rest => simp [Placement.first, hclusters]

theorem within_fileSteps {P : UInt32 → Prop} (data : Payload) (i : Nat) {clusters : List UInt32}
    (h : ∀ c ∈ clusters, P c) : ∀ step ∈ fileSteps data i clusters, step.Within P := by
  induction clusters generalizing i with
  | nil => simp [fileSteps]
  | cons c rest ih =>
    have hc := h c (by simp)
    have hrest := ih (i + 1) fun d hd => h d (List.mem_cons_of_mem _ hd)
    simp only [fileSteps, List.forall_mem_cons]
    exact ⟨hc, trivial, hc, hrest⟩

theorem within_directorySteps {P : UInt32 → Prop} (name : ShortName) {c : UInt32} (h : P c) :
    ∀ step ∈ directorySteps name c, step.Within P := by
  simp only [directorySteps, List.forall_mem_cons]
  exact ⟨h, h, trivial, by simp⟩

/-- The steps that store what a new entry refers to, before the parent table is stored. -/
def contentSteps (name : ShortName) (data : Payload) (p : Placement) : List Step :=
  match kindFor data with
  | .directory => directorySteps name p.first
  | .file => fileSteps data 0 p.clusters

/-- The entry that a write makes. -/
def newEntry (name : ShortName) (data : Payload) (p : Placement) : Entry :=
  Entry.create name (kindFor data) (UInt32.ofNat data.size) p.first

theorem writeSteps_eq (parent : UInt32) (table : Directory) (name : ShortName) (data : Payload)
    (p : Placement) :
    writeSteps parent table name data p = contentSteps name data p ++
      [.store parent (table.setChild p.index (newEntry name data p)).encode] :=
  rfl

/-- A write that is left out in part has not stored the parent table. -/
theorem contentSteps_eq_of_append {parent : UInt32} {table : Directory} {name : ShortName}
    {data : Payload} {p : Placement} {done rest : List Step}
    (hdone : writeSteps parent table name data p = done ++ rest) (hrest : rest ≠ []) :
    contentSteps name data p = done ++ rest.dropLast := by
  rw [← List.dropLast_append_of_ne_nil hrest, ← hdone, writeSteps_eq, List.dropLast_concat]

/-- What a new entry refers to is stored in the clusters of the placement. -/
theorem within_contentSteps {map : AllocationMap} {table : Directory} {name : ShortName}
    {data : Payload} {p : Placement} (h : place map table name data.size = .ok p) :
    ∀ step ∈ contentSteps name data p, step.Within (· ∈ p.clusters) := by
  unfold contentSteps
  split
  · exact within_directorySteps name (placement_clusters h).2.2.2
  · exact within_fileSteps data 0 fun c hc => hc

theorem storesAll_append (steps rest : List Step) :
    Step.storesAll (steps ++ rest) = Step.storesAll steps + Step.storesAll rest := by
  induction steps with
  | nil => simp [Step.storesAll]
  | cons step steps ih => simp only [List.cons_append, Step.storesAll, ih, Nat.add_assoc]

theorem storesAll_fileSteps (data : Payload) (i : Nat) (clusters : List UInt32) :
    Step.storesAll (fileSteps data i clusters) = 2 * clusters.length := by
  induction clusters generalizing i with
  | nil => rfl
  | cons c rest ih =>
    simp only [fileSteps, Step.storesAll, Step.stores, ih, List.length_cons]
    omega

/-- A file takes two writes to the device for each cluster and one for its entry. -/
theorem storesAll_writeSteps (parent : UInt32) (table : Directory) (name : ShortName)
    {data : Payload} (hsize : data.size ≠ 0) (p : Placement) :
    Step.storesAll (writeSteps parent table name data p) = 2 * p.clusters.length + 1 := by
  rw [writeSteps_eq, storesAll_append, contentSteps, kindFor, if_neg hsize, storesAll_fileSteps]
  rfl

theorem inData_writeSteps {map : AllocationMap} {parent : UInt32} {table : Directory}
    {name : ShortName} {data : Payload} {p : Placement}
    (h : place map table name data.size = .ok p) (hparent : AllocationMap.isData parent = true) :
    ∀ step ∈ writeSteps parent table name data p,
      step.Within (AllocationMap.isData · = true) := by
  have hfree := (placement_clusters h).2.2.1
  rw [writeSteps_eq]
  intro step hstep
  rcases List.mem_append.mp hstep with hstep | hstep
  · exact (within_contentSteps h step hstep).mono fun c hc => (hfree c hc).1
  · obtain rfl := List.mem_singleton.mp hstep
    exact hparent

end Volume

namespace Contents

/-- The table of a cluster that passes as a directory. -/
def directory (x : Contents) (c : UInt32) : Except FsError Directory :=
  if x.accepts c then .ok (x.table c) else .error .invalidParent

/-- The place of a name among the children of a directory. -/
def locate (x : Contents) (parent : UInt32) (name : ShortName) : Except FsError (Fin 62) :=
  match x.directory parent with
  | .error e => .error e
  | .ok table =>
    match table.find? name with
    | none => .error .notFound
    | some i => .ok i

def lookup (x : Contents) (parent : UInt32) (name : ShortName) : Except FsError Entry :=
  match x.directory parent with
  | .error e => .error e
  | .ok table =>
    match table.find? name with
    | none => .error .notFound
    | some i => .ok (table.children.get i)

/-- The answer to a read and the bytes it delivers. -/
def readFile (x : Contents) (parent : UInt32) (name : ShortName) (capacity : Nat) :
    Except FsError UInt32 × Array UInt8 :=
  match x.lookup parent name with
  | .error e => (.error e, #[])
  | .ok e =>
    if e.isDirectory then (.error .wrongType, #[])
    else if capacity / clusterSize < clustersFor e.size.toNat then (.error .bufferTooSmall, #[])
    else (.ok e.size, x.bytes ((x.map.chain e.cluster).take (capacity / clusterSize)))

/-- The answer to a listing and the bytes it delivers. -/
def readTable (x : Contents) (parent : UInt32) (name : ShortName) (capacity : Nat) :
    Except FsError Unit × Array UInt8 :=
  match x.lookup parent name with
  | .error e => (.error e, #[])
  | .ok e =>
    if !e.isDirectory then (.error .wrongType, #[])
    else if capacity < clusterSize then (.error .bufferTooSmall, #[])
    else (.ok (), x.bytes [e.cluster])

/-- Where a new entry would go. -/
def placement (x : Contents) (parent : UInt32) (name : ShortName) (size : Nat) :
    Except FsError Volume.Placement :=
  match x.directory parent with
  | .error e => .error e
  | .ok table => Volume.place x.map table name size

theorem directory_of_accepts {x : Contents} {c : UInt32} (h : x.accepts c = true) :
    x.directory c = .ok (x.table c) :=
  if_pos h

theorem directory_of_not_accepts {x : Contents} {c : UInt32} (h : x.accepts c = false) :
    x.directory c = .error .invalidParent :=
  if_neg (by simp [h])

theorem directory_eq_ok {x : Contents} {c : UInt32} {table : Directory}
    (h : x.directory c = .ok table) : x.accepts c = true ∧ x.table c = table := by
  by_cases hx : x.accepts c = true
  · rw [directory_of_accepts hx] at h
    exact ⟨hx, Except.ok.inj h⟩
  · rw [directory_of_not_accepts (by simpa using hx)] at h
    contradiction

theorem placement_eq_ok_iff {x : Contents} {parent : UInt32} {name : ShortName} {size : Nat}
    {p : Volume.Placement} : x.placement parent name size = .ok p ↔
      x.accepts parent = true ∧ Volume.place x.map (x.table parent) name size = .ok p := by
  cases haccepts : x.accepts parent with
  | false =>
    simp only [placement, directory_of_not_accepts haccepts]
    constructor
    · intro h
      cases h
    · intro h
      cases h.1
  | true =>
    simp only [placement, directory_of_accepts haccepts, true_and]

/-- A write is refused before the device is asked to write. -/
theorem placement_ne_device {x : Contents} {parent : UInt32} {name : ShortName} {size : Nat}
    (e : DiskError) : x.placement parent name size ≠ .error (.device e) := by
  intro h
  cases haccepts : x.accepts parent with
  | false =>
    simp only [placement, directory_of_not_accepts haccepts] at h
    cases h
  | true =>
    simp only [placement, directory_of_accepts haccepts] at h
    rcases Volume.place_error h with hcause | hcause | hcause <;> cases hcause

theorem directory_ne_device {x : Contents} {parent : UInt32} (e : DiskError) :
    x.directory parent ≠ .error (.device e) := by
  unfold directory
  split_ifs <;> simp

theorem lookup_ne_device {x : Contents} {parent : UInt32} {name : ShortName} (e : DiskError) :
    x.lookup parent name ≠ .error (.device e) := by
  unfold lookup
  cases hdir : x.directory parent with
  | error cause =>
    simp only [ne_eq, Except.error.injEq]
    rintro rfl
    exact directory_ne_device e hdir
  | ok table => cases hfind : table.find? name <;> simp [hfind]

theorem locate_ne_device {x : Contents} {parent : UInt32} {name : ShortName} (e : DiskError) :
    x.locate parent name ≠ .error (.device e) := by
  unfold locate
  cases hdir : x.directory parent with
  | error cause =>
    simp only [ne_eq, Except.error.injEq]
    rintro rfl
    exact directory_ne_device e hdir
  | ok table => cases hfind : table.find? name <;> simp [hfind]

theorem readFile_ne_device {x : Contents} {parent : UInt32} {name : ShortName} {capacity : Nat}
    (e : DiskError) : (x.readFile parent name capacity).1 ≠ .error (.device e) := by
  unfold readFile
  cases hlookup : x.lookup parent name with
  | error cause =>
    simp only [ne_eq, Except.error.injEq]
    rintro rfl
    exact lookup_ne_device e hlookup
  | ok entry =>
    simp only
    split_ifs <;> simp

theorem readTable_ne_device {x : Contents} {parent : UInt32} {name : ShortName} {capacity : Nat}
    (e : DiskError) : (x.readTable parent name capacity).1 ≠ .error (.device e) := by
  unfold readTable
  cases hlookup : x.lookup parent name with
  | error cause =>
    simp only [ne_eq, Except.error.injEq]
    rintro rfl
    exact lookup_ne_device e hlookup
  | ok entry =>
    simp only
    split_ifs <;> simp

/-- The steps that remove a child and save the map in memory. -/
def deleteSteps (x : Contents) (parent : UInt32) (i : Fin 62) : List Volume.Step :=
  [.store parent ((x.table parent).setChild i .empty).encode, .saveMap]

theorem isData_of_accepts {x : Contents} {c : UInt32} (h : x.accepts c = true) :
    AllocationMap.isData c = true :=
  (AllocationMap.isTerminal_iff.mp (Bool.and_eq_true_iff.mp h).1).1

theorem accepts_of_locate {x : Contents} {parent : UInt32} {name : ShortName} {i : Fin 62}
    (h : x.locate parent name = .ok i) : x.accepts parent = true := by
  unfold locate at h
  cases hdir : x.directory parent with
  | error e => simp [hdir] at h
  | ok table => exact (directory_eq_ok hdir).1

theorem inData_deleteSteps {x : Contents} {parent : UInt32} {name : ShortName} {i : Fin 62}
    (h : x.locate parent name = .ok i) :
    ∀ step ∈ x.deleteSteps parent i, step.Within (AllocationMap.isData · = true) := by
  simp only [deleteSteps, List.forall_mem_cons]
  exact ⟨isData_of_accepts (accepts_of_locate h), trivial, by simp⟩

end Contents

namespace Storage

variable {D : Type} [BlockDevice D] {S : Storage D}

theorem loadTable_kept {v : Volume D} (h : S.Ready v.disk) {c : UInt32} (hc : S.Has v.disk c) :
    ∃ d, v.loadTable c = (⟨d, v.map⟩, .ok ((S.contents v).table c)) ∧ S.Kept v.disk d := by
  obtain ⟨d, hread, hd⟩ := readCluster_kept h hc
  refine ⟨d, ?_, hd⟩
  simp only [Volume.loadTable, readCluster, hread, Except.map, Image.window_toArray,
    Contents.table]

/-- A parent that ends its chain is looked at, so it must be on the device. -/
theorem openDirectory_kept {v : Volume D} (h : S.Ready v.disk) {c : UInt32}
    (hc : v.map.isTerminal c = true → S.Has v.disk c) :
    ∃ d, v.openDirectory c = (⟨d, v.map⟩, (S.contents v).directory c) ∧ S.Kept v.disk d := by
  by_cases hterminal : v.map.isTerminal c = true
  · obtain ⟨d, hload, hd⟩ := loadTable_kept h (hc hterminal)
    refine ⟨d, ?_, hd⟩
    simp only [Volume.openDirectory, hterminal, hload, Contents.directory, Contents.accepts,
      map_contents, Bool.true_and, if_true]
  · refine ⟨v.disk, ?_, .refl h⟩
    simp only [Volume.openDirectory, hterminal, Contents.directory, Contents.accepts, map_contents,
      Bool.false_and, if_false, Bool.false_eq_true]

theorem Usable.has_of_isTerminal {d : D} (h : S.Usable d) {m : AllocationMap} {c : UInt32}
    (hterminal : m.isTerminal c = true) : S.Has d c :=
  covers_of_lt (AllocationMap.isData_iff.mp (AllocationMap.isTerminal_iff.mp hterminal).1).2 d h

theorem openDirectory_eq {v : Volume D} (h : S.Usable v.disk) (c : UInt32) :
    ∃ d, v.openDirectory c = (⟨d, v.map⟩, (S.contents v).directory c) ∧ S.Unchanged v.disk d := by
  obtain ⟨d, hopen, hd⟩ := openDirectory_kept h.ready (c := c) h.has_of_isTerminal
  exact ⟨d, hopen, hd.unchanged h⟩

theorem stat_kept {v : Volume D} (h : S.Ready v.disk) {parent : UInt32}
    (hparent : v.map.isTerminal parent = true → S.Has v.disk parent) (name : ShortName) :
    ∃ d, v.stat parent name = (⟨d, v.map⟩, (S.contents v).lookup parent name) ∧
      S.Kept v.disk d := by
  obtain ⟨d, hopen, hd⟩ := openDirectory_kept h hparent
  refine ⟨d, ?_, hd⟩
  simp only [Volume.stat, hopen, Contents.lookup]
  cases (S.contents v).directory parent with
  | error e => rfl
  | ok table => cases hfind : table.find? name <;> simp only [hfind]

theorem stat_eq {v : Volume D} (h : S.Usable v.disk) (parent : UInt32) (name : ShortName) :
    ∃ d, v.stat parent name = (⟨d, v.map⟩, (S.contents v).lookup parent name) ∧
      S.Unchanged v.disk d := by
  have hparent : v.map.isTerminal parent = true → S.Has v.disk parent := h.has_of_isTerminal
  obtain ⟨d, hstat, hd⟩ := stat_kept h.ready hparent name
  exact ⟨d, hstat, hd.unchanged h⟩

theorem readClusters_kept {v : Volume D} (h : S.Ready v.disk) {clusters : List UInt32}
    (hclusters : ∀ c ∈ clusters, S.Has v.disk c) (delivered : Array UInt8) :
    ∃ d, readClusters v.disk clusters delivered =
        (d, ⟨delivered ++ (S.contents v).bytes clusters, .ok ()⟩) ∧ S.Kept v.disk d := by
  induction clusters generalizing v delivered with
  | nil => exact ⟨v.disk, by simp [readClusters, Contents.bytes], .refl h⟩
  | cons c rest ih =>
    obtain ⟨d, hread, hd⟩ := readCluster_kept h (hclusters c (by simp))
    obtain ⟨e, hrest, he⟩ := ih (v := ⟨d, v.map⟩) hd.ready
      (fun c' hc' => hd.has (hclusters c' (List.mem_cons_of_mem _ hc')))
      (delivered ++ ((S.contents v).cluster c).toArray)
    refine ⟨e, ?_, hd.trans he⟩
    rw [hd.contents] at hrest
    simp only [readClusters, hread, hrest, Contents.bytes, Array.append_assoc]

/-- A read changes nothing, and its answer is a function of the contents, when what it looks at is
on the device. -/
theorem readFile_kept {v : Volume D} (h : S.Ready v.disk) {parent : UInt32}
    (hparent : v.map.isTerminal parent = true → S.Has v.disk parent) {name : ShortName}
    (hchain : ∀ e, (S.contents v).lookup parent name = .ok e → e.isDirectory = false →
      ∀ c ∈ v.map.chain e.cluster, S.Has v.disk c) (capacity : Nat) :
    ∃ d, (v.read parent name capacity).volume = ⟨d, v.map⟩ ∧
      ((v.read parent name capacity).outcome, (v.read parent name capacity).filled) =
        (S.contents v).readFile parent name capacity ∧ S.Kept v.disk d := by
  obtain ⟨d, hstat, hd⟩ := stat_kept h hparent name
  simp only [Volume.read, Contents.readFile, hstat]
  cases hlookup : (S.contents v).lookup parent name with
  | error e => exact ⟨d, rfl, rfl, hd⟩
  | ok entry =>
    by_cases hdir : entry.isDirectory = true
    · simp only [hdir, if_true]
      exact ⟨d, rfl, rfl, hd⟩
    by_cases hroom : capacity / clusterSize < clustersFor entry.size.toNat
    · simp only [hdir, hroom, if_true, if_false, Bool.false_eq_true]
      exact ⟨d, rfl, rfl, hd⟩
    have hclusters : ∀ c ∈ (v.map.chain entry.cluster).take (capacity / clusterSize),
        S.Has d c := fun c hc =>
      hd.has (hchain entry hlookup (by simpa using hdir) c (List.mem_of_mem_take hc))
    obtain ⟨e, hread, he⟩ := readClusters_kept (v := ⟨d, v.map⟩) hd.ready hclusters #[]
    rw [hd.contents] at hread
    simp only [hdir, hroom, if_false, Bool.false_eq_true, hread, Array.empty_append]
    exact ⟨e, rfl, rfl, hd.trans he⟩

theorem readFile_eq {v : Volume D} (h : S.Usable v.disk) (parent : UInt32) (name : ShortName)
    (capacity : Nat) :
    ∃ d, (v.read parent name capacity).volume = ⟨d, v.map⟩ ∧
      ((v.read parent name capacity).outcome, (v.read parent name capacity).filled) =
        (S.contents v).readFile parent name capacity ∧ S.Unchanged v.disk d := by
  have hparent : v.map.isTerminal parent = true → S.Has v.disk parent := h.has_of_isTerminal
  have hchain : ∀ e, (S.contents v).lookup parent name = .ok e → e.isDirectory = false →
      ∀ c ∈ v.map.chain e.cluster, S.Has v.disk c := fun _ _ _ c hc => covers_of_lt
    (AllocationMap.isData_iff.mp (AllocationMap.isData_of_mem_chain hc)).2 _ h
  obtain ⟨d, hvolume, hread, hd⟩ := readFile_kept h.ready hparent hchain capacity
  exact ⟨d, hvolume, hread, hd.unchanged h⟩

theorem stat_snd {v : Volume D} (h : S.Usable v.disk) (parent : UInt32) (name : ShortName) :
    (v.stat parent name).2 = (S.contents v).lookup parent name := by
  obtain ⟨d, hstat, -⟩ := stat_eq h parent name
  rw [hstat]

theorem read_answer {v : Volume D} (h : S.Usable v.disk) (parent : UInt32) (name : ShortName)
    (capacity : Nat) :
    ((v.read parent name capacity).outcome, (v.read parent name capacity).filled) =
      (S.contents v).readFile parent name capacity := by
  obtain ⟨d, -, hread, -⟩ := readFile_eq h parent name capacity
  exact hread

/-- A listing changes nothing when the cluster it copies is on the device. -/
theorem readTable_kept {v : Volume D} (h : S.Ready v.disk) {parent : UInt32}
    (hparent : v.map.isTerminal parent = true → S.Has v.disk parent) {name : ShortName}
    {capacity : Nat}
    (hrange : clusterSize ≤ capacity → ∀ e, (S.contents v).lookup parent name = .ok e →
      e.isDirectory = true → S.Has v.disk e.cluster) :
    ∃ d, (v.readDirectory parent name capacity).volume = ⟨d, v.map⟩ ∧
      ((v.readDirectory parent name capacity).outcome,
        (v.readDirectory parent name capacity).filled) =
          (S.contents v).readTable parent name capacity ∧ S.Kept v.disk d := by
  obtain ⟨d, hstat, hd⟩ := stat_kept h hparent name
  simp only [Volume.readDirectory, Contents.readTable, hstat]
  cases hlookup : (S.contents v).lookup parent name with
  | error e => exact ⟨d, rfl, rfl, hd⟩
  | ok entry =>
    simp only
    split_ifs with hdir hcap
    · exact ⟨d, rfl, rfl, hd⟩
    · exact ⟨d, rfl, rfl, hd⟩
    · have hc : ∀ c ∈ [entry.cluster], S.Has d c := by
        simpa using hd.has (hrange (Nat.not_lt.mp hcap) entry hlookup (by simpa using hdir))
      obtain ⟨e, hread, he⟩ := readClusters_kept (v := ⟨d, v.map⟩) hd.ready hc #[]
      rw [hd.contents] at hread
      refine ⟨e, ?_, ?_, hd.trans he⟩
      · simp only [hread]
      · simp only [hread, Array.empty_append]
        rfl

theorem readTable_eq {v : Volume D} (h : S.Usable v.disk) (parent : UInt32) (name : ShortName)
    (capacity : Nat)
    (hrange : clusterSize ≤ capacity → ∀ e, (S.contents v).lookup parent name = .ok e →
      e.isDirectory = true → S.Covers e.cluster) :
    ∃ d, (v.readDirectory parent name capacity).volume = ⟨d, v.map⟩ ∧
      ((v.readDirectory parent name capacity).outcome,
        (v.readDirectory parent name capacity).filled) =
          (S.contents v).readTable parent name capacity ∧ S.Unchanged v.disk d := by
  have hparent : v.map.isTerminal parent = true → S.Has v.disk parent := h.has_of_isTerminal
  obtain ⟨d, hvolume, hread, hd⟩ := readTable_kept h.ready hparent
    fun hcap e hlookup hdir => hrange hcap e hlookup hdir _ h
  exact ⟨d, hvolume, hread, hd.unchanged h⟩

/-- Once the parent was looked at, a write is refused for its placement, or ends as its steps do. -/
theorem write_of_openDirectory {v : Volume D} {d : D} {parent : UInt32}
    (hopen : v.openDirectory parent = (⟨d, v.map⟩, (S.contents v).directory parent))
    (name : ShortName) (data : Payload) :
    (∃ e, v.write parent name data = Volume.refuse ⟨d, v.map⟩ e ∧
      (S.contents v).placement parent name data.size = .error e) ∨
    ∃ p, (S.contents v).placement parent name data.size = .ok p ∧
      ∀ w outcome, Volume.perform ⟨d, v.map⟩
          (Volume.writeSteps parent ((S.contents v).table parent) name data p) = (w, outcome) →
        (v.write parent name data).volume = w ∧
          (v.write parent name data).outcome = (outcome.mapError .device).map fun _ => p.first := by
  simp only [Volume.write, hopen]
  cases hdir : (S.contents v).directory parent with
  | error e => exact .inl ⟨e, rfl, by simp only [Contents.placement, hdir]⟩
  | ok table =>
    have hplacement : (S.contents v).placement parent name data.size =
        Volume.place v.map table name data.size := by
      simp only [Contents.placement, hdir]
      rfl
    rw [hplacement, (Contents.directory_eq_ok hdir).2]
    cases hplace : Volume.place v.map table name data.size with
    | error e => exact .inl ⟨e, by simp only [hplace], rfl⟩
    | ok p =>
      refine .inr ⟨p, rfl, fun w outcome hperform => ?_⟩
      simp only [hplace, hperform]
      cases outcome <;> exact ⟨rfl, rfl⟩

/-- The steps of a write and what they leave, or the refusal that left the volume as it was. -/
theorem write_spec {v : Volume D} (h : S.Usable v.disk) (parent : UInt32) (name : ShortName)
    (data : Payload) :
    (∃ e d, v.write parent name data = Volume.refuse ⟨d, v.map⟩ e ∧ S.Unchanged v.disk d ∧
      (S.contents v).placement parent name data.size = .error e) ∨
    ∃ p done rest, (S.contents v).placement parent name data.size = .ok p ∧
      Volume.writeSteps parent ((S.contents v).table parent) name data p = done ++ rest ∧
      S.Advance v.disk (v.write parent name data).volume.disk done rest ∧
      S.contents (v.write parent name data).volume = (S.contents v).applyAll done ∧
      (rest = [] ∧ (v.write parent name data).outcome = .ok p.first ∨
        rest ≠ [] ∧ (v.write parent name data).outcome = .error (.device .fault)) := by
  obtain ⟨d, hopen, hd⟩ := openDirectory_eq h parent
  rcases write_of_openDirectory hopen name data with
    ⟨e, hwrite, hplacement⟩ | ⟨p, hplacement, hwrite⟩
  · exact .inl ⟨e, d, hwrite, hd, hplacement⟩
  · obtain ⟨haccepts, hplace⟩ := Contents.placement_eq_ok_iff.mp hplacement
    have hsteps := Volume.inData_writeSteps hplace (Contents.isData_of_accepts haccepts)
    obtain ⟨w, outcome, done, rest, hperform, hdone, hadvance, hx, hend⟩ :=
      perform_spec (v := ⟨d, v.map⟩) hd.usable hsteps
    obtain ⟨hvolume, houtcome⟩ := hwrite w outcome hperform
    rw [hd.contents] at hx
    refine .inr ⟨p, done, rest, hplacement, hdone, ?_, ?_, ?_⟩
    · rw [hvolume]
      exact hadvance.of_unchanged hd
    · rw [hvolume]
      exact hx
    · rw [houtcome]
      rcases hend with ⟨hrest, rfl⟩ | ⟨hrest, rfl⟩
      · exact .inl ⟨hrest, rfl⟩
      · exact .inr ⟨hrest, rfl⟩

/-- A table is counted for a directory, and nothing for a file. -/
theorem countOrphans_kept {v : Volume D} (h : S.Ready v.disk) {e : Entry}
    (hrange : e.isDirectory = true → S.Has v.disk e.cluster) :
    ∃ d orphans, v.countOrphans e = (⟨d, v.map⟩, .ok orphans) ∧ S.Kept v.disk d := by
  by_cases hdir : e.isDirectory = true
  · obtain ⟨d, hload, hd⟩ := loadTable_kept h (hrange hdir)
    refine ⟨d, ((S.contents v).table e.cluster).usedCount, ?_, hd⟩
    simp only [Volume.countOrphans, hdir, hload, if_true]
  · exact ⟨v.disk, 0, by simp only [Volume.countOrphans, hdir, if_false, Bool.false_eq_true],
      .refl h⟩

/-- Once the parent was looked at, a delete finds no entry, or ends as its steps do on the map
without the chain. -/
theorem delete_of_openDirectory {v : Volume D} {d : D} {parent : UInt32}
    (hopen : v.openDirectory parent = (⟨d, v.map⟩, (S.contents v).directory parent))
    (hready : S.Kept v.disk d) {name : ShortName}
    (hrange : ∀ i, (S.contents v).locate parent name = .ok i →
      ((S.contents v).child parent i).isDirectory = true →
        S.Has v.disk ((S.contents v).child parent i).cluster) :
    (∃ e, v.delete parent name = Volume.refuse ⟨d, v.map⟩ e ∧
      (S.contents v).locate parent name = .error e) ∨
    ∃ i c, (S.contents v).locate parent name = .ok i ∧ S.Kept d c ∧
      ∀ w outcome, Volume.perform
          ⟨c, (v.map.freeChain ((S.contents v).child parent i).cluster).1⟩
          ((S.contents v).deleteSteps parent i) = (w, outcome) →
        (v.delete parent name).volume = w ∧
          (v.delete parent name).outcome = outcome.mapError .device := by
  simp only [Volume.delete, hopen]
  unfold Contents.locate at hrange ⊢
  cases hdir : (S.contents v).directory parent with
  | error e => exact .inl ⟨e, rfl, rfl⟩
  | ok table =>
    obtain ⟨-, htable⟩ := Contents.directory_eq_ok hdir
    simp only [hdir, Contents.child, Contents.deleteSteps, htable] at hrange ⊢
    cases hfind : table.find? name with
    | none => exact .inl ⟨_, rfl, rfl⟩
    | some i =>
      simp only [hfind] at hrange ⊢
      obtain ⟨c, orphans, hcount, hc⟩ := countOrphans_kept (v := ⟨d, v.map⟩) hready.ready
        fun hdir => hready.has (hrange i rfl hdir)
      refine .inr ⟨i, c, rfl, hc, fun w outcome hperform => ?_⟩
      simp only [hcount, hperform]
      cases outcome <;> exact ⟨rfl, rfl⟩

/-- The steps of a delete, after the chain was released in memory. -/
theorem delete_spec {v : Volume D} (h : S.Usable v.disk) (parent : UInt32) (name : ShortName)
    (hrange : ∀ i, (S.contents v).locate parent name = .ok i →
      ((S.contents v).child parent i).isDirectory = true →
        S.Covers ((S.contents v).child parent i).cluster) :
    (∃ e d, v.delete parent name = Volume.refuse ⟨d, v.map⟩ e ∧ S.Unchanged v.disk d ∧
      (S.contents v).locate parent name = .error e) ∨
    ∃ i done rest, (S.contents v).locate parent name = .ok i ∧
      (S.contents v).deleteSteps parent i = done ++ rest ∧
      S.Advance v.disk (v.delete parent name).volume.disk done rest ∧
      S.contents (v.delete parent name).volume =
        ((S.contents v).withMap
          (v.map.freeChain ((S.contents v).child parent i).cluster).1).applyAll done ∧
      (rest = [] ∧ (v.delete parent name).outcome = .ok () ∨
        rest ≠ [] ∧ (v.delete parent name).outcome = .error (.device .fault)) := by
  obtain ⟨d, hopen, hd⟩ := openDirectory_kept h.ready (c := parent) h.has_of_isTerminal
  rcases delete_of_openDirectory hopen hd fun i hlocate hdir => hrange i hlocate hdir _ h with
    ⟨e, hdelete, hlocate⟩ | ⟨i, c, hlocate, hc, hdelete⟩
  · exact .inl ⟨e, d, hdelete, hd.unchanged h, hlocate⟩
  · have hc := (hd.trans hc).unchanged h
    obtain ⟨w, outcome, done, rest, hperform, hdone, hadvance, hx, hend⟩ :=
      perform_spec (v := ⟨c, (v.map.freeChain ((S.contents v).child parent i).cluster).1⟩) hc.usable
        (Contents.inData_deleteSteps hlocate)
    obtain ⟨hvolume, houtcome⟩ := hdelete w outcome hperform
    rw [hc.contents] at hx
    refine .inr ⟨i, done, rest, hlocate, hdone, ?_, ?_, ?_⟩
    · rw [hvolume]
      exact hadvance.of_unchanged hc
    · rw [hvolume]
      exact hx
    · rw [houtcome]
      rcases hend with ⟨hrest, rfl⟩ | ⟨hrest, rfl⟩
      · exact .inl ⟨hrest, rfl⟩
      · exact .inr ⟨hrest, rfl⟩

theorem read_ne_device {v : Volume D} (h : S.Usable v.disk) (parent : UInt32) (name : ShortName)
    (capacity : Nat) (cause : DiskError) :
    (v.read parent name capacity).outcome ≠ .error (.device cause) := by
  obtain ⟨d, -, hread, -⟩ := readFile_eq h parent name capacity
  have houtcome : (v.read parent name capacity).outcome = _ := congrArg Prod.fst hread
  rw [houtcome]
  exact Contents.readFile_ne_device cause

/-- A listing fails on a device that works only when it looks for a table past the end. -/
theorem readDirectory_ne_device {v : Volume D} (h : S.Usable v.disk) {parent : UInt32}
    {name : ShortName} {capacity : Nat}
    (hrange : clusterSize ≤ capacity → ∀ e, (S.contents v).lookup parent name = .ok e →
      e.isDirectory = true → S.Covers e.cluster) (cause : DiskError) :
    (v.readDirectory parent name capacity).outcome ≠ .error (.device cause) := by
  obtain ⟨d, -, hread, -⟩ := readTable_eq h parent name capacity hrange
  have houtcome : (v.readDirectory parent name capacity).outcome = _ := congrArg Prod.fst hread
  rw [houtcome]
  exact Contents.readTable_ne_device cause

theorem write_ne_device {v : Volume D} (h : S.Usable v.disk) (hleft : S.writesLeft v.disk = none)
    (parent : UInt32) (name : ShortName) (data : Payload) (cause : DiskError) :
    (v.write parent name data).outcome ≠ .error (.device cause) := by
  rcases write_spec h parent name data with
    ⟨e, d, hwrite, -, hplacement⟩ | ⟨p, done, rest, -, -, hadvance, -, hend⟩
  · rw [hwrite]
    intro he
    obtain rfl : e = .device cause := Except.error.inj he
    exact Contents.placement_ne_device cause hplacement
  · rcases hend with ⟨-, hok⟩ | ⟨hrest, -⟩
    · simp [hok]
    · exact absurd (hadvance.writesLeft_eq_none hleft).2 hrest

/-- A delete fails on a device that works only when it looks for a table past the end. -/
theorem delete_ne_device {v : Volume D} (h : S.Usable v.disk) (hleft : S.writesLeft v.disk = none)
    {parent : UInt32} {name : ShortName}
    (hrange : ∀ i, (S.contents v).locate parent name = .ok i →
      ((S.contents v).child parent i).isDirectory = true →
        S.Covers ((S.contents v).child parent i).cluster) (cause : DiskError) :
    (v.delete parent name).outcome ≠ .error (.device cause) := by
  rcases delete_spec h parent name hrange with
    ⟨e, d, hdelete, -, hlocate⟩ | ⟨i, done, rest, -, -, hadvance, -, hend⟩
  · rw [hdelete]
    intro he
    obtain rfl : e = .device cause := Except.error.inj he
    exact Contents.locate_ne_device cause hlocate
  · rcases hend with ⟨-, hok⟩ | ⟨hrest, -⟩
    · simp [hok]
    · exact absurd (hadvance.writesLeft_eq_none hleft).2 hrest

theorem readSector_kept {v : Volume D} (h : S.Ready v.disk) (hpos : 0 < S.sectors v.disk) :
    ∃ d, readSector v.disk bootSector = (d, .ok (S.contents v).boot) ∧ S.Kept v.disk d := by
  have hlba : bootSector + 1 ≤ S.sectors v.disk := by
    unfold bootSector
    omega
  have hroom : 1 * sectorSize ≤ sectorSize := by decide
  obtain ⟨d, hread, hready, himage, hsectors, hleft⟩ := S.read_eq h hlba hroom
  refine ⟨d, ?_, hready, himage, hsectors, hleft⟩
  simp only [readSector, hread, Except.map]
  exact congrArg (fun w => (d, Except.ok w)) (Image.window_extract 512 _ 0)

theorem readSector_eq {v : Volume D} (h : S.Usable v.disk) :
    ∃ d, readSector v.disk bootSector = (d, .ok (S.contents v).boot) ∧ S.Unchanged v.disk d := by
  have hs := h.sectors
  obtain ⟨d, hread, hd⟩ := readSector_kept h.ready (by omega)
  exact ⟨d, hread, hd.unchanged h⟩

/-- Mounting a signed device takes the map that it holds. -/
theorem mount_kept {v : Volume D} (h : S.Ready v.disk) (hmap : S.Has v.disk mapCluster)
    (hsigned : (S.contents v).boot = BootSector.signature) :
    ∃ d, Volume.mount v.disk = ⟨d, .ok (S.contents v).reload.map,
        [.mounted (S.contents v).reload.map.freeCount]⟩ ∧ S.Kept v.disk d := by
  have hpos : 0 < S.sectors v.disk := Nat.lt_of_lt_of_le (by decide) hmap
  obtain ⟨d, hsector, hd⟩ := readSector_kept h hpos
  obtain ⟨e, hread, he⟩ := readCluster_kept (v := ⟨d, v.map⟩) hd.ready (hd.has hmap)
  rw [hd.contents] at hread
  refine ⟨e, ?_, hd.trans he⟩
  simp only [Volume.mount, hsector, hsigned, if_true, readCluster, hread, Except.map,
    Image.window_toArray, Contents.map_reload]

theorem mount_eq {v : Volume D} (h : S.Usable v.disk)
    (hsigned : (S.contents v).boot = BootSector.signature) :
    ∃ d, Volume.mount v.disk = ⟨d, .ok (S.contents v).reload.map,
        [.mounted (S.contents v).reload.map.freeCount]⟩ ∧ S.Unchanged v.disk d := by
  obtain ⟨d, hmount, hd⟩ := mount_kept h.ready (covers_of_lt (by decide) _ h) hsigned
  exact ⟨d, hmount, hd.unchanged h⟩

/-- The signature goes to sector 0 and leaves every cluster but the first. -/
theorem writeSignature_eq {d : D} (h : S.Ready d) (hpos : 0 < S.sectors d)
    (hleft : S.writesLeft d ≠ some 0) (map : AllocationMap) :
    ∃ e, BlockDevice.write d BootSector.signature.toArray bootSector 1 = (e, .ok ()) ∧
      S.Ready e ∧ S.sectors e = S.sectors d ∧ S.writesLeft e = (S.writesLeft d).map (· - 1) ∧
      (S.contents ⟨e, map⟩).boot = BootSector.signature ∧
      ∀ c, 0 < c.toNat → (S.contents ⟨e, map⟩).cluster c = (S.contents ⟨d, map⟩).cluster c := by
  have hlba : bootSector + 1 ≤ S.sectors d := by
    unfold bootSector
    omega
  have hsector : BootSector.signature.toArray.size = 1 * sectorSize := by simp
  obtain ⟨e, hwrite, hready, himage, hsectors, he⟩ := S.write_eq h hlba hsector hleft
  have hsize : 0 + 512 ≤ (S.image d).size := by
    have hle := Nat.mul_le_mul_right sectorSize hlba
    rw [Nat.add_mul, Nat.one_mul] at hle
    have hlast := S.sectors_le h
    simp only [bootSector, sectorSize] at hle hlast
    omega
  refine ⟨e, hwrite, hready, hsectors, he, ?_, fun c hc => ?_⟩
  · simp only [contents, himage]
    exact Image.window_patch _ _ hsize
  · simp only [contents, himage]
    refine Image.window_patch_of_disjoint _ _ (.inr ?_)
    rw [hsector]
    simp only [clusterLba, sectorsPerCluster, sectorSize, bootSector]
    omega

theorem inData_formatSteps :
    ∀ step ∈ Volume.formatSteps, step.Within (AllocationMap.isData · = true) := by
  simp only [Volume.formatSteps, List.forall_mem_cons]
  exact ⟨trivial, AllocationMap.isData_iff.mpr (by decide), by simp⟩

/-- Formatting leaves the map in memory saved and the table of the root. -/
theorem applyAll_formatSteps (x : Contents) :
    (x.applyAll Volume.formatSteps).boot = x.boot ∧
      (x.applyAll Volume.formatSteps).cluster mapCluster = x.map.encode ∧
      (x.applyAll Volume.formatSteps).cluster rootCluster =
        (Directory.create Volume.rootName rootCluster).encode := by
  simp only [Volume.formatSteps, Contents.applyAll_cons, Contents.applyAll_nil, Contents.apply]
  refine ⟨rfl, ?_, Contents.cluster_store_self ..⟩
  rw [Contents.cluster_store_of_ne _ _ (by decide), Contents.cluster_saveMap_self]

/-- Formatting a device that takes every write leaves the signature, an empty map and the table of
the root. -/
theorem format_eq {d : D} (h : S.Usable d) (hleft : S.writesLeft d = none) :
    ∃ e, Volume.format d = ⟨e, .ok .formatted, [.formatted AllocationMap.formatted.freeCount]⟩ ∧
      S.Usable e ∧ S.writesLeft e = none ∧
      (S.contents ⟨e, .formatted⟩).boot = BootSector.signature ∧
      (S.contents ⟨e, .formatted⟩).cluster mapCluster = AllocationMap.formatted.encode ∧
      (S.contents ⟨e, .formatted⟩).cluster rootCluster =
        (Directory.create Volume.rootName rootCluster).encode := by
  have hpos : 0 < S.sectors d := Nat.lt_of_lt_of_le (by decide) h.sectors
  obtain ⟨c, hwrite, hready, hsectors, hc, hboot, -⟩ :=
    writeSignature_eq h.ready hpos (by simp [hleft]) .formatted
  have husable : S.Usable c := ⟨hready, hsectors ▸ h.sectors⟩
  have hcnone : S.writesLeft c = none := by simp [hc, hleft]
  obtain ⟨w, outcome, done, rest, hperform, hdone, hadvance, hx, hend⟩ :=
    perform_spec (v := ⟨c, .formatted⟩) husable inData_formatSteps
  obtain ⟨hnone, rfl⟩ := hadvance.writesLeft_eq_none hcnone
  rw [List.append_nil] at hdone
  subst hdone
  obtain ⟨-, rfl⟩ := hend.resolve_right fun hstop => hstop.1 rfl
  obtain ⟨e, map⟩ := w
  obtain rfl : map = .formatted := congrArg Contents.map hx
  refine ⟨e, ?_, hadvance.usable, hnone, ?_⟩
  · simp only [Volume.format, hwrite, hperform]
  · obtain ⟨hkept, hmap, hroot⟩ := applyAll_formatSteps (S.contents ⟨c, .formatted⟩)
    rw [map_contents] at hmap
    rw [hx]
    exact ⟨hkept.trans hboot, hmap, hroot⟩

end Storage

end ClusterFs
