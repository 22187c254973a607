import ClusterFs.Proofs.CheckedReads
import ClusterFs.Volume.Mount

/-!
Requests with every range checked, on any device and on any volume. However damaged the map and the
tables are, no index, no slice, no copy and no sum leaves its range, so every request is answered.
-/
namespace ClusterFs
namespace Checked
open Volume (Reply Notice Step Placement Mounting)

variable {D : Type} [BlockDevice D]

/-! ### Placing -/

def required (size : Nat) : Checked Nat :=
  if size = 0 then return 1 else clusterCount longLimit size

theorem required_eq {size : Nat} (h : size < longLimit) :
    required size = .ok (requiredClusters size) := by
  unfold required requiredClusters
  split
  · rfl
  · exact clusterCount_eq h

def place (map : AllocationMap) (table : Directory) (name : ShortName) (size : Nat) :
    Checked (Except FsError Placement) :=
  if (table.find? name).isSome then return .error .alreadyExists
  else
    match table.vacancy? with
    | none => return .error .directoryFull
    | some i =>
      if wordLimit ≤ size then return .error .insufficientSpace
      else do
        let needed ← required size
        match ← findFree map needed with
        | .error e => return .error e
        | .ok clusters =>
          let _ ← index clusters[0]?
          return .ok ⟨i, clusters⟩

theorem place_eq (map : AllocationMap) (table : Directory) (name : ShortName) (size : Nat) :
    place map table name size = .ok (Volume.place map table name size) := by
  unfold place Volume.place
  split
  · rfl
  cases table.vacancy? with
  | none => rfl
  | some i =>
    simp only
    split_ifs with hsize
    · rfl
    rw [required_eq (by unfold longLimit wordLimit at *; omega), ok_bind, findFree_eq, ok_bind]
    cases hfree : map.findFree (requiredClusters size) with
    | error e => rfl
    | ok clusters =>
      have hlength := (AllocationMap.findFree_spec hfree).1
      have hpos := requiredClusters_pos size
      simp only [List.getElem?_eq_getElem (by omega : 0 < clusters.length), index_some, ok_bind]
      rfl

/-! ### The steps of a write -/

/-- The `i`-th chunk of a payload, and zeros after it if it is the last and not whole. -/
def chunk (data : Payload) (i : Nat) : Checked Cluster :=
  let size := min clusterSize (data.size - clusterSize * i)
  let bytes := Array.ofFn fun j : Fin size => data.byte (clusterSize * i + j)
  if size = clusterSize then copy 2048 bytes else put (Vector.replicate 2048 0) 0 size bytes

theorem chunk_eq (data : Payload) (i : Nat) : chunk data i = .ok (data.cluster i) := by
  unfold chunk
  generalize hsize : min clusterSize (data.size - clusterSize * i) = size
  have hbyte {k : Nat} : k < size ↔ k < 2048 ∧ clusterSize * i + k < data.size := by
    unfold clusterSize at *
    omega
  simp only
  split_ifs with hwhole
  · obtain rfl := hwhole
    have hcluster : Array.ofFn (fun j : Fin clusterSize => data.byte (clusterSize * i + j)) =
        (data.cluster i).toArray := by
      refine Array.ext (by simp) fun k hk _ => ?_
      rw [Array.size_ofFn] at hk
      simp [Payload.cluster, (hbyte.mp hk).2]
    rw [hcluster, copy_eq]
  · rw [put_eq _ (by rw [Array.size_ofFn, Nat.zero_add]) (by unfold clusterSize at hsize; omega)]
    refine congrArg _ (Vector.ext fun k hk => ?_)
    simp [getElem_patched, Payload.cluster, hbyte, hk]

def fileSteps (data : Payload) (i : Nat) : List UInt32 → Checked (List Step)
  | [] => return []
  | c :: rest => do
    let next ← fit longLimit (i + 1)
    let bytes ← chunk data i
    let others ← fileSteps data next rest
    return .link c (rest.headD AllocationMap.endOfChain) :: .saveMap :: .store c bytes :: others

theorem fileSteps_eq (data : Payload) {i : Nat} {clusters : List UInt32}
    (h : i + clusters.length < longLimit) :
    fileSteps data i clusters = .ok (Volume.fileSteps data i clusters) := by
  induction clusters generalizing i with
  | nil => rfl
  | cons c rest ih =>
    rw [List.length_cons] at h
    rw [fileSteps, fit_eq (by omega), ok_bind, chunk_eq, ok_bind, ih (by omega)]
    rfl

/-- A table with one child changed, as bytes. -/
def tableWith (t : Directory) (i : Fin 62) (e : Entry) : Checked Cluster := do
  let children ← assign t.children i.1 e
  tableBytes { t with children }

theorem tableWith_eq (t : Directory) (i : Fin 62) (e : Entry) :
    tableWith t i e = .ok (t.setChild i e).encode := by
  rw [tableWith, assign_eq _ _ i.2, ok_bind, tableBytes_eq]
  rfl

def contentSteps (name : ShortName) (data : Payload) (p : Placement) : Checked (List Step) :=
  match Volume.kindFor data with
  | .directory => do
    let bytes ← tableBytes (Directory.create name p.first)
    return [.store p.first bytes, .link p.first AllocationMap.endOfChain, .saveMap]
  | .file => fileSteps data 0 p.clusters

theorem contentSteps_eq (name : ShortName) (data : Payload) {p : Placement}
    (h : p.clusters.length < longLimit) :
    contentSteps name data p = .ok (Volume.contentSteps name data p) := by
  unfold contentSteps Volume.contentSteps
  cases Volume.kindFor data with
  | directory =>
    simp only [tableBytes_eq, ok_bind]
    rfl
  | file => exact fileSteps_eq data ((Nat.zero_add _).trans_lt h)

def writeSteps (parent : UInt32) (table : Directory) (name : ShortName) (data : Payload)
    (p : Placement) : Checked (List Step) := do
  let contents ← contentSteps name data p
  let bytes ← tableWith table p.index (Volume.newEntry name data p)
  return contents ++ [.store parent bytes]

theorem writeSteps_eq (parent : UInt32) (table : Directory) (name : ShortName) (data : Payload)
    {p : Placement} (h : p.clusters.length < longLimit) :
    writeSteps parent table name data p = .ok (Volume.writeSteps parent table name data p) := by
  rw [writeSteps, contentSteps_eq name data h, ok_bind, tableWith_eq]
  rfl

/-! ### Carrying out steps -/

def apply (v : Volume D) : Step → Checked (Volume D × Except DiskError Unit)
  | .link c next => do
    let entries ← assign v.map.entries c.toNat next
    return (⟨v.disk, ⟨entries⟩⟩, .ok ())
  | .saveMap => do
    let bytes ← mapBytes v.map
    let (disk, outcome) ← writeCluster v.disk mapCluster bytes
    return (⟨disk, v.map⟩, outcome)
  | .store c bytes => do
    let (disk, outcome) ← writeCluster v.disk c bytes
    return (⟨disk, v.map⟩, outcome)

/-- The only entries of the map that are set are those of data clusters. -/
theorem apply_eq (v : Volume D) {step : Step} (h : step.Links (AllocationMap.isData · = true)) :
    apply v step = .ok (step.apply v) := by
  cases step with
  | link c next =>
    have hc := (AllocationMap.isData_iff.mp h).2
    have hset : v.map.set c next = ⟨v.map.entries.set c.toNat next hc⟩ := by
      refine congrArg AllocationMap.mk (Vector.ext fun j hj => ?_)
      rw [Vector.getElem_setIfInBounds, Vector.getElem_set]
    rw [apply, assign_eq _ _ hc, ok_bind, Step.apply, hset]
    rfl
  | saveMap =>
    rw [apply, mapBytes_eq, ok_bind, writeCluster_eq]
    rfl
  | store c bytes =>
    rw [apply, writeCluster_eq]
    rfl

def perform (v : Volume D) : List Step → Checked (Volume D × Except DiskError Unit)
  | [] => return (v, .ok ())
  | step :: rest => do
    match ← apply v step with
    | (v, .error e) => return (v, .error e)
    | (v, .ok ()) => perform v rest

theorem perform_eq (v : Volume D) {steps : List Step}
    (h : ∀ step ∈ steps, step.Links (AllocationMap.isData · = true)) :
    perform v steps = .ok (v.perform steps) := by
  induction steps generalizing v with
  | nil => rfl
  | cons step rest ih =>
    rw [perform, apply_eq v (h step (by simp)), ok_bind, Volume.perform]
    obtain ⟨u, _ | _⟩ := step.apply v
    · rfl
    · exact ih u fun s hs => h s (List.mem_cons_of_mem _ hs)

/-! ### Writing -/

def write (v : Volume D) (parent : UInt32) (name : ShortName) (data : Payload) :
    Checked (Reply D UInt32) := do
  match ← openDirectory v parent with
  | (v, .error e) => return v.refuse e
  | (v, .ok table) =>
    match ← place v.map table name data.size with
    | .error e => return v.refuse e
    | .ok p =>
      let steps ← writeSteps parent table name data p
      match ← perform v steps with
      | (v, .error e) => return v.refuse (.device e)
      | (v, .ok ()) =>
        let slot ← fit longLimit (firstChildSlot + p.index)
        let done :=
          Notice.wrote (Volume.kindFor data) name data.size p.clusters.length p.first slot
        return ⟨v, .ok p.first, #[], [done]⟩

theorem write_eq (v : Volume D) (parent : UInt32) (name : ShortName) (data : Payload) :
    write v parent name data = .ok (v.write parent name data) := by
  rw [write, openDirectory_eq, ok_bind, Volume.write]
  obtain ⟨u, _ | table⟩ := v.openDirectory parent
  · rfl
  simp only [place_eq, ok_bind]
  cases hplace : Volume.place u.map table name data.size with
  | error e => rfl
  | ok p =>
    obtain ⟨-, -, hfree, -⟩ := Volume.placement_clusters hplace
    have hlength := AllocationMap.length_findFree_lt (Volume.place_spec hplace).2.2.2
    -- the steps link the clusters of the placement, and these are data clusters
    have hlinks := Volume.links_writeSteps hplace parent
    simp only [writeSteps_eq parent table name data (hlength.trans (by decide)), ok_bind,
      perform_eq u fun step hstep => (hlinks step hstep).imp fun c hc => (hfree c hc).1]
    obtain ⟨w, _ | _⟩ := u.perform (Volume.writeSteps parent table name data p)
    · rfl
    · simp only [fit_eq (show firstChildSlot + p.index.1 < longLimit by
        unfold firstChildSlot longLimit; omega)]
      rfl

/-! ### Deleting -/

def countOrphans (v : Volume D) (entry : Entry) : Checked (Volume D × Except DiskError Nat) :=
  if entry.isDirectory then do
    match ← loadTable v entry.cluster with
    | (v, .error e) => return (v, .error e)
    | (v, .ok table) => return (v, .ok table.usedCount)
  else return (v, .ok 0)

theorem countOrphans_eq (v : Volume D) (entry : Entry) :
    countOrphans v entry = .ok (v.countOrphans entry) := by
  unfold countOrphans Volume.countOrphans
  split
  · rw [loadTable_eq, ok_bind]
    obtain ⟨u, _ | table⟩ := v.loadTable entry.cluster <;> rfl
  · rfl

def delete (v : Volume D) (parent : UInt32) (name : ShortName) : Checked (Reply D Unit) := do
  match ← openDirectory v parent with
  | (v, .error e) => return v.refuse e
  | (v, .ok table) =>
    match table.find? name with
    | none => return v.refuse .notFound
    | some i =>
      let entry ← index table.children[i.1]?
      match ← countOrphans v entry with
      | (v, .error e) => return v.refuse (.device e)
      | (v, .ok orphans) =>
        let warnings := if orphans = 0 then [] else [Notice.orphans name orphans]
        let (map, freed) ← freeChain v.map entry.cluster 0
        let bytes ← tableWith table i .empty
        match ← perform ⟨v.disk, map⟩ [.store parent bytes, .saveMap] with
        | (v, .error e) => return ⟨v, .error (.device e), #[], warnings⟩
        | (v, .ok ()) => return ⟨v, .ok (), #[], warnings ++ [.deleted name freed]⟩

/-- A chain that is released fits into the count, as the map has no more entries. -/
theorem released_eq (m : AllocationMap) (start : UInt32) :
    freeChain m start 0 = .ok (m.freeChain start) := by
  have hused : m.usedEntries ≤ 512 := m.usedEntries_le
  rw [freeChain_eq m start (by unfold longLimit; omega), Nat.zero_add]

theorem delete_eq (v : Volume D) (parent : UInt32) (name : ShortName) :
    delete v parent name = .ok (v.delete parent name) := by
  rw [delete, openDirectory_eq, ok_bind, Volume.delete]
  obtain ⟨u, _ | table⟩ := v.openDirectory parent
  · rfl
  simp only
  cases table.find? name with
  | none => rfl
  | some i =>
    have hlinks := Volume.links_deleteSteps parent table i
    simp only [child_eq, ok_bind, countOrphans_eq]
    obtain ⟨w, _ | orphans⟩ := u.countOrphans (table.children.get i)
    · rfl
    · simp only [released_eq, tableWith_eq, ok_bind,
        perform_eq _ fun step hstep => (hlinks step hstep).imp fun _ => False.elim]
      obtain ⟨x, _ | _⟩ := Volume.perform
        (⟨w.disk, (w.map.freeChain (table.children.get i).cluster).1⟩ : Volume D)
        [.store parent (table.setChild i .empty).encode, .saveMap] <;> rfl

/-! ### Mounting -/

/-- The map of an empty volume, entry by entry. -/
def emptyMap : Checked AllocationMap := do
  let entries : Vector UInt32 512 := Vector.replicate 512 AllocationMap.unused
  let entries ← assign entries 0 AllocationMap.reserved0
  let entries ← assign entries 1 AllocationMap.reserved1
  let entries ← assign entries rootCluster.toNat AllocationMap.endOfChain
  return ⟨entries⟩

theorem emptyMap_eq : emptyMap = .ok .formatted := by
  unfold emptyMap
  simp (disch := decide) only [assign_eq, ok_bind]
  refine congrArg Except.ok (congrArg AllocationMap.mk (Vector.ext fun j hj => ?_))
  simp only [Vector.getElem_set, Vector.getElem_replicate, Vector.getElem_ofFn]
  have htwo : rootCluster.toNat = 2 := rfl
  split_ifs <;> first | rfl | omega

/-- What a device with the signature is mounted with. -/
def load (disk : D) : Checked (Mounting D) := do
  let (disk, got) ← readCluster disk mapCluster
  match got.outcome with
  | .error e => return ⟨disk, .error e, []⟩
  | .ok () =>
    let found ← map (Image.window 2048 got.bytes 0)
    let free ← freeCount found
    return ⟨disk, .ok found, [.mounted free]⟩

def format (disk : D) : Checked (Mounting D) :=
  match BlockDevice.write disk BootSector.signature.toArray bootSector 1 with
  | (disk, .error e) => return ⟨disk, .error e, []⟩
  | (disk, .ok ()) => do
    let map ← emptyMap
    let name ← nameOfParts #[82, 79, 79, 84] #[]
    let root ← tableBytes (Directory.create name rootCluster)
    match ← perform ⟨disk, map⟩ [.saveMap, .store rootCluster root] with
    | (v, .error e) => return ⟨v.disk, .error e, []⟩
    | (v, .ok ()) =>
      let free ← freeCount v.map
      return ⟨v.disk, .ok v.map, [.formatted free]⟩

theorem format_eq (disk : D) : format disk = .ok (Volume.format disk) := by
  unfold format Volume.format
  obtain ⟨d, _ | _⟩ := BlockDevice.write disk BootSector.signature.toArray bootSector 1
  · rfl
  · have hlinks : ∀ step ∈ Volume.formatSteps, step.Links (AllocationMap.isData · = true) := by
      simp [Volume.formatSteps, Step.Links]
    have hperform := perform_eq (⟨d, .formatted⟩ : Volume D) hlinks
    rw [Volume.formatSteps] at hperform ⊢
    have hname : nameOfParts #[82, 79, 79, 84] #[] = .ok Volume.rootName := nameOfParts_eq ..
    simp only [emptyMap_eq, ok_bind, hname, tableBytes_eq, hperform]
    obtain ⟨v, _ | _⟩ := Volume.perform (⟨d, .formatted⟩ : Volume D)
      [.saveMap, .store rootCluster (Directory.create Volume.rootName rootCluster).encode]
    · rfl
    · simp only [freeCount_eq]
      rfl

def mount (disk : D) : Checked (Mounting D) :=
  match readSector disk bootSector with
  | (disk, .error e) => return ⟨disk, .error e, []⟩
  | (disk, .ok sector) =>
    if sector = BootSector.signature then load disk
    else do
      let m ← format disk
      return { m with notices := .unsigned :: m.notices }

theorem mount_eq (disk : D) : mount disk = .ok (Volume.mount disk) := by
  unfold mount Volume.mount
  obtain ⟨d, _ | sector⟩ := readSector disk bootSector
  · rfl
  simp only
  split
  · rw [load, readCluster_eq, ok_bind, ClusterFs.readCluster]
    obtain ⟨d', bytes, _ | _⟩ :=
      BlockDevice.read d (clusterLba mapCluster) sectorsPerCluster clusterSize
    · rfl
    · simp only [map_eq, ok_bind, freeCount_eq]
      rfl
  · rw [format_eq]
    rfl

/-! ### Sequences of requests -/

/-- The answer to a request and the volume it leaves; only a mount that fails leaves none. -/
def respond (v : Volume D) : Action → Checked (Answer × Except DiskError (Volume D))
  | .write parent name data => do
    let r ← write v parent name data
    return (.write r.outcome, .ok r.volume)
  | .read parent name capacity => do
    let r ← read v parent name capacity
    return (.read r.outcome r.filled, .ok r.volume)
  | .readDirectory parent name capacity => do
    let r ← readDirectory v parent name capacity
    return (.readDirectory r.outcome r.filled, .ok r.volume)
  | .delete parent name => do
    let r ← delete v parent name
    return (.delete r.outcome, .ok r.volume)
  | .stat parent name => do
    let (v, outcome) ← stat v parent name
    return (.stat outcome, .ok v)
  | .remount => do
    let m ← mount v.disk
    return (.remount (m.map.map fun _ => ()), m.volume)

theorem respond_eq (s : Session D) (a : Action) :
    respond s.volume a = .ok (s.volume.answer a, (s.step a).map Session.volume) := by
  cases a with
  | write parent name data =>
    have hafter : (s.step (.write parent name data)).map Session.volume =
        .ok (s.volume.write parent name data).volume := by
      simp only [Session.step]
      split
      · rfl
      · split <;> rfl
    rw [respond, write_eq, hafter]
    rfl
  | read parent name capacity =>
    rw [respond, read_eq]
    rfl
  | readDirectory parent name capacity =>
    rw [respond, readDirectory_eq]
    rfl
  | delete parent name =>
    rw [respond, delete_eq]
    rfl
  | stat parent name =>
    rw [respond, stat_eq]
    rfl
  | remount =>
    have hafter : (s.step .remount).map Session.volume = (Volume.mount s.volume.disk).volume := by
      rw [Session.step]
      cases (Volume.mount s.volume.disk).volume <;> rfl
    rw [respond, mount_eq, hafter]
    rfl

def answers (v : Volume D) : List Action → Checked (List Answer)
  | [] => return []
  | a :: rest => do
    let (first, after) ← respond v a
    match after with
    | .error _ => return [first]
    | .ok v =>
      let others ← answers v rest
      return first :: others

theorem answers_eq (s : Session D) (actions : List Action) :
    answers s.volume actions = .ok (s.answers actions) := by
  induction actions generalizing s with
  | nil => rfl
  | cons a rest ih =>
    rw [answers, respond_eq, ok_bind, Session.answers]
    cases hstep : s.step a with
    | error e => rfl
    | ok t =>
      show (answers t.volume rest >>= fun others => _) = _
      rw [ih t]
      rfl

end Checked

namespace Volume

variable {D : Type} [BlockDevice D]

/-- On every device and every volume no index, slice, copy or sum of a mount, of a walk along a
chain or of a sequence of requests leaves its range, and each request is answered. A read costs one
cluster for the parent and at most as many as the map has or the buffer has room for, and keeps what
lies past the whole clusters of the buffer. -/
theorem never_trapped (hD : Delivers D) :
    (∀ d : D, Checked.mount d = .ok (mount d)) ∧
    (∀ m start, Checked.chain m start = .ok (m.chain start) ∧
      Checked.freeChain m start 0 = .ok (m.freeChain start)) ∧
    (∀ (s : Session D) (actions : List Action),
      Checked.answers s.volume actions = .ok (s.answers actions) ∧
        (.remount ∉ actions → (s.answers actions).length = actions.length)) ∧
    ∀ (v : Volume D) (parent : UInt32) (name : ShortName) (old : Array UInt8),
      (∀ reads, CountsClusters reads → reads (v.read parent name old.size).volume.disk ≤
        reads v.disk + (1 + min 512 (old.size / clusterSize))) ∧
      ∀ k, old.size / clusterSize * clusterSize ≤ k →
        ((v.read parent name old.size).buffer old)[k]? = old[k]? := by
  refine ⟨Checked.mount_eq, fun m start => ⟨Checked.chain_eq m start, Checked.released_eq m start⟩,
    fun s actions => ⟨Checked.answers_eq s actions, Session.length_answers⟩,
    fun v parent name old =>
      ⟨fun reads hreads => hreads.read v parent name old.size, fun k hk => ?_⟩⟩
  have hsize := size_filled_read_le_clusters hD v parent name old.size
  rw [Reply.buffer, Image.getElem?_patch, if_neg (by omega)]

/-- A map in which every entry names cluster 3 keeps a walk going for all its steps, and makes no
cluster a directory. -/
theorem loop_answered :
    let looped : AllocationMap := ⟨Vector.replicate 512 3⟩
    let v : Volume MemoryDisk := ⟨.create 4, looped⟩
    Delivers MemoryDisk ∧ Checked.chain looped 3 = .ok (List.replicate 512 3) ∧
      Checked.answers v [.delete 2 .empty, .read 700 .empty 1] =
        .ok [.delete (.error .invalidParent), .read (.error .invalidParent) #[]] ∧
      (v.read 700 .empty 1).volume.disk.transfers.size ≤ 1 := by
  intro looped v
  have hsafe := never_trapped MemoryDisk.delivers
  have hchain : looped.chain 3 = List.replicate 512 3 := by decide +kernel
  have hanswers : (⟨v, ∅, ∅⟩ : Session MemoryDisk).answers
      [.delete 2 .empty, .read 700 .empty 1] =
        [.delete (.error .invalidParent), .read (.error .invalidParent) #[]] := by
    have hterminal : looped.isTerminal 2 = false ∧ looped.isTerminal 700 = false := by
      decide +kernel
    simp [v, Session.answers, Session.step, answer, delete, read, stat, openDirectory, hterminal,
      refuse]
  exact ⟨MemoryDisk.delivers, (hsafe.2.1 looped 3).1.trans (congrArg _ hchain),
    (hsafe.2.2.1 ⟨v, ∅, ∅⟩ _).1.trans (congrArg _ hanswers),
    (hsafe.2.2.2 v 700 .empty #[0]).1 _ MemoryDisk.countsClusters_transfers⟩

end Volume

end ClusterFs
