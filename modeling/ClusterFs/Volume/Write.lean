import ClusterFs.Payload
import ClusterFs.Volume.Basic

/-!
Creating and deleting files and directories. Both read the parent table, decide, and then change the
device step by step; there is no journal, so a device that fails midway keeps the steps before.
-/
namespace ClusterFs.Volume

variable {D : Type} [BlockDevice D]

/-- Where a new entry goes: a free child of the parent table, and clusters in chain order. -/
structure Placement where
  index : Fin 62
  clusters : List UInt32

/-- The first cluster; a placement always has one. -/
def Placement.first (p : Placement) : UInt32 := p.clusters.headD 0

/-- Decides where an entry of `size` bytes goes, or why it cannot be made. -/
def place (map : AllocationMap) (table : Directory) (name : ShortName) (size : Nat) :
    Except FsError Placement :=
  if (table.find? name).isSome then .error .alreadyExists
  else
    match table.vacancy? with
    | none => .error .directoryFull
    | some index =>
      if wordLimit ≤ size then .error .insufficientSpace
      else
        match map.findFree (requiredClusters size) with
        | .error e => .error e
        | .ok clusters => .ok ⟨index, clusters⟩

/-- Links, saves and fills the clusters of a file, of which `i` are done. -/
def fileSteps (data : Payload) (i : Nat) : List UInt32 → List Step
  | [] => []
  | cluster :: rest =>
    .link cluster (rest.headD AllocationMap.endOfChain) :: .saveMap ::
      .store cluster (data.cluster i) :: fileSteps data (i + 1) rest

def directorySteps (name : ShortName) (cluster : UInt32) : List Step :=
  [.store cluster (Directory.create name cluster).encode,
    .link cluster AllocationMap.endOfChain, .saveMap]

/-- An empty payload makes a directory. -/
def kindFor (data : Payload) : EntryKind := if data.size = 0 then .directory else .file

/-- The steps of a write: the contents first, then the parent table with the new entry. -/
def writeSteps (parent : UInt32) (table : Directory) (name : ShortName) (data : Payload)
    (p : Placement) : List Step :=
  let contents :=
    match kindFor data with
    | .directory => directorySteps name p.first
    | .file => fileSteps data 0 p.clusters
  let entry := Entry.create name (kindFor data) (UInt32.ofNat data.size) p.first
  contents ++ [.store parent (table.setChild p.index entry).encode]

/-- Creates a file with the given data, or a directory when there is none, and answers with its
first cluster. -/
def write (v : Volume D) (parent : UInt32) (name : ShortName) (data : Payload) : Reply D UInt32 :=
  match v.openDirectory parent with
  | (v, .error e) => v.refuse e
  | (v, .ok table) =>
    match place v.map table name data.size with
    | .error e => v.refuse e
    | .ok p =>
      match v.perform (writeSteps parent table name data p) with
      | (v, .error e) => v.refuse (.device e)
      | (v, .ok ()) =>
        let done := Notice.wrote (kindFor data) name data.size p.clusters.length p.first
          (Directory.slotOf p.index)
        ⟨v, .ok p.first, #[], [done]⟩

/-- What a directory about to be deleted still holds. -/
def countOrphans (v : Volume D) (entry : Entry) : Volume D × Except DiskError Nat :=
  if entry.isDirectory then
    match v.loadTable entry.cluster with
    | (v, .error e) => (v, .error e)
    | (v, .ok table) => (v, .ok table.usedCount)
  else (v, .ok 0)

/-- Removes an entry and releases its clusters. What a deleted directory held keeps its clusters but
can no longer be reached. -/
def delete (v : Volume D) (parent : UInt32) (name : ShortName) : Reply D Unit :=
  match v.openDirectory parent with
  | (v, .error e) => v.refuse e
  | (v, .ok table) =>
    match table.find? name with
    | none => v.refuse .notFound
    | some index =>
      let entry := table.children.get index
      match v.countOrphans entry with
      | (v, .error e) => v.refuse (.device e)
      | (v, .ok orphans) =>
        let warnings := if orphans = 0 then [] else [Notice.orphans name orphans]
        let (map, freed) := v.map.freeChain entry.cluster
        let steps := [.store parent (table.setChild index .empty).encode, .saveMap]
        match ({ v with map } : Volume D).perform steps with
        | (v, .error e) => ⟨v, .error (.device e), #[], warnings⟩
        | (v, .ok ()) => ⟨v, .ok (), #[], warnings ++ [.deleted name freed]⟩

end ClusterFs.Volume
