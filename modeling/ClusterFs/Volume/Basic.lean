import ClusterFs.AllocationMap
import ClusterFs.BlockDevice
import ClusterFs.Directory
import ClusterFs.Volume.Notice

/-!
A mounted volume: a block device and the allocation map kept in memory. Operations answer with a
`Reply`, and change the device through a list of steps that stops at the first failure.
-/
namespace ClusterFs

structure Volume (D : Type) where
  disk : D
  map : AllocationMap

namespace Volume

variable {D : Type}

/-- What an operation leaves: the volume, the outcome, the bytes it put at the start of the caller's
buffer, and what it reports. -/
structure Reply (D α : Type) where
  volume : Volume D
  outcome : Except FsError α
  filled : Array UInt8 := #[]
  notices : List Notice := []

def refuse {α : Type} (v : Volume D) (cause : FsError) : Reply D α :=
  ⟨v, .error cause, #[], []⟩

/-- The caller's buffer after the operation. -/
def Reply.buffer {α : Type} (r : Reply D α) (old : Array UInt8) : Array UInt8 :=
  Image.patch old 0 r.filled

/-- The same reply without the value. -/
def Reply.discard {α : Type} (r : Reply D α) : Reply D Unit :=
  ⟨r.volume, r.outcome.map fun _ => (), r.filled, r.notices⟩

/-- A change of a volume: a link in the map in memory, the map written to the device, or a cluster
written to the device. -/
inductive Step where
  | link (cluster next : UInt32)
  | saveMap
  | store (cluster : UInt32) (bytes : Cluster)

variable [BlockDevice D]

def Step.apply (v : Volume D) : Step → Volume D × Except DiskError Unit
  | .link cluster next => ({ v with map := v.map.set cluster next }, .ok ())
  | .saveMap =>
    let (disk, outcome) := writeCluster v.disk mapCluster v.map.encode
    (⟨disk, v.map⟩, outcome)
  | .store cluster bytes =>
    let (disk, outcome) := writeCluster v.disk cluster bytes
    (⟨disk, v.map⟩, outcome)

/-- The steps in order, up to the first that fails. -/
def perform (v : Volume D) : List Step → Volume D × Except DiskError Unit
  | [] => (v, .ok ())
  | step :: rest =>
    match step.apply v with
    | (v, .error e) => (v, .error e)
    | (v, .ok ()) => v.perform rest

/-- The table stored at a cluster. -/
def loadTable (v : Volume D) (cluster : UInt32) : Volume D × Except DiskError Directory :=
  let (disk, got) := readCluster v.disk cluster
  (⟨disk, v.map⟩, got.map Directory.decode)

/-- The directory at a cluster. A file of one cluster also ends its chain there, so the table must
also describe the cluster as its own. -/
def openDirectory (v : Volume D) (cluster : UInt32) : Volume D × Except FsError Directory :=
  if v.map.isTerminal cluster then
    match v.loadTable cluster with
    | (v, .error e) => (v, .error (.device e))
    | (v, .ok table) => (v, if table.describes cluster then .ok table else .error .invalidParent)
  else (v, .error .invalidParent)

/-- The entry of a name in the directory at `parent`. -/
def stat (v : Volume D) (parent : UInt32) (name : ShortName) : Volume D × Except FsError Entry :=
  match v.openDirectory parent with
  | (v, .error e) => (v, .error e)
  | (v, .ok table) =>
    match table.find? name with
    | none => (v, .error .notFound)
    | some index => (v, .ok (table.children.get index))

end Volume

end ClusterFs
