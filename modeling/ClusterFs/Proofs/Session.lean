import ClusterFs.Volume.Mount
import ClusterFs.Volume.Read
import ClusterFs.Volume.Write
import Mathlib.Data.Finset.SDiff
import Mathlib.Data.Finset.Insert

/-!
Sessions: a volume under a sequence of requests. A session remembers which clusters were returned by
writes of directories and which were taken by writes of files, until a delete releases them.
-/
namespace ClusterFs

/-- A request on a volume, or a new mount of its device. -/
inductive Action where
  | write (parent : UInt32) (name : ShortName) (data : Payload)
  | read (parent : UInt32) (name : ShortName) (capacity : Nat)
  | readDirectory (parent : UInt32) (name : ShortName) (capacity : Nat)
  | delete (parent : UInt32) (name : ShortName)
  | stat (parent : UInt32) (name : ShortName)
  | remount

namespace Action

def parent? : Action → Option UInt32
  | .write parent _ _ | .read parent _ _ | .readDirectory parent _ _ | .delete parent _
  | .stat parent _ => some parent
  | .remount => none

/-- Whether a request may change the volume. -/
def changes : Action → Bool
  | .write .. | .delete .. => true
  | _ => false

end Action

/-- The outcome of an action on a volume, without the value it answers with. -/
def Volume.outcome {D : Type} [BlockDevice D] (v : Volume D) : Action → Except FsError Unit
  | .write parent name data => (v.write parent name data).discard.outcome
  | .read parent name capacity => (v.read parent name capacity).discard.outcome
  | .readDirectory parent name capacity => (v.readDirectory parent name capacity).outcome
  | .delete parent name => (v.delete parent name).outcome
  | .stat parent name => (v.stat parent name).2.map fun _ => ()
  | .remount => ((mount v.disk).map.map fun _ => ()).mapError .device

/-- The data clusters that are free before and not after. -/
def AllocationMap.taken (before after : AllocationMap) : Finset UInt32 :=
  before.freeClusters.toFinset \ after.freeClusters.toFinset

structure Session (D : Type) where
  volume : Volume D
  directories : Finset UInt32
  files : Finset UInt32

namespace Session

variable {D : Type} [BlockDevice D]

/-- A session on a volume that was just formatted. -/
def fresh (disk : D) : Except DiskError (Session D) :=
  (Volume.format disk).volume.map fun v => ⟨v, {rootCluster}, ∅⟩

/-- The session after an action; only a mount that fails leaves none. -/
def step (s : Session D) : Action → Except DiskError (Session D)
  | .write parent name data =>
    let r := s.volume.write parent name data
    match r.outcome with
    | .error _ => .ok { s with volume := r.volume }
    | .ok first =>
      if data.size = 0 then .ok ⟨r.volume, insert first s.directories, s.files⟩
      else .ok ⟨r.volume, s.directories, s.files ∪ s.volume.map.taken r.volume.map⟩
  | .delete parent name =>
    let v := (s.volume.delete parent name).volume
    let released := v.map.taken s.volume.map
    .ok ⟨v, s.directories \ released, s.files \ released⟩
  | .read parent name capacity =>
    .ok { s with volume := (s.volume.read parent name capacity).volume }
  | .readDirectory parent name capacity =>
    .ok { s with volume := (s.volume.readDirectory parent name capacity).volume }
  | .stat parent name => .ok { s with volume := (s.volume.stat parent name).1 }
  | .remount => (Volume.mount s.volume.disk).volume.map fun v => { s with volume := v }

/-- The actions that lead from one session to another, each of them allowed where it is taken. -/
inductive Run (allowed : Session D → Action → Session D → Prop) (s : Session D) :
    List Action → Session D → Prop
  | nil : Run allowed s [] s
  | snoc {actions : List Action} {t u : Session D} {a : Action} (run : Run allowed s actions t)
      (hstep : t.step a = .ok u) (hallowed : allowed t a u) : Run allowed s (actions ++ [a]) u

/-- An action whose parent is no cluster of a file. -/
def Admits (s : Session D) (a : Action) : Prop :=
  ∀ parent, a.parent? = some parent → parent ∉ s.files

variable {allowed : Session D → Action → Session D → Prop} {s t : Session D} {actions : List Action}

/-- What every allowed action keeps holds after every run. -/
theorem Run.invariant (h : Run allowed s actions t) {motive : Session D → Prop} (hs : motive s)
    (hstep : ∀ {t u a}, motive t → t.step a = .ok u → allowed t a u → motive u) : motive t := by
  induction h with
  | nil => exact hs
  | snoc _ hto hallowed ih => exact hstep ih hto hallowed

end Session

end ClusterFs
