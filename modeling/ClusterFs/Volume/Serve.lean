import ClusterFs.Volume.Read
import ClusterFs.Volume.Write

/-! The filesystem calls as operations on a volume. -/
namespace ClusterFs.Volume

variable {D : Type} [BlockDevice D]

/-- Runs a call on a volume. Reads use only the size of the buffer, and a delete ignores it. -/
def serve (v : Volume D) (call : Call) (name : ShortName) (parent : UInt32) (buffer : Payload) :
    Reply D Unit :=
  match call with
  | .read => (v.read parent name buffer.size).discard
  | .readDirectory => v.readDirectory parent name buffer.size
  | .write => (v.write parent name buffer).discard
  | .delete => v.delete parent name

/-- The notices of a served call, which end with the refusal if there was one. -/
def report (call : Call) (name : ShortName) (parent : UInt32) (r : Reply D Unit) : List Notice :=
  match r.outcome with
  | .ok () => r.notices
  | .error cause => r.notices ++ [.refused call name parent cause]

end ClusterFs.Volume
