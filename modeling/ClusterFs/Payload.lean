import ClusterFs.Geometry

/-!
Data handed to a write. A payload gives its bytes on demand, so one that is refused is never looked
at.
-/
namespace ClusterFs

structure Payload where
  size : Nat
  byte : Nat → UInt8

namespace Payload

def empty : Payload := ⟨0, fun _ => 0⟩

def ofArray (bytes : Array UInt8) : Payload := ⟨bytes.size, fun i => bytes.getD i 0⟩

/-- The `i`-th cluster of the payload, filled up with zeros. -/
def cluster (p : Payload) (i : Nat) : Cluster :=
  Vector.ofFn fun j : Fin 2048 =>
    let position := clusterSize * i + j.1
    if position < p.size then p.byte position else 0

end Payload

end ClusterFs
