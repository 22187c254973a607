import ClusterFs.Image
import ClusterFs.Payload

/-!
The memory of a user program: a stretch of mapped bytes. Bytes outside it read as zero, and writes
outside it are dropped.
-/
namespace ClusterFs

structure UserMemory where
  base : Nat
  bytes : Array UInt8

namespace UserMemory

def byte (m : UserMemory) (address : Nat) : UInt8 :=
  if m.base ≤ address then m.bytes.getD (address - m.base) 0 else 0

def window (m : UserMemory) (n address : Nat) : Vector UInt8 n :=
  Vector.ofFn fun i : Fin n => m.byte (address + i)

/-- The memory from an address on, as data of a call. -/
def payload (m : UserMemory) (address size : Nat) : Payload :=
  ⟨size, fun i => m.byte (address + i)⟩

def write (m : UserMemory) (address : Nat) (bytes : Array UInt8) : UserMemory :=
  { m with bytes :=
      Image.patch m.bytes (address - m.base) (bytes.extract (m.base - address) bytes.size) }

/-- The addresses that user programs may name: the lower half less the first page. -/
def lowest : Nat := 0x1000
def limit : Nat := 0x800000000000

/-- Whether `size` bytes at `address` are a non-empty stretch of user addresses. -/
def accepts (address size : UInt64) : Bool :=
  address != 0 && size != 0 && decide (address.toNat + size.toNat < 18446744073709551616) &&
    decide (lowest ≤ address.toNat) && decide (address.toNat + size.toNat ≤ limit)

end UserMemory

end ClusterFs
