/-!
Words as little-endian bytes.
-/
namespace ClusterFs.LittleEndian

def word16 (a b : UInt8) : UInt16 := UInt16.ofNat (a.toNat + 256 * b.toNat)

def word32 (a b c d : UInt8) : UInt32 :=
  UInt32.ofNat (a.toNat + 256 * b.toNat + 65536 * c.toNat + 16777216 * d.toNat)

/-- The words at an offset of a byte vector. -/
def word16At {n : Nat} (raw : Vector UInt8 n) (i : Nat) (h : i + 1 < n := by decide) : UInt16 :=
  word16 raw[i] raw[i + 1]

def word32At {n : Nat} (raw : Vector UInt8 n) (i : Nat) (h : i + 3 < n := by decide) : UInt32 :=
  word32 raw[i] raw[i + 1] raw[i + 2] raw[i + 3]

def word64At {n : Nat} (raw : Vector UInt8 n) (i : Nat) (h : i + 7 < n := by decide) : UInt64 :=
  UInt64.ofNat ((word32At raw i (by omega)).toNat +
    4294967296 * (word32At raw (i + 4) (by omega)).toNat)

/-- Byte `k` of a number, the least significant being byte 0. -/
def byteOf (n : Nat) : Nat → UInt8
  | 0 => UInt8.ofNat n
  | k + 1 => byteOf (n / 256) k

def bytes32 (w : UInt32) : Vector UInt8 4 :=
  #v[byteOf w.toNat 0, byteOf w.toNat 1, byteOf w.toNat 2, byteOf w.toNat 3]

end ClusterFs.LittleEndian
