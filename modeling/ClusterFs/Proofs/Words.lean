import ClusterFs.LittleEndian
import Mathlib.Tactic.IntervalCases

/-!
Words and their bytes. A number of `count` bytes is made of its bytes, and each byte is found again
in the number that the bytes make; the words of 16 and 32 bits are the numbers of two and of four.
-/
namespace ClusterFs.LittleEndian

/-- The number that bytes make, the first being the least significant. -/
def ofBytes : List UInt8 → Nat
  | [] => 0
  | b :: rest => b.toNat + 256 * ofBytes rest

theorem toNat_byteOf (n k : Nat) : (byteOf n k).toNat = n / 256 ^ k % 256 := by
  induction k generalizing n with
  | zero => rw [byteOf, UInt8.toNat_ofNat', Nat.pow_zero, Nat.div_one]
  | succ k ih => rw [byteOf, ih, Nat.div_div_eq_div_mul, Nat.pow_succ, Nat.mul_comm]

/-- The bytes of a number that bytes make are these. -/
theorem byteOf_ofBytes {bytes : List UInt8} {k : Nat} (h : k < bytes.length) :
    byteOf (ofBytes bytes) k = bytes[k] := by
  induction bytes generalizing k with
  | nil => contradiction
  | cons b rest ih =>
    have hb := b.toNat_lt
    cases k with
    | zero =>
      apply UInt8.toNat_inj.mp
      rw [toNat_byteOf, Nat.pow_zero, Nat.div_one, ofBytes, List.getElem_cons_zero]
      omega
    | succ k =>
      have hrest : ofBytes (b :: rest) / 256 = ofBytes rest := by
        rw [ofBytes]
        omega
      rw [byteOf, hrest, List.getElem_cons_succ, ih]

/-- The lowest bytes of a number make its remainder. -/
theorem ofBytes_byteOf (n count : Nat) :
    ofBytes ((List.range count).map (byteOf n)) = n % 256 ^ count := by
  induction count generalizing n with
  | zero => rw [List.range_zero, List.map_nil, ofBytes, Nat.pow_zero, Nat.mod_one]
  | succ count ih =>
    have hrest : byteOf n ∘ Nat.succ = byteOf (n / 256) := rfl
    rw [List.range_succ_eq_map, List.map_cons, List.map_map, hrest, ofBytes, ih, toNat_byteOf,
      Nat.pow_zero, Nat.div_one, Nat.pow_succ', Nat.mod_mul]

/-! ### Words -/

theorem toNat_word16 (a b : UInt8) : (word16 a b).toNat = ofBytes [a, b] := by
  have ha := a.toNat_lt
  have hb := b.toNat_lt
  simp only [word16, UInt16.toNat_ofNat', ofBytes]
  omega

theorem toNat_word32 (a b c d : UInt8) : (word32 a b c d).toNat = ofBytes [a, b, c, d] := by
  have ha := a.toNat_lt
  have hb := b.toNat_lt
  have hc := c.toNat_lt
  have hd := d.toNat_lt
  simp only [word32, UInt32.toNat_ofNat', ofBytes]
  omega

theorem word16_byteOf (w : UInt16) : word16 (byteOf w.toNat 0) (byteOf w.toNat 1) = w := by
  apply UInt16.toNat_inj.mp
  rw [toNat_word16]
  exact (ofBytes_byteOf w.toNat 2).trans (Nat.mod_eq_of_lt w.toNat_lt)

theorem toNat_word32_byteOf (n : Nat) :
    (word32 (byteOf n 0) (byteOf n 1) (byteOf n 2) (byteOf n 3)).toNat = n % 4294967296 := by
  rw [toNat_word32]
  exact ofBytes_byteOf n 4

theorem word32_byteOf (w : UInt32) :
    word32 (byteOf w.toNat 0) (byteOf w.toNat 1) (byteOf w.toNat 2) (byteOf w.toNat 3) = w := by
  apply UInt32.toNat_inj.mp
  rw [toNat_word32_byteOf, Nat.mod_eq_of_lt w.toNat_lt]

theorem byteOf_word16 (a b : UInt8) {k : Nat} (h : k < 2) :
    byteOf (word16 a b).toNat k = [a, b][k] := by
  rw [toNat_word16, byteOf_ofBytes]

/-- The bytes of a word that was read are those it was read from. -/
theorem byteOf_word16At {n : Nat} (raw : Vector UInt8 n) (i : Nat) (h : i + 1 < n) {k : Nat}
    (hk : k < 2) : byteOf (word16At raw i h).toNat k = raw[i + k] := by
  rw [word16At, byteOf_word16 _ _ hk]
  interval_cases k <;> rfl

theorem byteOf_word32At {n : Nat} (raw : Vector UInt8 n) (i : Nat) (h : i + 3 < n) {k : Nat}
    (hk : k < 4) : byteOf (word32At raw i h).toNat k = raw[i + k] := by
  rw [word32At, toNat_word32, byteOf_ofBytes (by simpa using hk)]
  interval_cases k <;> rfl

end ClusterFs.LittleEndian
