import ClusterFs.AllocationMap
import ClusterFs.Call
import ClusterFs.Directory
import ClusterFs.Proofs.Words

/-!
Entries, directory tables, allocation maps and requests come back from their bytes, and every byte
of a cluster comes back from what was read from it.
-/
namespace ClusterFs
open LittleEndian

/-- Eleven bytes that are those of a name are read as that name, wherever they lie. -/
theorem ShortName.atOffset_eq (name : ShortName) {n : Nat} (raw : Vector UInt8 n) (i : Nat)
    (h : i + 10 < n) (hraw : ∀ k (hk : k < 11), raw[i + k] = name.byte k) :
    ShortName.atOffset raw i h = name := by
  obtain ⟨base, extension⟩ := name
  simp only [ShortName.atOffset, ShortName.mk.injEq]
  constructor
  · ext k hk
    simp [hraw k (by omega), ShortName.byte, hk]
  · ext k hk
    have hbyte := hraw (8 + k) (by omega)
    simp only [← Nat.add_assoc] at hbyte
    simp [hbyte, ShortName.byte, hk, Vector.getD]

/-- The eleven bytes of a name that was read are those it was read from. -/
theorem ShortName.byte_atOffset {n : Nat} (raw : Vector UInt8 n) (i : Nat) (h : i + 10 < n)
    {k : Nat} (hk : k < 11) : (ShortName.atOffset raw i h).byte k = raw[i + k] := by
  unfold ShortName.byte ShortName.atOffset
  split
  · simp
  · have hlast : k - 8 < 3 := by omega
    have hindex : i + 8 + (k - 8) = i + k := by omega
    simp [Vector.getD, hlast, hindex]

theorem Entry.decode_encode (e : Entry) : Entry.decode e.encode = e := by
  have hname : ShortName.atOffset e.encode 0 = e.name := by
    apply ShortName.atOffset_eq
    intro k hk
    interval_cases k <;> rfl
  obtain ⟨name, attributes, userAttributes, undelete, createTime, createDate, accessDate,
    clusterHigh, modifiedTime, modifiedDate, clusterLow, size⟩ := e
  simp only [Entry.decode, hname, Entry.mk.injEq, true_and]
  refine ⟨rfl, rfl, rfl, ?_, ?_, ?_, ?_, ?_, ?_, ?_, ?_⟩
  · exact word16_byteOf createTime
  · exact word16_byteOf createDate
  · exact word16_byteOf accessDate
  · exact word16_byteOf clusterHigh
  · exact word16_byteOf modifiedTime
  · exact word16_byteOf modifiedDate
  · exact word16_byteOf clusterLow
  · exact word32_byteOf size

theorem Entry.encode_decode (raw : RawEntry) : (Entry.decode raw).encode = raw := by
  have hname {k : Nat} (hk : k < 11) : (Entry.decode raw).name.byte k = raw[0 + k] :=
    ShortName.byte_atOffset raw 0 (by decide) hk
  apply Vector.ext
  intro i hi
  rcases Nat.lt_or_ge i 11 with hlow | hhigh
  · have hbyte : (Entry.decode raw).encode[i] = (Entry.decode raw).name.byte i := by
      interval_cases i <;> rfl
    rw [hbyte, hname hlow]
    simp only [Nat.zero_add]
  · rcases Nat.lt_or_ge i 14 with hmarks | hhigh
    · interval_cases i <;> rfl
    · rcases Nat.lt_or_ge i 28 with hwords | hsize
      · interval_cases i <;> exact byteOf_word16At raw _ _ (by decide)
      · interval_cases i <;> exact byteOf_word32At raw _ _ (by decide)

theorem Entry.getElem_encode_empty {k : Nat} (hk : k < 32) : empty.encode[k] = 0 := by
  have hzero : ∀ k (hk : k < 32), empty.encode[k] = 0 := by decide
  exact hzero k hk

namespace Directory

theorem getElem_encode (t : Directory) {i k : Nat} (hi : i < 64) (hk : k < 32) :
    t.encode[32 * i + k] = (t.slot i).encode[k] := by
  have hrow : (32 * i + k) / 32 = i := by omega
  have hcolumn : (32 * i + k) % 32 = k := by omega
  simp only [encode, Vector.getElem_ofFn, hrow, hcolumn]

/-- A slot of an encoded table holds the entry of that slot. -/
theorem atSlot_encode (t : Directory) {i : Nat} (hi : i < 64) :
    Entry.atSlot t.encode.toArray i = t.slot i := by
  have hwindow : Image.window 32 t.encode.toArray (entrySize * i) = (t.slot i).encode := by
    ext k hk
    have hlt : 32 * i + k < t.encode.toArray.size := by
      rw [Vector.size_toArray]
      omega
    rw [Image.getElem_window, Array.getD_eq_getD_getElem?, Array.getElem?_eq_getElem hlt,
      Option.getD_some, Vector.getElem_toArray, getElem_encode t hi hk]
  unfold Entry.atSlot
  rw [hwindow, Entry.decode_encode]

/-- Behind the entry of the table itself, the bytes of a new table are zero. -/
theorem getElem_encode_create (name : ShortName) (c : UInt32) {j : Nat} (hj : j < 2048)
    (hlater : 32 ≤ j) : (create name c).encode[j] = 0 := by
  have hindex : 32 * (j / 32) + j % 32 = j := Nat.div_add_mod j 32
  have hentry : (create name c).slot (j / 32) = .empty := by
    have hne : j / 32 ≠ 0 := by omega
    have hchild (i : Nat) : (Vector.replicate 62 Entry.empty).getD i .empty = .empty := by
      rw [Vector.getD, Vector.toArray_replicate, Array.getD_eq_getD_getElem?,
        Array.getElem?_replicate]
      split_ifs <;> rfl
    simp only [slot, if_neg hne, create, hchild, ite_self]
  have hbyte := getElem_encode (create name c) (by omega : j / 32 < 64)
    (Nat.mod_lt j (by decide : 0 < 32))
  simp only [hindex, hentry] at hbyte
  rw [hbyte, Entry.getElem_encode_empty]

theorem decode_encode (t : Directory) : decode t.encode = t := by
  have hchildren : (Vector.ofFn fun i : Fin 62 => Entry.atSlot t.encode.toArray (slotOf i)) =
      t.children := by
    ext i hi
    have hslot : firstChildSlot + i < 64 := by
      show 2 + i < 64
      omega
    have hne : firstChildSlot + i ≠ 1 := by
      show 2 + i ≠ 1
      omega
    rw [Vector.getElem_ofFn, slotOf, atSlot_encode t hslot]
    simp [slot, Vector.getD, hi, hne]
  simp only [decode, atSlot_encode t (i := 0) (by decide), atSlot_encode t (i := 1) (by decide),
    hchildren]
  rfl

theorem slot_decode (raw : Cluster) {i : Nat} (hi : i < 64) :
    (decode raw).slot i = Entry.atSlot raw.toArray i := by
  unfold slot decode
  split_ifs with hself hreserved
  · rw [hself]
  · rw [hreserved]
  · have hchild : i - firstChildSlot < 62 := by
      show i - 2 < 62
      omega
    have hslot : slotOf (i - firstChildSlot) = i := by
      show 2 + (i - 2) = i
      omega
    simp [Vector.getD, hchild, hslot]

theorem encode_decode (raw : Cluster) : (decode raw).encode = raw := by
  apply Vector.ext
  intro k hk
  have hslot : k / 32 < 64 := by omega
  have hindex : 32 * (k / 32) + k % 32 = k := Nat.div_add_mod k 32
  have hbyte := getElem_encode (decode raw) hslot (Nat.mod_lt k (by decide))
  simp only [hindex] at hbyte
  rw [hbyte, slot_decode raw hslot]
  simp only [Entry.atSlot, Entry.encode_decode, Image.getElem_window, hindex]
  simp [hk]

end Directory

theorem AllocationMap.decode_encode (m : AllocationMap) : decode m.encode = m := by
  obtain ⟨entries⟩ := m
  simp only [decode, AllocationMap.mk.injEq]
  ext i hi : 1
  have h0 : 4 * i / 4 = i := by omega
  have h1 : (4 * i + 1) / 4 = i := by omega
  have h2 : (4 * i + 2) / 4 = i := by omega
  have h3 : (4 * i + 3) / 4 = i := by omega
  simp only [Vector.getElem_ofFn, word32At, encode, h0, h1, h2, h3, Nat.mul_mod_right,
    Nat.mul_add_mod]
  exact word32_byteOf _

theorem AllocationMap.encode_decode (raw : Cluster) : (decode raw).encode = raw := by
  apply Vector.ext
  intro k hk
  have hindex : 4 * (k / 4) + k % 4 = k := Nat.div_add_mod k 4
  simp only [encode, decode, Vector.getElem_ofFn, byteOf_word32At _ _ _ (Nat.mod_lt k (by decide)),
    hindex]

theorem Request.decode_encode (r : Request) : Request.decode r.encode = r := by
  have hname : ShortName.atOffset r.encode 8 = r.name := by
    apply ShortName.atOffset_eq
    intro k hk
    interval_cases k <;> rfl
  obtain ⟨buffer, name, parent, size⟩ := r
  simp only [Request.decode, hname, Request.mk.injEq, true_and]
  refine ⟨?_, word32_byteOf parent, word32_byteOf size⟩
  have hbuffer := buffer.toNat_lt
  have hfirst : (word32At (Request.encode ⟨buffer, name, parent, size⟩) 0).toNat =
      buffer.toNat % 4294967296 := by
    exact toNat_word32_byteOf buffer.toNat
  have hsecond : (word32At (Request.encode ⟨buffer, name, parent, size⟩) 4).toNat =
      buffer.toNat / 4294967296 := by
    -- the bytes from the fourth on are those of the upper half
    refine (toNat_word32_byteOf (buffer.toNat / 256 / 256 / 256 / 256)).trans ?_
    omega
  apply UInt64.toNat_inj.mp
  rw [word64At, hfirst, hsecond, UInt64.toNat_ofNat']
  omega

end ClusterFs
