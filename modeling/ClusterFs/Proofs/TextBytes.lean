import Mathlib.Logic.Function.Basic

/-!
Texts as bytes. The bytes of a text are those of its characters one after another, and an ASCII
character is a single byte with its number.
-/
namespace ClusterFs

/-- The bytes of a text in UTF-8. -/
abbrev utf8 (text : String) : List UInt8 := text.toUTF8.data.toList

theorem utf8_ofList (chars : List Char) :
    utf8 (String.ofList chars) = chars.flatMap String.utf8EncodeChar := by
  rw [utf8, String.toUTF8_eq_toByteArray, String.toByteArray_ofList, List.utf8Encode,
    List.toList_data_toByteArray]

theorem utf8_eq_flatMap (text : String) :
    utf8 text = text.toList.flatMap String.utf8EncodeChar := by
  rw [← utf8_ofList, String.ofList_toList]

@[simp] theorem utf8_append (first second : String) :
    utf8 (first ++ second) = utf8 first ++ utf8 second := by
  simp only [utf8_eq_flatMap, String.toList_append, List.flatMap_append]

theorem utf8_join (pieces : List String) : utf8 (String.join pieces) = pieces.flatMap utf8 := by
  induction pieces with
  | nil => rfl
  | cons piece rest ih => rw [String.join_cons, utf8_append, ih, List.flatMap_cons]

/-! ### ASCII -/

theorem utf8EncodeChar_of_ascii {c : Char} (h : c.toNat < 128) :
    String.utf8EncodeChar c = [UInt8.ofNat c.toNat] := by
  have hle : c.val.toNat ≤ 0x7f := Nat.le_of_lt_succ h
  rw [String.utf8EncodeChar, if_pos hle]
  rfl

/-- A byte is shown as the character of that number. -/
theorem toNat_ofNat_byte (b : UInt8) : (Char.ofNat b.toNat).toNat = b.toNat := by
  have hb := b.toNat_lt
  have hvalid : b.toNat.isValidChar := .inl (by omega)
  rw [Char.ofNat, dif_pos hvalid]
  rfl

theorem ofNat_byte_injective : Function.Injective fun b : UInt8 => Char.ofNat b.toNat := by
  intro a b h
  have hnumber := congrArg Char.toNat h
  simp only [toNat_ofNat_byte] at hnumber
  exact UInt8.toNat_inj.mp hnumber

/-- ASCII bytes are those of the characters that they number. -/
theorem utf8_ofList_of_ascii {bytes : List UInt8} (h : ∀ b ∈ bytes, b < 128) :
    utf8 (String.ofList (bytes.map fun b => Char.ofNat b.toNat)) = bytes := by
  rw [utf8_ofList, List.flatMap_map]
  induction bytes with
  | nil => rfl
  | cons b rest ih =>
    obtain ⟨hb, hrest⟩ := List.forall_mem_cons.mp h
    have hascii : (Char.ofNat b.toNat).toNat < 128 := by
      rw [toNat_ofNat_byte]
      exact UInt8.lt_iff_toNat_lt.mp hb
    rw [List.flatMap_cons, ih hrest, utf8EncodeChar_of_ascii hascii, toNat_ofNat_byte,
      UInt8.ofNat_toNat]
    rfl

/-- An ASCII text has the characters that its bytes number. -/
theorem map_utf8_of_ascii {text : String} (h : ∀ c ∈ text.toList, c.toNat < 128) :
    (utf8 text).map (fun b => Char.ofNat b.toNat) = text.toList := by
  rw [utf8_eq_flatMap]
  generalize text.toList = chars at h ⊢
  induction chars with
  | nil => rfl
  | cons c rest ih =>
    obtain ⟨hc, hrest⟩ := List.forall_mem_cons.mp h
    have hbyte : (UInt8.ofNat c.toNat).toNat = c.toNat :=
      UInt8.toNat_ofNat_of_lt (Nat.lt_trans hc (by decide))
    rw [List.flatMap_cons, List.map_append, ih hrest, utf8EncodeChar_of_ascii hc,
      List.map_singleton, hbyte, Char.ofNat_toNat]
    rfl

end ClusterFs
