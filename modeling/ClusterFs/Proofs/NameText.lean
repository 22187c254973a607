import ClusterFs.Proofs.TextBytes
import ClusterFs.ShortName
import Mathlib.Data.List.DropRight
import Mathlib.Data.List.GetD
import Mathlib.Data.List.TakeDrop

/-!
Short names as texts. A name is printed without its padding, and a text is split at its last dot and
each part cut or padded to its width. The names that are read back as they were and the texts that
are printed back as they were are determined exactly.
-/
namespace ClusterFs.ShortName

variable {bytes before after : List UInt8}

/-! ### Padding -/

theorem trimmed_eq (bytes : List UInt8) : trimmed bytes = bytes.rdropWhile (· = 0) := rfl

/-- What trimming takes away is zeros. -/
theorem exists_trimmed_append (bytes : List UInt8) :
    ∃ k, bytes = trimmed bytes ++ List.replicate k 0 := by
  refine ⟨(bytes.rtakeWhile (· = 0)).length, ?_⟩
  have hzeros : bytes.rtakeWhile (· = 0) =
      List.replicate (bytes.rtakeWhile (· = 0)).length 0 := by
    apply List.eq_replicate_of_mem
    intro b hb
    have hzero := List.mem_rtakeWhile_imp hb
    exact of_decide_eq_true hzero
  rw [← hzeros, trimmed_eq, List.rdropWhile_append_rtakeWhile]

theorem getD_trimmed (bytes : List UInt8) (i : Nat) :
    (trimmed bytes).getD i 0 = bytes.getD i 0 := by
  obtain ⟨k, hk⟩ := exists_trimmed_append bytes
  conv_rhs => rw [hk]
  simp only [List.getD_eq_getElem?_getD, List.getElem?_append, List.getElem?_replicate]
  split_ifs with hi hk
  · rfl
  · rw [List.getElem?_eq_none (Nat.not_lt.mp hi)]
    rfl
  · rw [List.getElem?_eq_none (Nat.not_lt.mp hi)]

theorem mem_trimmed {b : UInt8} (hb : b ≠ 0) : b ∈ trimmed bytes ↔ b ∈ bytes := by
  obtain ⟨k, hk⟩ := exists_trimmed_append bytes
  conv_rhs => rw [hk]
  simp only [List.mem_append, List.mem_replicate, hb, and_false, or_false]

theorem trimmed_append_replicate (bytes : List UInt8) (k : Nat) :
    trimmed (bytes ++ List.replicate k 0) = trimmed bytes := by
  induction k with
  | zero => rw [List.replicate_zero, List.append_nil]
  | succ k ih =>
    rw [List.replicate_succ', ← List.append_assoc, trimmed_eq,
      List.rdropWhile_concat_pos _ _ _ (by decide), ← trimmed_eq, ih]

theorem trimmed_of_notMem (h : 0 ∉ bytes) : trimmed bytes = bytes := by
  rw [trimmed_eq, List.rdropWhile_eq_self_iff]
  intro hne hlast
  exact h (of_decide_eq_true hlast ▸ List.getLast_mem hne)

theorem length_trimmed_le (bytes : List UInt8) : (trimmed bytes).length ≤ bytes.length :=
  (List.rdropWhile_prefix _ bytes).length_le

theorem trimmed_eq_nil_iff : trimmed bytes = [] ↔ ∀ b ∈ bytes, b = 0 := by
  simp only [trimmed_eq, List.rdropWhile_eq_nil_iff, decide_eq_true_eq]

/-- A part that is cut or padded to a width. -/
theorem toList_padded (n : Nat) (bytes : List UInt8) :
    (Vector.ofFn fun i : Fin n => bytes.getD i 0).toList =
      bytes.take n ++ List.replicate (n - bytes.length) 0 := by
  apply List.ext_getElem
  · rw [Vector.length_toList, List.length_append, List.length_take, List.length_replicate]
    omega
  · intro i hi _
    rw [Vector.length_toList] at hi
    rw [Vector.getElem_toList, Vector.getElem_ofFn, List.getElem_append]
    show bytes.getD i 0 = _
    split_ifs with htake
    · rw [List.length_take] at htake
      rw [List.getElem_take, List.getD_eq_getElem _ _ (by omega)]
    · rw [List.length_take] at htake
      rw [List.getElem_replicate, List.getD_eq_default _ _ (by omega)]

theorem trimmed_padded (n : Nat) (bytes : List UInt8) :
    trimmed (Vector.ofFn fun i : Fin n => bytes.getD i 0).toList = trimmed (bytes.take n) := by
  rw [toList_padded, trimmed_append_replicate]

/-- Cutting or padding the trimmed parts of a name gives the name. -/
theorem ofParts_trimmed (name : ShortName) :
    ofParts (trimmed name.base.toList) (trimmed name.extension.toList) = name := by
  obtain ⟨base, extension⟩ := name
  simp only [ofParts, getD_trimmed, ShortName.mk.injEq]
  constructor
  · ext i hi
    simp
  · ext i hi
    simp

/-! ### The last dot -/

theorem exists_last_of_mem {α : Type} {x : α} {xs : List α} (h : x ∈ xs) :
    ∃ before after, xs = before ++ x :: after ∧ x ∉ after := by
  obtain ⟨after, before, hreverse, hnotMem⟩ := List.eq_append_cons_of_mem (List.mem_reverse.mpr h)
  refine ⟨before.reverse, after.reverse, ?_, mt List.mem_reverse.mp hnotMem⟩
  rw [← List.reverse_reverse xs, hreverse]
  simp

theorem splitLastDot_of_notMem (h : dot ∉ bytes) : splitLastDot bytes = none := by
  induction bytes with
  | nil => rfl
  | cons b rest ih =>
    rw [List.mem_cons, not_or] at h
    obtain ⟨hb, hrest⟩ := h
    simp only [splitLastDot, ih hrest, if_neg (Ne.symm hb)]

theorem splitLastDot_append (before : List UInt8) (h : dot ∉ after) :
    splitLastDot (before ++ dot :: after) = some (before, after) := by
  induction before with
  | nil => simp only [List.nil_append, splitLastDot, splitLastDot_of_notMem h, if_true]
  | cons b rest ih => simp only [List.cons_append, splitLastDot, ih]

theorem ofBytes_of_notMem (h : dot ∉ bytes) : ofBytes bytes = ofParts bytes [] := by
  simp only [ofBytes, splitLastDot_of_notMem h]

theorem ofBytes_append (before : List UInt8) (h : dot ∉ after) :
    ofBytes (before ++ dot :: after) = ofParts before after := by
  simp only [ofBytes, splitLastDot_append before h]

/-! ### Printing and reading -/

/-- The printed form of a name made of parts. -/
theorem displayBytes_ofParts (before after : List UInt8) :
    displayBytes (ofParts before after) = trimmed (before.take 8) ++
      if (trimmed (after.take 3)).isEmpty then [] else dot :: trimmed (after.take 3) := by
  simp only [displayBytes, ofParts, trimmed_padded]

/-- What is read as a part and printed again is no longer than the text of the part. -/
theorem length_trimmed_padded_le (n : Nat) (bytes : List UInt8) :
    (trimmed (Vector.ofFn fun i : Fin n => bytes.getD i 0).toList).length ≤ bytes.length := by
  rw [trimmed_padded]
  exact (length_trimmed_le _).trans (List.length_take_le' ..)

/-- A name whose extension is all zero is read back from its base if that has no dot. -/
theorem ofBytes_base_iff {name : ShortName} (h : trimmed name.extension.toList = []) :
    ofBytes (trimmed name.base.toList) = name ↔ dot ∉ trimmed name.base.toList := by
  constructor
  · intro hread hdot
    -- the base that is read ends before the dot
    obtain ⟨before, after, hsplit, hnotMem⟩ := exists_last_of_mem hdot
    rw [hsplit, ofBytes_append before hnotMem] at hread
    have hlength : (trimmed (ofParts before after).base.toList).length ≤ before.length :=
      length_trimmed_padded_le 8 before
    rw [hread, hsplit, List.length_append, List.length_cons] at hlength
    omega
  · intro hdot
    have hparts := ofParts_trimmed name
    rw [h] at hparts
    rw [ofBytes_of_notMem hdot, hparts]

/-- A name is read back from its base and its extension if the extension has no dot. -/
theorem ofBytes_joined_iff (name : ShortName) :
    ofBytes (trimmed name.base.toList ++ dot :: trimmed name.extension.toList) = name ↔
      dot ∉ trimmed name.extension.toList := by
  constructor
  · intro hread hdot
    -- the extension that is read starts after the dot
    obtain ⟨before, after, hsplit, hnotMem⟩ := exists_last_of_mem hdot
    rw [hsplit, ← List.cons_append, ← List.append_assoc, ofBytes_append _ hnotMem] at hread
    have hlength : (trimmed (ofParts (trimmed name.base.toList ++ dot :: before)
        after).extension.toList).length ≤ after.length := length_trimmed_padded_le 3 after
    rw [hread, hsplit, List.length_append, List.length_cons] at hlength
    omega
  · intro hdot
    rw [ofBytes_append _ hdot, ofParts_trimmed]

/-- A name is read back from its printed form if no dot follows the end of its base. -/
theorem ofBytes_displayBytes_iff (name : ShortName) : ofBytes name.displayBytes = name ↔
    dot ∉ trimmed name.extension.toList ∧
      ((∀ b ∈ name.extension.toList, b = 0) → dot ∉ name.base.toList) := by
  have hbase : dot ∈ trimmed name.base.toList ↔ dot ∈ name.base.toList := mem_trimmed (by decide)
  rw [← trimmed_eq_nil_iff, ← hbase]
  by_cases h : trimmed name.extension.toList = []
  · rw [displayBytes, h, List.isEmpty_nil, if_pos rfl, List.append_nil, ofBytes_base_iff h]
    simp only [List.not_mem_nil, not_false_eq_true, true_and, forall_const]
  · rw [displayBytes, List.isEmpty_eq_false_iff.mpr h, if_neg Bool.false_ne_true,
      ofBytes_joined_iff]
    simp only [h, false_implies, and_true]

/-- A text without a dot is printed back if it fits into the base. -/
theorem displayBytes_ofBytes_of_notMem (hzero : 0 ∉ bytes) (hdot : dot ∉ bytes) :
    (ofBytes bytes).displayBytes = bytes ↔ bytes.length ≤ 8 := by
  have htake : 0 ∉ bytes.take 8 := fun h => hzero (List.mem_of_mem_take h)
  rw [ofBytes_of_notMem hdot, displayBytes_ofParts, trimmed_of_notMem htake]
  simp only [List.take_nil, show trimmed [] = [] from rfl, List.isEmpty_nil, if_true,
    List.append_nil, List.take_eq_self_iff]

/-- A text with a dot is printed back if both parts fit and the last is not empty. -/
theorem displayBytes_ofBytes_append (hzero : 0 ∉ before ++ dot :: after) (hdot : dot ∉ after) :
    (ofBytes (before ++ dot :: after)).displayBytes = before ++ dot :: after ↔
      before.length ≤ 8 ∧ after.length ≤ 3 ∧ after ≠ [] := by
  simp only [List.mem_append, List.mem_cons, not_or] at hzero
  have hbefore : 0 ∉ before.take 8 := fun h => hzero.1 (List.mem_of_mem_take h)
  have hafter : 0 ∉ after.take 3 := fun h => hzero.2.2 (List.mem_of_mem_take h)
  rw [ofBytes_append before hdot, displayBytes_ofParts, trimmed_of_notMem hbefore,
    trimmed_of_notMem hafter]
  constructor
  · intro hprinted
    have hlength := congrArg List.length hprinted
    split_ifs at hlength with hempty
    · rw [List.append_nil, List.length_take, List.length_append, List.length_cons] at hlength
      omega
    · simp only [List.length_append, List.length_cons, List.length_take] at hlength
      refine ⟨by omega, by omega, ?_⟩
      rintro rfl
      exact hempty rfl
  · rintro ⟨hbase, hextension, hne⟩
    rw [List.take_of_length_le hbase, List.take_of_length_le hextension,
      List.isEmpty_eq_false_iff.mpr hne, if_neg Bool.false_ne_true]

/-! ### Texts -/

/-- The text before the last dot, all of it if there is none. -/
def beforeLastDot (text : List Char) : List Char :=
  if '.' ∈ text then (text.rdropWhile (· ≠ '.')).dropLast else text

/-- The text after the last dot, none of it if there is none. -/
def afterLastDot (text : List Char) : List Char :=
  if '.' ∈ text then text.rtakeWhile (· ≠ '.') else []

variable {text first last : List Char}

theorem reverse_append_dot (first last : List Char) :
    (first ++ '.' :: last).reverse = last.reverse ++ '.' :: first.reverse := by
  simp only [List.reverse_append, List.reverse_cons, List.append_assoc, List.singleton_append]

theorem forall_mem_reverse_ne (h : '.' ∉ last) : ∀ c ∈ last.reverse, decide (c ≠ '.') = true := by
  intro c hc
  rw [decide_eq_true_eq]
  rintro rfl
  exact h (List.mem_reverse.mp hc)

theorem beforeLastDot_append (first : List Char) (h : '.' ∉ last) :
    beforeLastDot (first ++ '.' :: last) = first := by
  rw [beforeLastDot, if_pos (by simp), List.rdropWhile, reverse_append_dot,
    List.dropWhile_append_of_pos (forall_mem_reverse_ne h), List.dropWhile_cons_of_neg (by simp),
    List.reverse_cons, List.reverse_reverse, List.dropLast_concat]

theorem afterLastDot_append (first : List Char) (h : '.' ∉ last) :
    afterLastDot (first ++ '.' :: last) = last := by
  rw [afterLastDot, if_pos (by simp), List.rtakeWhile, reverse_append_dot,
    List.takeWhile_append_of_pos (forall_mem_reverse_ne h), List.takeWhile_cons_of_neg (by simp),
    List.append_nil, List.reverse_reverse]

theorem getLast?_ne_dot (h : '.' ∉ text) : text.getLast? ≠ some '.' :=
  fun hlast => h (List.mem_of_getLast? hlast)

theorem getLast?_append_dot_ne (first : List Char) (h : '.' ∉ last) :
    (first ++ '.' :: last).getLast? ≠ some '.' ↔ last ≠ [] := by
  rcases List.eq_nil_or_concat last with rfl | ⟨rest, c, rfl⟩
  · simp only [List.getLast?_concat, ne_eq, not_true_eq_false]
  · rw [List.concat_eq_append] at h ⊢
    have hc : c ≠ '.' := fun hc => h (by rw [hc]; exact List.mem_append_right rest (by simp))
    rw [← List.cons_append, ← List.append_assoc, List.getLast?_concat]
    exact iff_of_true (fun hlast => hc (Option.some.inj hlast)) (by simp)

/-- A printed byte is the dot or a byte of the name. -/
theorem mem_displayBytes {name : ShortName} {b : UInt8} (h : b ∈ name.displayBytes) :
    b = dot ∨ ∃ k < 11, b = name.byte k := by
  have hpart (part : List UInt8) (hb : b ∈ trimmed part) : b ∈ part :=
    (List.rdropWhile_prefix _ part).subset hb
  have hmem : b = dot ∨ b ∈ name.base.toList ∨ b ∈ name.extension.toList := by
    simp only [displayBytes, List.mem_append] at h
    rcases h with hbase | hextension
    · exact .inr (.inl (hpart _ hbase))
    · split_ifs at hextension
      · contradiction
      · exact (List.mem_cons.mp hextension).imp_right fun hb => .inr (hpart _ hb)
  rcases hmem with rfl | hbase | hextension
  · exact .inl rfl
  · obtain ⟨k, hk, rfl⟩ := List.getElem_of_mem hbase
    rw [Vector.length_toList] at hk
    exact .inr ⟨k, by omega, by simp [byte, hk]⟩
  · obtain ⟨k, hk, rfl⟩ := List.getElem_of_mem hextension
    rw [Vector.length_toList] at hk
    have hlate : ¬ 8 + k < 8 := by omega
    exact .inr ⟨8 + k, by omega, by simp [byte, Vector.getD, hk, hlate]⟩

/-- An ASCII name is read back if the bytes of its text are read as the name. -/
theorem parse_display {name : ShortName} (h : ∀ k < 11, name.byte k < 128) :
    parse name.display = ofBytes name.displayBytes := by
  have hascii : ∀ b ∈ name.displayBytes, b < 128 := by
    intro b hb
    rcases mem_displayBytes hb with rfl | ⟨k, hk, rfl⟩
    · decide
    · exact h k hk
  show ofBytes (utf8 (String.ofList (name.displayBytes.map fun b => Char.ofNat b.toNat))) = _
  rw [utf8_ofList_of_ascii hascii]

/-- An ASCII text is printed back if its bytes are. -/
theorem display_parse_iff {text : String} (h : ∀ c ∈ text.toList, c.toNat < 128) :
    (parse text).display = text ↔ (ofBytes (utf8 text)).displayBytes = utf8 text := by
  rw [← String.toList_inj, display, String.toList_ofList, displayChars, ← map_utf8_of_ascii h]
  exact (List.map_injective_iff.mpr ofNat_byte_injective).eq_iff

/-- The bytes of a text, as characters, are printed back if the parts around its last dot fit. -/
theorem displayBytes_ofBytes_iff (hzero : 0 ∉ bytes)
    (htext : bytes.map (fun b => Char.ofNat b.toNat) = text) :
    (ofBytes bytes).displayBytes = bytes ↔
      (beforeLastDot text).length ≤ 8 ∧ (afterLastDot text).length ≤ 3 ∧
        text.getLast? ≠ some '.' := by
  have hmem (bytes : List UInt8) :
      '.' ∈ bytes.map (fun b => Char.ofNat b.toNat) ↔ dot ∈ bytes :=
    List.mem_map_of_injective (a := dot) ofNat_byte_injective
  subst htext
  by_cases hdot : dot ∈ bytes
  · obtain ⟨before, after, rfl, hnotMem⟩ := exists_last_of_mem hdot
    have hlast := mt (hmem after).mp hnotMem
    rw [displayBytes_ofBytes_append hzero hnotMem, List.map_append, List.map_cons,
      show Char.ofNat dot.toNat = '.' from rfl, beforeLastDot_append _ hlast,
      afterLastDot_append _ hlast, getLast?_append_dot_ne _ hlast, List.length_map,
      List.length_map]
    simp only [ne_eq, List.map_eq_nil_iff]
  · have hnone := mt (hmem bytes).mp hdot
    rw [displayBytes_ofBytes_of_notMem hzero hdot, beforeLastDot, afterLastDot, if_neg hnone,
      if_neg hnone, List.length_map]
    exact (and_iff_left ⟨Nat.zero_le 3, getLast?_ne_dot hnone⟩).symm

/-- An ASCII name is read back from its text exactly if its extension, up to the last byte that is
not zero, has no dot and, if the extension is all zero, neither has its base. An ASCII text without
zeros is printed back exactly if the part before its last dot fits into the base, the part after it
into the extension, and it does not end in a dot. -/
theorem text_round_trips :
    (∀ name : ShortName, (∀ k < 11, name.byte k < 128) →
      (parse name.display = name ↔
        dot ∉ trimmed name.extension.toList ∧
          ((∀ b ∈ name.extension.toList, b = 0) → dot ∉ name.base.toList))) ∧
    ∀ text : String, (∀ c ∈ text.toList, 0 < c.toNat ∧ c.toNat < 128) →
      ((parse text).display = text ↔
        (beforeLastDot text.toList).length ≤ 8 ∧ (afterLastDot text.toList).length ≤ 3 ∧
          text.toList.getLast? ≠ some '.') := by
  refine ⟨fun name hascii => ?_, fun text hchars => ?_⟩
  · rw [parse_display hascii, ofBytes_displayBytes_iff]
  · have hascii : ∀ c ∈ text.toList, c.toNat < 128 := fun c hc => (hchars c hc).2
    have htext := map_utf8_of_ascii hascii
    have hzero : 0 ∉ utf8 text := by
      intro hmem
      have hchar := List.mem_map_of_mem (f := fun b : UInt8 => Char.ofNat b.toNat) hmem
      rw [htext] at hchar
      exact absurd (hchars _ hchar).1 (by decide)
    rw [display_parse_iff hascii, displayBytes_ofBytes_iff hzero htext]

/-- A base with a dot and a zero inside is read back, and a text with two dots is printed back. -/
theorem dotted_round_trip :
    let name : ShortName := ⟨#v[97, 46, 0, 98, 0, 0, 0, 0], #v[116, 0, 0]⟩
    let text := String.ofList ['a', '.', 'b', '.', 'c']
    (∀ k < 11, name.byte k < 128) ∧ parse name.display = name ∧
      (∀ c ∈ text.toList, 0 < c.toNat ∧ c.toNat < 128) ∧ (parse text).display = text := by
  intro name text
  have hname : ∀ k < 11, name.byte k < 128 := by decide
  have htext : ∀ c ∈ text.toList, 0 < c.toNat ∧ c.toNat < 128 := by
    simp [text]
  have hsplit : dot ∉ trimmed name.extension.toList ∧
      ((∀ b ∈ name.extension.toList, b = 0) → dot ∉ name.base.toList) :=
    ⟨by decide, fun hzeros => absurd (hzeros 116 (by decide)) (by decide)⟩
  refine ⟨hname, (text_round_trips.1 name hname).mpr hsplit, htext,
    (text_round_trips.2 text htext).mpr ?_⟩
  simp only [text, String.toList_ofList]
  decide

end ClusterFs.ShortName
