import BitPattern.Text.Escape
import Mathlib.Data.List.Basic

/-!
# Escaped texts

A text with a backslash before each of its backslashes and double quotes denotes its UTF-8 bytes as
the body of a string literal: `literalBytes?_escaped`.  Those bytes, read as one character each, are
the text again if and only if it is in ASCII: `latin_utf8Bytes_eq_self`.
-/

namespace BitPattern.Text

/-! ## The bytes of a text -/

lemma toList_loop (bytes : ByteArray) (i : Nat) (before : List UInt8) :
    ByteArray.toList.loop bytes i before = before.reverse ++ bytes.data.toList.drop i := by
  fun_induction ByteArray.toList.loop bytes i before with
  | case1 i before hi ih =>
      have hbyte : bytes.get! i = bytes.data.toList[i] := getElem!_pos bytes.data i hi
      rw [ih, List.reverse_cons, List.append_assoc, List.singleton_append, hbyte,
        List.getElem_cons_drop]
  | case2 i before hi =>
      rw [List.drop_eq_nil_of_le (Nat.not_lt.mp hi), List.append_nil]

lemma utf8Bytes_eq_flatMap (cs : List Char) : utf8Bytes cs = cs.flatMap String.utf8EncodeChar := by
  change (cs.flatMap String.utf8EncodeChar).toByteArray.toList = _
  rw [ByteArray.toList, toList_loop, List.toList_data_toByteArray, List.drop_zero]
  rfl

lemma utf8EncodeChar_of_ascii {c : Char} (h : c.toNat < 0x80) :
    String.utf8EncodeChar c = [UInt8.ofNat c.toNat] := by
  have hcode : c.val.toNat ≤ 127 := Nat.le_of_lt_succ h
  rw [String.utf8EncodeChar]
  exact if_pos hcode

/-- The bytes of a character beyond ASCII are beyond ASCII, too. -/
lemma le_of_mem_utf8EncodeChar {c : Char} (h : 0x80 ≤ c.toNat) {b : UInt8}
    (hb : b ∈ String.utf8EncodeChar c) : 0x80 ≤ b.toNat := by
  have hcode : ¬c.val.toNat ≤ 127 := Nat.not_le.mpr h
  rw [String.utf8EncodeChar] at hb
  simp only [hcode, if_false] at hb
  split_ifs at hb <;> simp only [List.mem_cons, List.not_mem_nil, or_false] at hb <;>
    rcases hb with rfl | rfl | rfl | rfl <;> rw [UInt8.toNat_ofNat'] <;> omega

lemma length_utf8EncodeChar_eq_one {c : Char} :
    (String.utf8EncodeChar c).length = 1 ↔ c.toNat < 0x80 := by
  rw [String.length_utf8EncodeChar, Char.utf8Size_eq_one_iff, UInt32.le_iff_toNat_le]
  exact Nat.lt_succ_iff.symm

lemma toNat_latinChar (b : UInt8) : (latinChar b).toNat = b.toNat := by
  have hb := b.toNat_lt
  rw [latinChar, Char.ofNat, dif_pos (Or.inl (by omega))]
  rfl

lemma latinChar_ofNat {c : Char} (h : c.toNat < 0x80) : latinChar (UInt8.ofNat c.toNat) = c := by
  have hcode : (UInt8.ofNat c.toNat).toNat = c.toNat := by
    rw [UInt8.toNat_ofNat']
    omega
  rw [latinChar, hcode, Char.ofNat_toNat]

lemma length_utf8EncodeChar_pos (c : Char) : 0 < (String.utf8EncodeChar c).length :=
  List.length_pos_iff.mpr String.utf8EncodeChar_ne_nil

lemma length_le_utf8Bytes (cs : List Char) : cs.length ≤ (utf8Bytes cs).length := by
  rw [utf8Bytes_eq_flatMap]
  induction cs with
  | nil => exact Nat.zero_le _
  | cons c cs ih =>
      have hc := length_utf8EncodeChar_pos c
      rw [List.flatMap_cons, List.length_append, List.length_cons]
      omega

/-- A text with no more bytes than characters is in ASCII. -/
lemma ascii_of_length_utf8Bytes {cs : List Char} (h : (utf8Bytes cs).length = cs.length) :
    ∀ c ∈ cs, c.toNat < 0x80 := by
  induction cs with
  | nil => exact fun _ hc => nomatch hc
  | cons c cs ih =>
      have hc := length_utf8EncodeChar_pos c
      have hcs := length_le_utf8Bytes cs
      rw [utf8Bytes_eq_flatMap, List.flatMap_cons, List.length_append, ← utf8Bytes_eq_flatMap,
        List.length_cons] at h
      exact List.forall_mem_cons.mpr ⟨length_utf8EncodeChar_eq_one.mp (by omega), ih (by omega)⟩

/-- A text whose characters are all in ASCII. -/
def Ascii (text : String) : Prop :=
  ∀ c ∈ text.toList, c.toNat < 0x80

instance (text : String) : Decidable (Ascii text) :=
  List.decidableBAll _ _

/-- A text is what its UTF-8 bytes are in Latin-1 if and only if it is in ASCII. -/
theorem latin_utf8Bytes_eq_self {text : String} :
    latin (utf8Bytes text.toList) = text ↔ Ascii text := by
  have htext : latin (utf8Bytes text.toList) = text ↔
      (utf8Bytes text.toList).map latinChar = text.toList := by
    rw [latin, ← String.toList_inj, String.toList_ofList]
  rw [htext, Ascii]
  constructor
  · intro h
    refine ascii_of_length_utf8Bytes ?_
    have hlength := congrArg List.length h
    rwa [List.length_map] at hlength
  · rw [utf8Bytes_eq_flatMap]
    generalize text.toList = cs
    intro h
    induction cs with
    | nil => rfl
    | cons c cs ih =>
        have hc := h c (.head _)
        rw [List.flatMap_cons, List.map_append, ih fun d hd => h d (.tail _ hd),
          utf8EncodeChar_of_ascii hc, List.map_singleton, latinChar_ofNat hc,
          List.singleton_append]

/-! ## Escapes -/

/-- A character, with a backslash before it if it is a backslash or a double quote. -/
def escapedChar (c : Char) : List Char :=
  if c = '\\' ∨ c = '"' then ['\\', c] else [c]

/-- A text with a backslash before each of its backslashes and double quotes. -/
def escaped (cs : List Char) : List Char :=
  cs.flatMap escapedChar

lemma escapedChar_of_le {c : Char} (h : 0x80 ≤ c.toNat) : escapedChar c = [c] := by
  refine if_neg ?_
  rintro (rfl | rfl) <;> revert h <;> decide

lemma escaped_append (cs ds : List Char) : escaped (cs ++ ds) = escaped cs ++ escaped ds :=
  List.flatMap_append

lemma escaped_eq_self {cs : List Char} (h : ∀ c ∈ cs, 0x80 ≤ c.toNat) : escaped cs = cs := by
  induction cs with
  | nil => rfl
  | cons c cs ih =>
      rw [escaped, List.flatMap_cons, escapedChar_of_le (h c (.head _)), ← escaped,
        ih fun d hd => h d (.tail _ hd), List.singleton_append]

/-- The bytes of an escaped character are the escaped bytes of the character. -/
lemma utf8Bytes_escapedChar (c : Char) :
    ((escapedChar c).flatMap String.utf8EncodeChar).map latinChar =
      escaped ((String.utf8EncodeChar c).map latinChar) := by
  by_cases hascii : c.toNat < 0x80
  · rw [utf8EncodeChar_of_ascii hascii, List.map_singleton, latinChar_ofNat hascii, escaped,
      List.flatMap_singleton]
    by_cases hc : c = '\\' ∨ c = '"'
    · rcases hc with rfl | rfl <;> decide
    · rw [escapedChar, if_neg hc, List.flatMap_singleton, utf8EncodeChar_of_ascii hascii,
        List.map_singleton, latinChar_ofNat hascii]
  · have hcode := Nat.not_lt.mp hascii
    rw [escapedChar_of_le hcode, List.flatMap_singleton, escaped_eq_self]
    intro d hd
    obtain ⟨b, hb, rfl⟩ := List.mem_map.mp hd
    rw [toNat_latinChar]
    exact le_of_mem_utf8EncodeChar hcode hb

lemma utf8Bytes_escaped (cs : List Char) :
    (utf8Bytes (escaped cs)).map latinChar = escaped ((utf8Bytes cs).map latinChar) := by
  rw [utf8Bytes_eq_flatMap, utf8Bytes_eq_flatMap]
  induction cs with
  | nil => rfl
  | cons c cs ih =>
      rw [escaped, List.flatMap_cons, List.flatMap_append, List.map_append, utf8Bytes_escapedChar,
        ← escaped, ih, List.flatMap_cons, List.map_append, escaped_append]

lemma unescapeWithin_escaped {steps : Nat} {cs : List Char} (h : (escaped cs).length ≤ steps) :
    unescapeWithin steps (escaped cs) = some (cs.map Char.toNat) := by
  induction cs generalizing steps with
  | nil => cases steps <;> rfl
  | cons c cs ih =>
      rw [escaped, List.flatMap_cons, ← escaped] at h ⊢
      by_cases hc : c = '\\' ∨ c = '"'
      · rw [escapedChar, if_pos hc] at h ⊢
        have hescape : escape? (c :: escaped cs) = some ([c.toNat], escaped cs) := by
          rcases hc with rfl | rfl <;> rfl
        cases steps with
        | zero => cases h
        | succ steps =>
            have hsteps : (escaped cs).length ≤ steps := by
              simp only [List.cons_append, List.nil_append, List.length_cons] at h
              omega
            simp [unescapeWithin, hescape, ih hsteps]
      · rw [escapedChar, if_neg hc] at h ⊢
        cases steps with
        | zero => cases h
        | succ steps =>
            have hplain : ¬(c == '\\') = true := fun hbackslash => hc (.inl (eq_of_beq hbackslash))
            rw [List.singleton_append, unescapeWithin, if_neg hplain, ih (Nat.le_of_succ_le_succ h)]
            rfl

/-- A body whose code points are bytes denotes these bytes. -/
lemma literalBytes?_of_unescape {body : List Char} {bytes : List UInt8}
    (h : unescape ((utf8Bytes body).map latinChar) = some (bytes.map UInt8.toNat)) :
    literalBytes? body = some bytes := by
  rw [literalBytes?, h, Option.bind_some, if_pos]
  · have hbytes : UInt8.ofNat ∘ UInt8.toNat = id := funext fun b => UInt8.ofNat_toNat
    rw [List.map_map, hbytes, List.map_id]
  · rw [List.all_map, List.all_eq_true]
    intro b _
    have hb := b.toNat_lt
    exact decide_eq_true (Nat.le_of_lt_succ hb)

/-- An escaped text denotes its UTF-8 bytes. -/
theorem literalBytes?_escaped (cs : List Char) :
    literalBytes? (escaped cs) = some (utf8Bytes cs) := by
  have hpoints :
      ((utf8Bytes cs).map latinChar).map Char.toNat = (utf8Bytes cs).map UInt8.toNat := by
    simp [toNat_latinChar]
  refine literalBytes?_of_unescape ?_
  rw [utf8Bytes_escaped, unescape, unescapeWithin_escaped (Nat.le_refl _), hpoints]

end BitPattern.Text
