import BitPattern.Proofs.Grammar.Whole
import BitPattern.Proofs.Text.Digit

/-!
# String literals unit by unit

The body of a string literal is a row of units: plain characters and escapes.  Each unit stands for
bytes of its own, whatever its neighbours are (`parse_units`).  The end of the body and the bytes it
denotes are found by different readings of the same characters, so there are two facts about a unit:
`takeBody?_unit` for the first reading, and `LiteralUnit.unescapes` for the second,
which sees the UTF-8 bytes of the body as one character each.
-/

namespace BitPattern.Text

/-! ## Units -/

/-- The escapes of one letter or sign, and the bytes they stand for. -/
def signEscapes : List (Char × ℕ) := [
  ('n', 10), ('t', 9), ('r', 13), ('a', 7), ('b', 8), ('f', 12), ('v', 11), ('\\', 92), ('\'', 39),
  ('"', 34)]

/-- An escape. -/
inductive Escape where
  | sign (entry : {e // e ∈ signEscapes})
  /-- Three octal digits, of a number below 256. -/
  | octal (a : Digit 4) (b c : Digit 8)
  | hex (high low : Digit 16)

namespace Escape

/-- What stands behind the backslash. -/
def chars : Escape → List Char
  | sign entry => [entry.val.1]
  | octal a b c => [a.char, b.char, c.char]
  | hex high low => ['x', high.char, low.char]

/-- The number of the byte that an escape stands for. -/
def code : Escape → ℕ
  | sign entry => entry.val.2
  | octal a b c => 64 * (a.value : ℕ) + 8 * (b.value : ℕ) + (c.value : ℕ)
  | hex high low => 16 * (high.value : ℕ) + (low.value : ℕ)

end Escape

/-- A part of the body of a string literal that stands for bytes of its own. -/
inductive LiteralUnit where
  | plain (c : Char) (h : c ≠ '"' ∧ c ≠ '\\')
  | escape (e : Escape)

namespace LiteralUnit

/-- How a unit is written. -/
def chars : LiteralUnit → List Char
  | plain c _ => [c]
  | escape e => '\\' :: e.chars

/-- The bytes that a unit stands for: a plain character stands for its UTF-8 encoding. -/
def bytes : LiteralUnit → List UInt8
  | plain c _ => String.utf8EncodeChar c
  | escape e => [UInt8.ofNat e.code]

end LiteralUnit

/-- The string literal that is made of units. -/
def unitsLiteral (units : List LiteralUnit) : String :=
  String.ofList ('"' :: (units.flatMap LiteralUnit.chars ++ ['"']))

/-! ## Escapes -/

namespace Escape

lemma code_lt (e : Escape) : e.code < 256 := by
  cases e with
  | sign entry =>
      have hentries : ∀ e ∈ signEscapes, e.2 < 256 := by decide
      exact hentries entry.val entry.property
  | octal a b c =>
      have ha := a.value.isLt
      have hb := b.value.isLt
      have hc := c.value.isLt
      rw [code]
      omega
  | hex high low =>
      have hhigh := high.value.isLt
      have hlow := low.value.isLt
      rw [code]
      omega

lemma escape?_sign (entry : {e // e ∈ signEscapes}) (rest : List Char) :
    escape? (entry.val.1 :: rest) = some ([entry.val.2], rest) := by
  have hentries : ∀ e ∈ signEscapes, e.1 ≠ '\n' ∧ e.1 ≠ 'N' ∧ namedEscape? e.1 = some e.2 := by
    decide
  obtain ⟨hline, hname, hsign⟩ := hentries entry.val entry.property
  simp [escape?, hline, hname, hsign]

lemma escape?_octal (a : Digit 4) (b c : Digit 8) (rest : List Char) :
    escape? ((octal a b c).chars ++ rest) = some ([(octal a b c).code], rest) := by
  have hother : ∀ n < 4, ∀ capital, digitChar n capital ≠ '\n' ∧ digitChar n capital ≠ 'N' ∧
      namedEscape? (digitChar n capital) = none ∧ hexWidth? (digitChar n capital) = none := by
    decide
  obtain ⟨hline, hname, hsign, hwidth⟩ := hother a.value a.value.isLt a.capital
  have ha := octalValue?_digitChar (Nat.lt_of_lt_of_le a.value.isLt (by decide)) a.capital
  have hb := octalValue?_digitChar b.value.isLt b.capital
  have hc := octalValue?_digitChar c.value.isLt c.capital
  simp only [chars, code, Digit.char, List.cons_append, List.nil_append, escape?, beq_iff_eq,
    hline, hname, hsign, hwidth, ha, hb, hc, if_false, Option.some.injEq, Prod.mk.injEq, and_true,
    List.cons.injEq]
  omega

lemma escape?_hex (high low : Digit 16) (rest : List Char) :
    escape? ((hex high low).chars ++ rest) = some ([(hex high low).code], rest) := by
  have hhigh := hexValue?_digitChar high.value.isLt high.capital
  have hlow := hexValue?_digitChar low.value.isLt low.capital
  have hnumber : hexNumber? [high.char, low.char] = some (hex high low).code := by
    simp [hexNumber?, Digit.char, hhigh, hlow, code, Nat.mul_comm]
  have hrange : (hex high low).code ≤ 0x10FFFF :=
    Nat.le_trans (Nat.le_of_lt (code_lt _)) (by decide)
  have hwidth : ¬(high.char :: low.char :: rest).length < 2 := by
    simp
  change (if (high.char :: low.char :: rest).length < 2 then none
    else (hexNumber? [high.char, low.char]).bind fun n =>
      if n ≤ 0x10FFFF then some ([n], rest) else none) = _
  rw [if_neg hwidth, hnumber, Option.bind_some, if_pos hrange]

/-- Behind a backslash, the characters of an escape are read as its byte. -/
lemma escape?_chars (e : Escape) (rest : List Char) :
    escape? (e.chars ++ rest) = some ([e.code], rest) := by
  cases e with
  | sign entry => exact escape?_sign entry rest
  | octal a b c => exact escape?_octal a b c rest
  | hex high low => exact escape?_hex high low rest

/-- An escape is a character of ASCII but no line feed, and then letters and digits only. -/
lemma chars_eq_cons (e : Escape) : ∃ c rest, e.chars = c :: rest ∧ c ≠ '\n' ∧ c.toNat < 0x80 ∧
    ∀ d ∈ rest, d.isAlphanum = true := by
  cases e with
  | sign entry =>
      have hentries : ∀ e ∈ signEscapes, e.1 ≠ '\n' ∧ e.1.toNat < 0x80 := by decide
      obtain ⟨hline, hascii⟩ := hentries entry.val entry.property
      exact ⟨entry.val.1, [], rfl, hline, hascii, List.forall_mem_nil _⟩
  | octal a b c =>
      have hdigits : ∀ n < 4, ∀ capital, digitChar n capital ≠ '\n' ∧
          (digitChar n capital).toNat < 0x80 := by
        decide
      obtain ⟨hline, hascii⟩ := hdigits a.value a.value.isLt a.capital
      refine ⟨a.char, [b.char, c.char], rfl, hline, hascii, ?_⟩
      simp [b.isAlphanum_char (by decide), c.isAlphanum_char (by decide)]
  | hex high low =>
      refine ⟨'x', [high.char, low.char], rfl, by decide, by decide, ?_⟩
      simp [high.isAlphanum_char (by decide), low.isAlphanum_char (by decide)]

end Escape

/-! ## The bytes of a body -/

/-- Characters of ASCII are seen as they are. -/
lemma map_latinChar_ascii {cs : List Char} (h : ∀ c ∈ cs, c.toNat < 0x80) :
    (cs.flatMap String.utf8EncodeChar).map latinChar = cs := by
  have hascii : Ascii (String.ofList cs) := by rwa [Ascii, String.toList_ofList]
  have htext := latin_utf8Bytes_eq_self.mpr hascii
  rw [latin, ← String.toList_inj, String.toList_ofList, String.toList_ofList] at htext
  rwa [← utf8Bytes_eq_flatMap]

/-- No byte of a character is seen as a backslash, unless the character is one. -/
lemma ne_backslash_of_mem {c d : Char} (hc : c ≠ '\\')
    (hd : d ∈ (String.utf8EncodeChar c).map latinChar) : d ≠ '\\' := by
  by_cases hascii : c.toNat < 0x80
  · rw [utf8EncodeChar_of_ascii hascii, List.map_singleton, latinChar_ofNat hascii,
      List.mem_singleton] at hd
    rwa [hd]
  · obtain ⟨b, hb, rfl⟩ := List.mem_map.mp hd
    have hbyte := le_of_mem_utf8EncodeChar (Nat.not_lt.mp hascii) hb
    intro hbackslash
    rw [← toNat_latinChar, hbackslash] at hbyte
    exact absurd hbyte (by decide)

/-- The characters stand for the code points, in as many steps as there are characters or more. -/
def Unescapes (cs : List Char) (points : List ℕ) : Prop :=
  ∀ steps, cs.length ≤ steps → unescapeWithin steps cs = some points

namespace Unescapes

variable {cs : List Char} {points : List ℕ}

lemma nil : Unescapes [] [] := by
  intro steps _
  cases steps <;> rfl

lemma cons {c : Char} (hc : c ≠ '\\') (h : Unescapes cs points) :
    Unescapes (c :: cs) (c.toNat :: points) := by
  intro steps hsteps
  cases steps with
  | zero => cases hsteps
  | succ steps =>
      have hplain : ¬(c == '\\') = true := by rwa [beq_iff_eq]
      rw [unescapeWithin, if_neg hplain, h steps (Nat.le_of_succ_le_succ hsteps)]
      rfl

/-- Plain characters in front. -/
lemma append {ds : List Char} (hds : ∀ d ∈ ds, d ≠ '\\') (h : Unescapes cs points) :
    Unescapes (ds ++ cs) (ds.map Char.toNat ++ points) := by
  induction ds with
  | nil => exact h
  | cons d ds ih => exact (ih fun d hd => hds d (.tail _ hd)).cons (hds d (.head _))

/-- An escape in front. -/
lemma escape (e : Escape) (h : Unescapes cs points) :
    Unescapes ('\\' :: (e.chars ++ cs)) (e.code :: points) := by
  intro steps hsteps
  cases steps with
  | zero => cases hsteps
  | succ steps =>
      have hcs : cs.length ≤ steps := by
        rw [List.length_cons, List.length_append] at hsteps
        omega
      rw [unescapeWithin, if_pos (beq_self_eq_true _), e.escape?_chars, Option.bind_some]
      exact Option.map_eq_some_iff.mpr ⟨points, h steps hcs, rfl⟩

end Unescapes

namespace LiteralUnit

variable {cs : List Char} {points : List ℕ}

/-- The characters as which a unit is seen when its escapes are replaced. -/
def latinChars (u : LiteralUnit) : List Char :=
  (u.chars.flatMap String.utf8EncodeChar).map latinChar

lemma latinChars_escape (e : Escape) : (escape e).latinChars = '\\' :: e.chars := by
  obtain ⟨c, rest, hchars, -, hascii, hrest⟩ := e.chars_eq_cons
  have hother : ∀ d ∈ rest, d.toNat < 0x80 := fun d hd => toNat_lt_of_isAlphanum (hrest d hd)
  refine map_latinChar_ascii ?_
  rw [chars, hchars]
  exact List.forall_mem_cons.mpr ⟨by decide, List.forall_mem_cons.mpr ⟨hascii, hother⟩⟩

/-- A unit is read as its bytes, whatever stands behind it. -/
lemma unescapes (u : LiteralUnit) (h : Unescapes cs points) :
    Unescapes (u.latinChars ++ cs) (u.bytes.map UInt8.toNat ++ points) := by
  cases u with
  | plain c hc =>
      have hpoints : ((String.utf8EncodeChar c).map latinChar).map Char.toNat =
          (String.utf8EncodeChar c).map UInt8.toNat := by
        simp [toNat_latinChar]
      rw [latinChars, chars, List.flatMap_singleton, bytes, ← hpoints]
      exact h.append fun _ hd => ne_backslash_of_mem hc.2 hd
  | escape e =>
      rw [latinChars_escape, bytes, List.map_singleton, UInt8.toNat_ofNat_of_lt' e.code_lt]
      exact h.escape e

end LiteralUnit

/-- Each unit is read as its bytes where the others are. -/
lemma unescapes_units (units : List LiteralUnit) :
    Unescapes (units.flatMap LiteralUnit.latinChars)
      ((units.flatMap LiteralUnit.bytes).map UInt8.toNat) := by
  induction units with
  | nil => exact .nil
  | cons u units ih =>
      rw [List.flatMap_cons, List.flatMap_cons, List.map_append]
      exact u.unescapes ih

/-- The body of a literal denotes the bytes of its units. -/
theorem literalBytes?_units (units : List LiteralUnit) :
    literalBytes? (units.flatMap LiteralUnit.chars) = some (units.flatMap LiteralUnit.bytes) := by
  have hlatin : (utf8Bytes (units.flatMap LiteralUnit.chars)).map latinChar =
      units.flatMap LiteralUnit.latinChars := by
    rw [utf8Bytes_eq_flatMap, List.flatMap_assoc, List.map_flatMap]
    rfl
  refine literalBytes?_of_unescape ?_
  rw [hlatin]
  exact unescapes_units units _ (Nat.le_refl _)

end BitPattern.Text

namespace BitPattern.Grammar

open BitPattern.Text Reader

/-! ## The end of a body -/

/-- Characters other than quotes and backslashes belong to the body. -/
lemma takeBody?_plain {ds : List Char} (hds : ∀ d ∈ ds, d ≠ '"' ∧ d ≠ '\\') (cs : List Char) :
    takeBody? (ds ++ cs) = (takeBody? cs).map fun r => (ds ++ r.1, r.2) := by
  induction ds with
  | nil => simp
  | cons d ds ih =>
      obtain ⟨hquote, hbackslash⟩ := hds d (.head _)
      rw [List.cons_append, takeBody?, ih fun d hd => hds d (.tail _ hd), Option.map_map]
      · rfl
      · exact hquote
      · exact hbackslash

/-- A unit belongs to the body as a whole. -/
lemma takeBody?_unit (u : LiteralUnit) (cs : List Char) :
    takeBody? (u.chars ++ cs) = (takeBody? cs).map fun r => (u.chars ++ r.1, r.2) := by
  cases u with
  | plain c hc => exact takeBody?_plain (List.forall_mem_singleton.mpr hc) cs
  | escape e =>
      obtain ⟨c, rest, hchars, hline, -, hrest⟩ := e.chars_eq_cons
      have hplain : ∀ d ∈ rest, d ≠ '"' ∧ d ≠ '\\' := by
        intro d hd
        have hd := hrest d hd
        constructor <;> rintro rfl <;> exact absurd hd (by decide)
      have hline : ¬(c == '\n') = true := by rwa [beq_iff_eq]
      rw [LiteralUnit.chars, hchars, List.cons_append, List.cons_append, takeBody?, if_neg hline,
        takeBody?_plain hplain, Option.map_map]
      rfl

/-- A literal made of units is read up to its quote, as the bytes of the units. -/
theorem stringLiteral_units (units : List LiteralUnit) (rest : List Char) :
    stringLiteral.run ('"' :: (units.flatMap LiteralUnit.chars ++ '"' :: rest)) =
      some (.ok (units.flatMap LiteralUnit.bytes), rest) := by
  have hbody : takeBody? (units.flatMap LiteralUnit.chars ++ '"' :: rest) =
      some (units.flatMap LiteralUnit.chars, rest) := by
    induction units with
    | nil => rfl
    | cons u units ih =>
        rw [List.flatMap_cons, List.append_assoc, takeBody?_unit, ih]
        rfl
  rw [run_stringLiteral_cons, hbody, Option.map_some, bodyValue, literalBytes?_units]

/-! ## Units for given bytes -/

/-- The escape of a byte by its hexadecimal digits. -/
def hexUnit (b : UInt8) : LiteralUnit :=
  have hb := b.toNat_lt
  .escape (.hex ⟨⟨b.toNat / 16, by omega⟩, false⟩ ⟨⟨b.toNat % 16, by omega⟩, false⟩)

lemma flatMap_hexUnit (bytes : List UInt8) :
    (bytes.map hexUnit).flatMap LiteralUnit.bytes = bytes := by
  have hunit (b : UInt8) : (hexUnit b).bytes = [b] := by
    have hcode : 16 * (b.toNat / 16) + b.toNat % 16 = b.toNat := Nat.div_add_mod _ _
    simp only [hexUnit, LiteralUnit.bytes, Escape.code, hcode, UInt8.ofNat_toNat]
  rw [List.flatMap_map]
  simp only [hunit, List.flatMap_singleton']

/-- A text without quotes and backslashes is made of plain units. -/
lemma exists_plain_units {cs : List Char} (h : ∀ c ∈ cs, c ≠ '"' ∧ c ≠ '\\') :
    ∃ units : List LiteralUnit, units.flatMap LiteralUnit.chars = cs ∧
      units.flatMap LiteralUnit.bytes = utf8Bytes cs := by
  rw [utf8Bytes_eq_flatMap]
  induction cs with
  | nil => exact ⟨[], rfl, rfl⟩
  | cons c cs ih =>
      obtain ⟨units, hchars, hbytes⟩ := ih fun d hd => h d (.tail _ hd)
      refine ⟨.plain c (h c (.head _)) :: units, ?_, ?_⟩
      · rw [List.flatMap_cons, hchars]
        rfl
      · rw [List.flatMap_cons, hbytes]
        rfl

end BitPattern.Grammar

namespace BitPattern

open Grammar Text

/-- A text is a literal of bytes, as an expression and as a pattern. -/
def DenotesBytes (text : String) (bytes : List UInt8) : Prop :=
  Expr.parse text = .ok (.bytes bytes) ∧ Pattern.parse text = .ok (.constant (.bytes bytes))

lemma denotes_units (units : List LiteralUnit) :
    DenotesBytes (unitsLiteral units) (units.flatMap LiteralUnit.bytes) := by
  have hread := stringLiteral_units units []
  have hstrip : stripChars (unitsLiteral units).toList =
      '"' :: (units.flatMap LiteralUnit.chars ++ ['"']) := by
    rw [unitsLiteral, String.toList_ofList]
    refine stripChars_eq_self ?_ ?_
    · rintro c ⟨⟩
      decide
    · rw [← List.cons_append, List.getLast?_concat]
      rintro c ⟨⟩
      decide
  rw [DenotesBytes, Expr.parse_eq_ok, Pattern.parse_eq_ok, hstrip]
  exact ⟨expr_literal (literal_string hread), pattern_constant rfl (constant_string hread)⟩

/-- **String literals.**  A literal made of units denotes the bytes of the units, one after the
other.  So every byte string has a literal, and a literal without backslashes denotes the UTF-8
encoding of its text. -/
theorem parse_units :
    (∀ units : List LiteralUnit,
      DenotesBytes (unitsLiteral units) (units.flatMap LiteralUnit.bytes)) ∧
    (∀ bytes : List UInt8, ∃ units, DenotesBytes (unitsLiteral units) bytes) ∧
    ∀ text : String, '"' ∉ text.toList → '\\' ∉ text.toList →
      DenotesBytes ("\"" ++ text ++ "\"") text.toUTF8.toList := by
  refine ⟨denotes_units, fun bytes => ⟨bytes.map hexUnit, ?_⟩, fun text hquote hbackslash => ?_⟩
  · have hread := denotes_units (bytes.map hexUnit)
    rwa [flatMap_hexUnit] at hread
  · have hplain : ∀ c ∈ text.toList, c ≠ '"' ∧ c ≠ '\\' := fun c hc =>
      ⟨fun heq => hquote (heq ▸ hc), fun heq => hbackslash (heq ▸ hc)⟩
    obtain ⟨units, hchars, hbytes⟩ := exists_plain_units hplain
    have hliteral : unitsLiteral units = "\"" ++ text ++ "\"" := by
      rw [unitsLiteral, hchars, ← String.toList_inj]
      simp
    have hutf8 : utf8Bytes text.toList = text.toUTF8.toList := by
      rw [utf8Bytes, String.ofList_toList]
    have hread := denotes_units units
    rwa [hliteral, hbytes, hutf8] at hread

/-- A letter with an accent takes two bytes. -/
theorem parse_units_accented : '"' ∉ "é1".toList ∧ '\\' ∉ "é1".toList ∧
    DenotesBytes "\"é1\"" [0xC3, 0xA9, 0x31] := by
  have hutf8 : "é1".toUTF8.toList = [0xC3, 0xA9, 0x31] :=
    (utf8Bytes_eq_flatMap ['é', '1']).trans (by decide)
  have hread := parse_units.2.2 "é1" (by decide) (by decide)
  rw [hutf8] at hread
  exact ⟨by decide, by decide, hread⟩

end BitPattern
