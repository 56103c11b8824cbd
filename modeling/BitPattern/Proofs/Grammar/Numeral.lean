import BitPattern.Proofs.Grammar.Rendered
import BitPattern.Proofs.Text.Digit
import Mathlib.Data.Nat.Digits.Lemmas

/-!
# Numerals

A numeral is a marker, unless it is decimal, and then digits with underscores anywhere between and
behind them, and before them if there is a marker.  Its value is the number that its digits denote
in their radix (`value_eq_iff`), and every number has one in each radix (`exists_numeral`).  A
numeral is read as its value (`integer_chars`), unless it is decimal and has more digits than are
read.  The whole word counts: a word that goes on with anything else is no integer
(`integer_outside`).
-/

namespace BitPattern.Grammar

open BitPattern.Text Reader

/-! ## Numerals -/

/-- A radix that a marker announces. -/
inductive Marker where
  | binary
  | octal
  | hexadecimal
  deriving DecidableEq, Repr

namespace Marker

/-- The radix that a marker announces. -/
def radix : Marker → ℕ
  | binary => 2
  | octal => 8
  | hexadecimal => 16

lemma radix_le (m : Marker) : m.radix ≤ 16 := by
  cases m <;> decide

lemma one_lt_radix (m : Marker) : 1 < m.radix := by
  cases m <;> decide

/-- The letter of a marker, as a capital or a small one. -/
def letter (m : Marker) (capital : Bool) : Char :=
  match m, capital with
  | binary, false => 'b'
  | binary, true => 'B'
  | octal, false => 'o'
  | octal, true => 'O'
  | hexadecimal, false => 'x'
  | hexadecimal, true => 'X'

end Marker

/-- A character of a numeral. -/
inductive Mark (radix : ℕ) where
  | digit (d : Digit radix)
  | underscore
  deriving DecidableEq, Repr

namespace Mark

variable {radix : ℕ}

/-- How a mark is written. -/
def char : Mark radix → Char
  | digit d => d.char
  | underscore => '_'

/-- The value of a mark that is a digit. -/
def value? : Mark radix → Option ℕ
  | digit d => some d.value
  | underscore => none

end Mark

/-- An integer literal.  Underscores stand before the first digit only behind a marker. -/
inductive Numeral where
  | decimal (first : Digit 10) (rest : List (Mark 10))
  | marked (marker : Marker) (capital : Bool) (underscores : ℕ) (first : Digit marker.radix)
    (rest : List (Mark marker.radix))

namespace Numeral

/-- The radix of a numeral. -/
def radix : Numeral → ℕ
  | decimal _ _ => 10
  | marked marker _ _ _ _ => marker.radix

/-- The marks of a numeral, behind its marker. -/
def marks : (l : Numeral) → List (Mark l.radix)
  | decimal first rest => .digit first :: rest
  | marked _ _ underscores first rest =>
    List.replicate underscores .underscore ++ .digit first :: rest

/-- How a numeral is written. -/
def chars : Numeral → List Char
  | l@(decimal _ _) => l.marks.map Mark.char
  | l@(marked marker capital _ _ _) => '0' :: marker.letter capital :: l.marks.map Mark.char

/-- The text of a numeral. -/
def text (l : Numeral) : String :=
  String.ofList l.chars

/-- The values of the digits of a numeral, the most significant one first. -/
def digits (l : Numeral) : List ℕ :=
  l.marks.filterMap Mark.value?

/-- The number that the digits of a numeral denote in its radix. -/
def value (l : Numeral) : ℕ :=
  Nat.ofDigits l.radix l.digits.reverse

/-- A numeral is short enough to be read.  Only decimal ones may have too many digits. -/
def Short (l : Numeral) : Prop :=
  l.radix = 10 → l.digits.length ≤ digitLimit

lemma exists_mem_marks (l : Numeral) : ∃ d, Mark.digit d ∈ l.marks := by
  cases l with
  | decimal first rest => exact ⟨first, List.mem_cons_self⟩
  | marked marker capital underscores first rest =>
      exact ⟨first, List.mem_append_right _ List.mem_cons_self⟩

lemma radix_le (l : Numeral) : l.radix ≤ 16 := by
  cases l with
  | decimal => exact (by decide : 10 ≤ 16)
  | marked marker => exact marker.radix_le

end Numeral

/-! ## Marks -/

section Marks

variable {radix : ℕ}

lemma Mark.isDigitOf_char (h : radix ≤ 16) (m : Mark radix) : isDigitOf radix m.char = true := by
  cases m with
  | digit d =>
      rw [isDigitOf, char, d.digitBelow?_char h, Option.isSome_some, Bool.or_true]
  | underscore => rfl

lemma Mark.digitValue?_char (h : radix ≤ 16) (m : Mark radix) : digitValue? m.char = m.value? := by
  cases m with
  | digit d => exact d.digitValue?_char h
  | underscore => rfl

lemma Mark.isWordChar_char (h : radix ≤ 16) (m : Mark radix) : isWordChar m.char = true := by
  cases m with
  | digit d => rw [isWordChar, char, d.isAlphanum_char h, Bool.true_or]
  | underscore => rfl

/-- The marks of a radix are the characters that are read as such. -/
lemma exists_mark {c : Char} (h : radix ≤ 16) (hc : isDigitOf radix c = true) :
    ∃ m : Mark radix, m.char = c := by
  rw [isDigitOf, Bool.or_eq_true, beq_iff_eq, Option.isSome_iff_exists] at hc
  rcases hc with rfl | ⟨n, hn⟩
  · exact ⟨.underscore, rfl⟩
  · obtain ⟨d, hd⟩ := exists_digit h hn
    exact ⟨.digit d, hd⟩

/-- Reading digits from left to right gives their positional value. -/
lemma digitsValue_marks (h : radix ≤ 16) (marks : List (Mark radix)) :
    digitsValue radix (marks.map Mark.char) =
      Nat.ofDigits radix (marks.filterMap Mark.value?).reverse := by
  have hvalues : (marks.map Mark.char).filterMap digitValue? = marks.filterMap Mark.value? := by
    rw [List.filterMap_map]
    exact List.filterMap_congr fun m _ => m.digitValue?_char h
  rw [digitsValue, hvalues, Nat.ofDigits_eq_foldr, List.foldr_reverse]
  simp only [Nat.cast_id, Nat.mul_comm, Nat.add_comm]

/-- The digits among marks are the characters that are no underscores. -/
lemma countP_marks (h : radix ≤ 16) (marks : List (Mark radix)) :
    (marks.map Mark.char).countP (· != '_') = (marks.filterMap Mark.value?).length := by
  induction marks with
  | nil => rfl
  | cons m marks ih =>
      cases m with
      | digit d =>
          have hcount := List.countP_cons_of_pos (p := (· != '_')) (l := marks.map Mark.char)
            (d.char_ne_underscore h)
          rw [ih] at hcount
          exact hcount
      | underscore => exact ih

end Marks

/-! ## Numerals of given values -/

namespace Numeral

lemma one_lt_radix (l : Numeral) : 1 < l.radix := by
  cases l with
  | decimal => exact (by decide : 1 < 10)
  | marked marker => exact marker.one_lt_radix

lemma lt_radix_of_mem (l : Numeral) : ∀ d ∈ l.digits, d < l.radix := by
  intro d hd
  obtain ⟨m, -, hm⟩ := List.mem_filterMap.mp hd
  cases m with
  | digit e =>
      cases hm
      exact e.value.isLt
  | underscore => cases hm

/-- The value of a numeral is the number whose digits it has, behind any number of zeros. -/
theorem value_eq_iff {l : Numeral} {n : ℕ} : l.value = n ↔
    ∃ zeros, l.digits = List.replicate zeros 0 ++ (Nat.digits l.radix n).reverse := by
  have hdigits : ∀ d ∈ l.digits.reverse, d < l.radix := fun d hd =>
    l.lt_radix_of_mem d (List.mem_reverse.mp hd)
  have hpadded (zeros : ℕ) : Nat.ofDigits l.radix
      (Nat.digits l.radix n ++ List.replicate zeros 0) = n := by
    rw [Nat.ofDigits_append_replicate_zero, Nat.ofDigits_digits]
  constructor
  · intro hvalue
    have hlt : n < l.radix ^ l.digits.reverse.length :=
      hvalue ▸ Nat.ofDigits_lt_base_pow_length l.one_lt_radix hdigits
    have hlength := (Nat.digits_length_le_iff l.one_lt_radix n).mpr hlt
    refine ⟨l.digits.reverse.length - (Nat.digits l.radix n).length, ?_⟩
    -- Both lists have the same length and the same value.
    have heq : l.digits.reverse = Nat.digits l.radix n ++
        List.replicate (l.digits.reverse.length - (Nat.digits l.radix n).length) 0 := by
      refine Nat.ofDigits_inj_of_len_eq l.one_lt_radix ?_ hdigits ?_ (hvalue.trans (hpadded _).symm)
      · rw [List.length_append, List.length_replicate]
        omega
      · intro d hd
        rcases List.mem_append.mp hd with hd | hd
        · exact Nat.digits_lt_base l.one_lt_radix hd
        · rw [List.eq_of_mem_replicate hd]
          exact Nat.zero_lt_of_lt l.one_lt_radix
    have hreverse := congrArg List.reverse heq
    rwa [List.reverse_reverse, List.reverse_append, List.reverse_replicate] at hreverse
  · rintro ⟨zeros, hzeros⟩
    rw [value, hzeros, List.reverse_append, List.reverse_reverse, List.reverse_replicate]
    exact hpadded zeros

end Numeral

lemma exists_marks {radix : ℕ} {digits : List ℕ} (h : ∀ d ∈ digits, d < radix) :
    ∃ marks : List (Mark radix), marks.filterMap Mark.value? = digits := by
  induction digits with
  | nil => exact ⟨[], rfl⟩
  | cons d digits ih =>
      obtain ⟨marks, rfl⟩ := ih fun e he => h e (.tail _ he)
      exact ⟨.digit ⟨⟨d, h d (.head _)⟩, false⟩ :: marks, rfl⟩

/-- The digits of a number, with a zero if there would be none. -/
lemma exists_digits (n : ℕ) {radix : ℕ} (hradix : 1 < radix) : ∃ (first : ℕ) (rest : List ℕ)
    (zeros : ℕ), first :: rest = List.replicate zeros 0 ++ (Nat.digits radix n).reverse ∧
      (n < radix ^ digitLimit → (first :: rest).length ≤ digitLimit) := by
  by_cases hzero : n = 0
  · rw [hzero, Nat.digits_zero]
    exact ⟨0, [], 1, rfl, fun _ => by decide⟩
  · have hne : (Nat.digits radix n).reverse ≠ [] := by
      rwa [ne_eq, List.reverse_eq_nil_iff, Nat.digits_eq_nil_iff_eq_zero]
    obtain ⟨first, rest, hcons⟩ := List.exists_cons_of_ne_nil hne
    refine ⟨first, rest, 0, hcons.symm, fun hn => ?_⟩
    rw [← hcons, List.length_reverse]
    exact (Nat.digits_length_le_iff hradix n).mpr hn

/-- Every number has a numeral in each of the radixes, and a short one unless it is too large. -/
lemma exists_numeral (n : ℕ) {radix : ℕ} (h : radix ∈ [2, 8, 10, 16]) :
    ∃ l : Numeral, l.radix = radix ∧ l.value = n ∧ (n < 10 ^ digitLimit → l.Short) := by
  have hradix : 1 < radix := by
    revert h
    simp only [List.mem_cons, List.not_mem_nil, or_false]
    omega
  obtain ⟨first, rest, zeros, hdigits, hlength⟩ := exists_digits n hradix
  have hbelow : ∀ d ∈ first :: rest, d < radix := by
    rw [hdigits]
    intro d hd
    rcases List.mem_append.mp hd with hd | hd
    · rw [List.eq_of_mem_replicate hd]
      exact Nat.zero_lt_of_lt hradix
    · exact Nat.digits_lt_base hradix (List.mem_reverse.mp hd)
  obtain ⟨hfirst, hrest⟩ := List.forall_mem_cons.mp hbelow
  obtain ⟨marks, hmarks⟩ := exists_marks hrest
  -- Whatever the form, the radix and the digits settle the value.
  have hnumeral {l : Numeral} (hl : l.radix = radix) (hdigits' : l.digits = first :: rest) :
      l.radix = radix ∧ l.value = n ∧ (n < 10 ^ digitLimit → l.Short) := by
    refine ⟨hl, Numeral.value_eq_iff.mpr ⟨zeros, by rw [hdigits', hdigits, hl]⟩, fun hn h10 => ?_⟩
    rw [hdigits']
    exact hlength (by rwa [← hl, h10])
  have hmarked (m : Marker) (hm : m.radix = radix) :
      ∃ l : Numeral, l.radix = radix ∧ l.value = n ∧ (n < 10 ^ digitLimit → l.Short) := by
    subst hm
    exact ⟨.marked m false 0 ⟨⟨first, hfirst⟩, false⟩ marks,
      hnumeral rfl (congrArg (first :: ·) hmarks)⟩
  simp only [List.mem_cons, List.not_mem_nil, or_false] at h
  rcases h with rfl | rfl | rfl | rfl
  · exact hmarked .binary rfl
  · exact hmarked .octal rfl
  · exact ⟨.decimal ⟨⟨first, hfirst⟩, false⟩ marks,
      hnumeral rfl (congrArg (first :: ·) hmarks)⟩
  · exact hmarked .hexadecimal rfl

/-! ## The form of a word -/

section Form

lemma markedRadix?_letter (m : Marker) (capital : Bool) :
    markedRadix? (m.letter capital) = some m.radix := by
  cases m <;> cases capital <;> rfl

/-- Nothing but the letter of a marker announces a radix. -/
lemma exists_marker {c : Char} {radix : ℕ} (h : markedRadix? c = some radix) :
    ∃ (m : Marker) (capital : Bool), m.letter capital = c ∧ m.radix = radix := by
  unfold markedRadix? at h
  split_ifs at h with hx ho hb
  · cases h
    rcases Bool.or_eq_true_iff.mp hx with hc | hc
    · exact ⟨.hexadecimal, false, (eq_of_beq hc).symm, rfl⟩
    · exact ⟨.hexadecimal, true, (eq_of_beq hc).symm, rfl⟩
  · cases h
    rcases Bool.or_eq_true_iff.mp ho with hc | hc
    · exact ⟨.octal, false, (eq_of_beq hc).symm, rfl⟩
    · exact ⟨.octal, true, (eq_of_beq hc).symm, rfl⟩
  · cases h
    rcases Bool.or_eq_true_iff.mp hb with hc | hc
    · exact ⟨.binary, false, (eq_of_beq hc).symm, rfl⟩
    · exact ⟨.binary, true, (eq_of_beq hc).symm, rfl⟩

lemma isDigit_char (d : Digit 10) : d.char.isDigit = true := by
  have hdigits : ∀ n < 10, ∀ capital, (digitChar n capital).isDigit = true := by decide
  exact hdigits d.value d.value.isLt d.capital

lemma all_isDigitOf_marks {radix : ℕ} (h : radix ≤ 16) (marks : List (Mark radix)) :
    (marks.map Mark.char).all (isDigitOf radix) = true := by
  rw [List.all_map, List.all_eq_true]
  exact fun m _ => m.isDigitOf_char h

/-- A numeral has the form of a number of its radix, with its marks as digits. -/
lemma Numeral.numberParts?_chars (l : Numeral) :
    numberParts? l.chars = some (l.radix, l.marks.map Mark.char) := by
  have hall := all_isDigitOf_marks l.radix_le l.marks
  have hne : (l.marks.map Mark.char).isEmpty = false := by
    obtain ⟨d, hd⟩ := l.exists_mem_marks
    rw [List.isEmpty_eq_false_iff]
    exact List.ne_nil_of_mem (List.mem_map_of_mem hd)
  cases l with
  | decimal first rest =>
      have hrest := all_isDigitOf_marks (by decide) rest
      change numberParts? (first.char :: rest.map Mark.char) = _
      rw [numberParts?_digit (isDigit_char first), if_pos hrest]
      · rfl
      · intro _ d hd
        exact markedRadix?_eq_none (List.all_eq_true.mp hrest d (List.mem_of_mem_head? hd))
  | marked m capital underscores first rest =>
      have hall : ((marked m capital underscores first rest).marks.map Mark.char).all
          (isDigitOf m.radix) = true := hall
      change numberParts? ('0' :: m.letter capital ::
        (marked m capital underscores first rest).marks.map Mark.char) = _
      rw [numberParts?_marker (markedRadix?_letter m capital), hne, hall]
      rfl

end Form

/-! ## Words -/

section Word

variable {word digits : List Char} {radix : ℕ}

lemma signedInteger_minus_word (hword : ∀ c ∈ word, isWordChar c = true)
    (hparts : numberParts? word = some (radix, digits)) :
    signedInteger.run ('-' :: word) = some (negativeValue word radix digits, []) := by
  rw [signedInteger, run_token]
  simp only [takeWord_self hword, hparts, Option.map_some]

end Word

namespace Numeral

variable (l : Numeral)

lemma isWordChar_of_mem : ∀ c ∈ l.chars, isWordChar c = true := by
  have hmarks : ∀ c ∈ l.marks.map Mark.char, isWordChar c = true := by
    intro c hc
    obtain ⟨m, -, rfl⟩ := List.mem_map.mp hc
    exact m.isWordChar_char l.radix_le
  cases l with
  | decimal first rest => exact hmarks
  | marked m capital underscores first rest =>
      have hletter : isWordChar (m.letter capital) = true := by
        cases m <;> cases capital <;> rfl
      exact List.forall_mem_cons.mpr ⟨rfl, List.forall_mem_cons.mpr ⟨hletter, hmarks⟩⟩

lemma exists_cons : ∃ c rest, l.chars = c :: rest ∧ c.isDigit = true := by
  cases l with
  | decimal first rest => exact ⟨first.char, _, rfl, isDigit_char first⟩
  | marked m capital underscores first rest => exact ⟨'0', _, rfl, rfl⟩

lemma head_ne_minus : l.chars.head? ≠ some '-' := by
  obtain ⟨c, rest, hcons, hc⟩ := l.exists_cons
  rw [hcons, List.head?_cons]
  rintro ⟨⟩
  exact absurd hc (by decide)

/-- The marks of a numeral are a number if it is short. -/
lemma isNumber_marks : isNumber l.radix (l.marks.map Mark.char) = true ↔ l.Short := by
  have hany : (l.marks.map Mark.char).any (· != '_') = true := by
    obtain ⟨d, hd⟩ := l.exists_mem_marks
    exact List.any_eq_true.mpr ⟨_, List.mem_map_of_mem hd, d.char_ne_underscore l.radix_le⟩
  rw [isNumber, hany, Bool.true_and, withinLimit, countP_marks l.radix_le, Bool.or_eq_true,
    decide_eq_true_iff, Short, digits]
  cases l with
  | decimal first rest =>
      have hpower : ¬(10 &&& (10 - 1) == 0) = true := by decide
      exact ⟨fun h _ => h.resolve_left hpower, fun h => .inr (h rfl)⟩
  | marked m capital underscores first rest =>
      have hpower : (m.radix &&& (m.radix - 1) == 0) = true := by cases m <;> rfl
      have hradix : m.radix ≠ 10 := by cases m <;> decide
      exact ⟨fun _ h => absurd h hradix, fun _ => .inl hpower⟩

/-- A short numeral is read as its value. -/
theorem integer_chars (h : l.Short) : integer.run l.chars = some (.ok l.value, []) := by
  rw [integer_word l.isWordChar_of_mem l.numberParts?_chars, numberValue,
    if_pos (l.isNumber_marks.mpr h), digitsValue_marks l.radix_le]
  rfl

end Numeral

/-! ## Numerals without digits -/

/-- A marker with one underscore and some more behind it. -/
def blankNumeral (m : Marker) (capital : Bool) (more : ℕ) : List Char :=
  '0' :: m.letter capital :: List.replicate (more + 1) '_'

section Blank

variable (m : Marker) (capital : Bool) (more : ℕ)

lemma isWordChar_of_mem_blank : ∀ c ∈ blankNumeral m capital more, isWordChar c = true := by
  have hletter : isWordChar (m.letter capital) = true := by
    cases m <;> cases capital <;> rfl
  refine List.forall_mem_cons.mpr ⟨rfl, List.forall_mem_cons.mpr ⟨hletter, fun c hc => ?_⟩⟩
  rw [List.eq_of_mem_replicate hc]
  rfl

lemma numberParts?_blank : numberParts? (blankNumeral m capital more) =
    some (m.radix, List.replicate (more + 1) '_') := by
  have hall : (List.replicate (more + 1) '_').all (isDigitOf m.radix) = true :=
    List.all_eq_true.mpr fun c hc => by
      rw [List.eq_of_mem_replicate hc]
      rfl
  rw [blankNumeral, numberParts?_marker (markedRadix?_letter m capital), hall]
  rfl

lemma isNumber_blank : isNumber m.radix (List.replicate (more + 1) '_') = false := by
  have hany : (List.replicate (more + 1) '_').any (· != '_') = false := by simp
  rw [isNumber, hany, Bool.false_and]

end Blank

/-! ## Numerals that go on -/

/-- The characters begin with a marker and a digit of its radix or an underscore. -/
def BeginsMarked (cs : List Char) : Prop :=
  ∃ (m : Marker) (capital : Bool) (k : Mark m.radix) (rest : List Char),
    cs = '0' :: m.letter capital :: k.char :: rest

/-- A letter, digit or underscore that stands behind a numeral and is no mark of its radix.  It is
not the letter of a marker of which the numeral is the zero. -/
structure Numeral.Outside (l : Numeral) (c : Char) (rest : List Char) : Prop where
  word : isWordChar c = true
  mark : ∀ m : Mark l.radix, m.char ≠ c
  marker : l.chars = ['0'] → ¬BeginsMarked ('0' :: c :: rest)

namespace Numeral.Outside

variable {l : Numeral} {c : Char} {rest : List Char}

lemma isDigitOf_eq_false (h : l.Outside c rest) : isDigitOf l.radix c = false := by
  rw [← Bool.not_eq_true]
  intro hc
  obtain ⟨m, hm⟩ := exists_mark l.radix_le hc
  exact h.mark m hm

/-- What stands behind the character may be cut short. -/
lemma take (h : l.Outside c rest) {rest' : List Char} (hrest : rest' <+: rest) :
    l.Outside c rest' where
  word := h.word
  mark := h.mark
  marker hzero := by
    rintro ⟨m, capital, k, more, heq⟩
    obtain ⟨behind, rfl⟩ := hrest
    refine h.marker hzero ⟨m, capital, k, more ++ behind, ?_⟩
    have hcons : '0' :: c :: (rest' ++ behind) = ('0' :: c :: rest') ++ behind := rfl
    rw [hcons, heq]
    rfl

/-- Behind a marker, a character that is no mark is fatal. -/
lemma numberParts?_marked {m : Marker} {capital : Bool} {underscores : ℕ} {first : Digit m.radix}
    {marks : List (Mark m.radix)} (h : (marked m capital underscores first marks).Outside c rest) :
    numberParts? ((marked m capital underscores first marks).chars ++ c :: rest) = none := by
  change numberParts? ('0' :: m.letter capital ::
    ((marked m capital underscores first marks).marks.map Mark.char ++ c :: rest)) = _
  have hc : isDigitOf m.radix c = false := h.isDigitOf_eq_false
  rw [numberParts?_marker (markedRadix?_letter m capital), List.all_append, List.all_cons, hc,
    Bool.false_and, Bool.and_false, Bool.and_false]
  rfl

/-- A zero and the letter of a marker are no number without a mark of its radix. -/
lemma numberParts?_zero {radix : ℕ} (hc : markedRadix? c = some radix)
    (h : ¬BeginsMarked ('0' :: c :: rest)) : numberParts? ('0' :: c :: rest) = none := by
  obtain ⟨m, capital, rfl, rfl⟩ := exists_marker hc
  rw [numberParts?_marker hc, if_neg]
  cases rest with
  | nil => exact Bool.false_ne_true
  | cons d rest =>
      intro hall
      rw [List.all_cons, Bool.and_eq_true, Bool.and_eq_true] at hall
      obtain ⟨k, rfl⟩ := exists_mark m.radix_le hall.2.1
      exact h ⟨m, capital, k, rest, rfl⟩

lemma numberParts?_decimal {first : Digit 10} {marks : List (Mark 10)}
    (h : (decimal first marks).Outside c rest) :
    numberParts? ((decimal first marks).chars ++ c :: rest) = none := by
  change numberParts? (first.char :: (marks.map Mark.char ++ c :: rest)) = _
  have hfirst := isDigit_char first
  have hc : isDigitOf 10 c = false := h.isDigitOf_eq_false
  have hall : ¬(marks.map Mark.char ++ c :: rest).all (isDigitOf 10) = true := by
    rw [List.all_append, List.all_cons, hc, Bool.false_and, Bool.and_false]
    exact Bool.false_ne_true
  cases marks with
  | cons k marks =>
      rw [numberParts?_digit hfirst, if_neg hall]
      rintro - d ⟨⟩
      exact markedRadix?_eq_none (k.isDigitOf_char (by decide))
  | nil =>
      cases hradix : markedRadix? c with
      | none =>
          rw [numberParts?_digit hfirst, if_neg hall]
          rintro - d ⟨⟩
          exact hradix
      | some radix =>
          by_cases hzero : first.char = '0'
          · have hmarker := h.marker (by rw [← hzero]; rfl)
            rw [hzero]
            exact numberParts?_zero hradix hmarker
          · rw [numberParts?_digit hfirst, if_neg hall]
            exact fun hfirst => absurd hfirst hzero

/-- A word with a character outside has not the form of a number. -/
lemma numberParts?_eq_none (h : l.Outside c rest) : numberParts? (l.chars ++ c :: rest) = none := by
  cases l with
  | decimal first marks => exact numberParts?_decimal h
  | marked m capital underscores first marks => exact numberParts?_marked h

/-- Where a numeral goes on there is no integer. -/
theorem integer_outside (h : l.Outside c rest) : integer.run (l.chars ++ c :: rest) = none := by
  have hword : (takeWord (l.chars ++ c :: rest)).1 = l.chars ++ c :: rest.takeWhile isWordChar := by
    rw [takeWord_eq]
    simp only [List.takeWhile_append_of_pos l.isWordChar_of_mem, List.takeWhile_cons, h.word,
      if_true]
  rw [integer, run_wordOf, hword, (h.take (List.takeWhile_prefix _)).numberParts?_eq_none]
  rfl

end Numeral.Outside

end BitPattern.Grammar
