import BitPattern.Proofs.Grammar.Numeral
import BitPattern.Proofs.Grammar.Whole

/-!
# Integer literals

A numeral denotes its value, alone as an expression or a pattern, and behind a minus sign the
negative of it (`parse_numerals`).  What has the form of a numeral but is no number is reported: a
decimal that is too long (`invalid_long`) and a marker without any digit (`invalid_blank`).
-/

namespace BitPattern

open Grammar Report Text

/-! ## Texts -/

/-- A text is an integer, as an expression and as a pattern. -/
def DenotesInt (text : String) (n : ℤ) : Prop :=
  Expr.parse text = .ok (.int n) ∧ Pattern.parse text = .ok (.constant (.int n))

/-- A text is no expression and no pattern. -/
def Unreadable (text : String) : Prop :=
  (∀ e, Expr.parse text ≠ .ok e) ∧ ∀ p, Pattern.parse text ≠ .ok p

/-- What is reported of a text with an integer literal that denotes nothing. -/
def invalidInteger (text literal : String) : Diagnostic :=
  (Diagnostic.ofCause (.malformed "Invalid integer literal" literal)).withSpan
    (Span.ofOffset "" text 0)

section Word

variable {word : List Char}

/-- How a word that is read as an integer is read as an expression and as a pattern. -/
lemma run_word {d : Denoted ℤ} (hhead : word.head? ≠ some '-')
    (h : integer.run word = some (d, [])) :
    expr.run word = some (.int <$> d, []) ∧
      pattern.run word = some ((fun n => .constant (.int n)) <$> d, []) :=
  ⟨expr_literal (literal_integer h), pattern_integer hhead h⟩

/-- How such a word is read behind a minus sign. -/
lemma run_minus_word {d d' : Denoted ℤ} (h : integer.run word = some (d, []))
    (h' : signedInteger.run ('-' :: word) = some (d', [])) :
    expr.run ('-' :: word) = some (applyUnary .neg <$> (.int <$> d), []) ∧
      pattern.run ('-' :: word) = some ((fun n => .constant (.int n)) <$> d', []) :=
  ⟨expr_minus (literal_integer h), pattern_constant rfl (constant_integer h')⟩

end Word

lemma toList_minus (cs : List Char) : ("-" ++ String.ofList cs).toList = '-' :: cs := by
  simp

lemma denotes_numeral {l : Numeral} (h : l.Short) :
    DenotesInt l.text l.value ∧ DenotesInt ("-" ++ l.text) (-l.value) := by
  have hblank : ∀ c ∈ l.chars, isBlank c = false := fun c hc =>
    isBlank_eq_false (l.isWordChar_of_mem c hc)
  have hinteger := l.integer_chars h
  have hminus := run_minus_word hinteger (signedInteger_minus hinteger)
  constructor
  · refine ⟨?_, Pattern.parse_numeral h⟩
    rw [Expr.parse_eq_ok, Numeral.text, String.toList_ofList, stripChars_visible hblank]
    exact expr_literal (literal_integer hinteger)
  · rw [DenotesInt, Expr.parse_eq_ok, Pattern.parse_eq_ok, Numeral.text, toList_minus,
      stripChars_visible (List.forall_mem_cons.mpr ⟨by decide, hblank⟩)]
    exact hminus

section Invalid

variable {text literal : String}

/-- A text without blank characters is left as it is. -/
lemma strip_visible (h : ∀ c ∈ text.toList, isBlank c = false) : strip text = text := by
  rw [strip, stripChars_visible h, String.ofList_toList]

lemma Expr.parse_invalid (h : ∀ c ∈ text.toList, isBlank c = false)
    (hread : expr.run text.toList = some (.error (.integer literal), [])) :
    Expr.parse text = .error (invalidInteger text literal) := by
  simp only [Expr.parse, strip_visible h]
  exact readText_misfit hread

lemma Pattern.parse_invalid (h : ∀ c ∈ text.toList, isBlank c = false)
    (hread : pattern.run text.toList = some (.error (.integer literal), [])) :
    Pattern.parse text = .error (invalidInteger text literal) := by
  simp only [Pattern.parse, strip_visible h]
  exact readText_misfit hread

end Invalid

/-- What is said of a word that has the form of an integer and denotes none.  An expression has the
minus sign before it apart, and a pattern does not. -/
def InvalidInteger (word : String) : Prop :=
  Expr.parse word = .error (invalidInteger word word) ∧
    Pattern.parse word = .error (invalidInteger word word) ∧
    Expr.parse ("-" ++ word) = .error (invalidInteger ("-" ++ word) word) ∧
    Pattern.parse ("-" ++ word) = .error (invalidInteger ("-" ++ word) ("-" ++ word))

lemma invalid_word {word digits : List Char} {radix : ℕ} (hhead : word.head? ≠ some '-')
    (hchars : ∀ c ∈ word, isWordChar c = true)
    (hparts : numberParts? word = some (radix, digits)) (hnumber : isNumber radix digits = false) :
    InvalidInteger (String.ofList word) := by
  have hblank : ∀ c ∈ word, isBlank c = false := fun c hc => isBlank_eq_false (hchars c hc)
  -- The parts are a number in neither way of writing the sign.
  have hinteger := integer_word hchars hparts
  have hsigned := signedInteger_minus_word hchars hparts
  rw [numberValue, hnumber] at hinteger
  rw [negativeValue, hnumber] at hsigned
  have hword := run_word hhead hinteger
  have hminus := run_minus_word hinteger hsigned
  have hvisible : ∀ c ∈ (String.ofList word).toList, isBlank c = false := by
    rwa [String.toList_ofList]
  have hvisible' : ∀ c ∈ ("-" ++ String.ofList word).toList, isBlank c = false := by
    rw [toList_minus]
    exact List.forall_mem_cons.mpr ⟨by decide, hblank⟩
  have htext : String.ofList ('-' :: word) = "-" ++ String.ofList word := by
    rw [← String.toList_inj, String.toList_ofList, toList_minus]
  rw [htext] at hminus
  refine ⟨Expr.parse_invalid hvisible ?_, Pattern.parse_invalid hvisible ?_,
    Expr.parse_invalid hvisible' ?_, Pattern.parse_invalid hvisible' ?_⟩
  · rw [String.toList_ofList]
    exact hword.1
  · rw [String.toList_ofList]
    exact hword.2
  · rw [toList_minus]
    exact hminus.1
  · rw [toList_minus]
    exact hminus.2

lemma invalid_blank (m : Marker) (capital : Bool) (more : ℕ) :
    InvalidInteger (String.ofList (blankNumeral m capital more)) :=
  invalid_word (by simp [blankNumeral]) (isWordChar_of_mem_blank m capital more)
    (numberParts?_blank m capital more) (isNumber_blank m more)

lemma invalid_long {l : Numeral} (h : ¬l.Short) : InvalidInteger l.text :=
  invalid_word l.head_ne_minus l.isWordChar_of_mem l.numberParts?_chars
    (Bool.eq_false_iff.mpr fun hnumber => h (l.isNumber_marks.mp hnumber))

lemma unreadable_of_run {text : String} {cs : List Char} (hstrip : stripChars text.toList = cs)
    (h : expr.run cs = none ∧ pattern.run cs = none) : Unreadable text := by
  constructor
  · intro e he
    rw [Expr.parse_eq_ok, hstrip, h.1] at he
    cases he
  · intro p hp
    rw [Pattern.parse_eq_ok, hstrip, h.2] at hp
    cases hp

lemma unreadable_outside {l : Numeral} {c : Char} {rest : List Char} (h : l.Outside c rest) :
    Unreadable (String.ofList (l.chars ++ c :: rest)) ∧
      Unreadable ("-" ++ String.ofList (l.chars ++ c :: rest)) := by
  have hword : ∀ d ∈ l.chars ++ [c], isWordChar d = true :=
    List.forall_mem_append.mpr ⟨l.isWordChar_of_mem, List.forall_mem_singleton.mpr h.word⟩
  have hblank : ∀ d ∈ l.chars ++ [c], isBlank d = false := fun d hd =>
    isBlank_eq_false (hword d hd)
  have hminus : ∀ d ∈ '-' :: (l.chars ++ [c]), isBlank d = false :=
    List.forall_mem_cons.mpr ⟨by decide, hblank⟩
  -- The text is cut behind the character in question, so that blanks at its end can be stripped.
  have hcut (rest : List Char) : l.chars ++ c :: rest = l.chars ++ [c] ++ rest := by
    rw [List.append_assoc, List.singleton_append]
  obtain ⟨d, ds, hcons, hd⟩ := l.exists_cons
  have hnone (rest' : List Char) (hrest : rest' <+: rest) :
      (expr.run (l.chars ++ [c] ++ rest') = none ∧ pattern.run (l.chars ++ [c] ++ rest') = none) ∧
        expr.run ('-' :: (l.chars ++ [c]) ++ rest') = none ∧
        pattern.run ('-' :: (l.chars ++ [c]) ++ rest') = none := by
    have hinteger := (h.take hrest).integer_outside
    rw [List.cons_append, ← hcut, hcons, List.cons_append]
    rw [hcons, List.cons_append] at hinteger
    obtain ⟨hexpr, hexpr'⟩ := expr_digit_eq_none hd hinteger
    obtain ⟨hpattern, hpattern'⟩ := pattern_digit_eq_none hd hinteger
    exact ⟨⟨hexpr, hpattern⟩, hexpr', hpattern'⟩
  constructor
  · obtain ⟨rest', hrest, hstrip⟩ := stripChars_append (by simp) hblank rest
    refine unreadable_of_run ?_ (hnone rest' hrest).1
    rw [String.toList_ofList, hcut, hstrip]
  · obtain ⟨rest', hrest, hstrip⟩ := stripChars_append (List.cons_ne_nil _ _) hminus rest
    refine unreadable_of_run ?_ (hnone rest' hrest).2
    rw [toList_minus, hcut, ← List.cons_append, hstrip]

/-- **Integer literals.**  A numeral denotes the number whose digits it has in its radix, behind any
number of zeros, and with a minus sign the negative of it, unless it is decimal and too long: then
it denotes nothing.  Every number has numerals in each radix, and short ones if its decimal is not
too long.  A marker with underscores only denotes nothing either, and where a numeral goes on with
what is no mark of its radix there is neither an expression nor a pattern. -/
theorem parse_numerals :
    (∀ l : Numeral, l.Short →
      DenotesInt l.text l.value ∧ DenotesInt ("-" ++ l.text) (-l.value)) ∧
    (∀ l : Numeral, ¬l.Short → InvalidInteger l.text) ∧
    (∀ (l : Numeral) (n : ℕ), l.value = n ↔
      ∃ zeros, l.digits = List.replicate zeros 0 ++ (Nat.digits l.radix n).reverse) ∧
    (∀ n : ℕ, ∀ radix ∈ [2, 8, 10, 16],
      ∃ l : Numeral, l.radix = radix ∧ l.value = n ∧ (n < 10 ^ digitLimit → l.Short)) ∧
    (∀ (m : Marker) (capital : Bool) (more : ℕ),
      InvalidInteger (String.ofList (blankNumeral m capital more))) ∧
    ∀ (l : Numeral) (c : Char) (rest : List Char), l.Outside c rest →
      Unreadable (String.ofList (l.chars ++ c :: rest)) ∧
        Unreadable ("-" ++ String.ofList (l.chars ++ c :: rest)) :=
  ⟨fun _ => denotes_numeral, fun _ => invalid_long, fun _ _ => Numeral.value_eq_iff,
    fun n _ h => exists_numeral n h, invalid_blank, fun _ _ _ => unreadable_outside⟩

/-- A decimal numeral of ones. -/
def ones (more : ℕ) : Numeral :=
  .decimal ⟨1, false⟩ (List.replicate more (.digit ⟨1, false⟩))

lemma length_digits_ones (more : ℕ) : (ones more).digits.length = more + 1 := by
  have hdigits : (ones more).digits =
      1 :: (List.replicate more (.digit ⟨1, false⟩ : Mark 10)).filterMap Mark.value? := rfl
  rw [hdigits, List.filterMap_replicate]
  simp [Mark.value?]

lemma not_short_ones : ¬(ones digitLimit).Short := by
  intro h
  have hlength := h rfl
  rw [length_digits_ones] at hlength
  exact Nat.not_succ_le_self _ hlength

/-- A binary numeral alone and with a larger digit behind it, and a decimal one that is too long. -/
theorem parse_numerals_binary :
    (255 < 10 ^ digitLimit ∧ 16 ∈ [2, 8, 10, 16] ∧
      ∃ l : Numeral, l.radix = 16 ∧ l.value = 255 ∧ l.Short) ∧
    (¬(ones digitLimit).Short ∧ InvalidInteger (ones digitLimit).text) ∧
    ∃ l : Numeral, l.text = "0b1" ∧ l.Short ∧ DenotesInt "0b1" 1 ∧ DenotesInt "-0b1" (-1) ∧
      l.Outside '2' ['+', '1'] ∧ Unreadable "0b12+1" ∧ Unreadable "-0b12+1" := by
  have hsmall : 255 < 10 ^ digitLimit :=
    Nat.lt_of_lt_of_le (by decide : 255 < 10 ^ 3) (Nat.pow_le_pow_right (by decide) (by decide))
  have hradix : 16 ∈ [2, 8, 10, 16] := by decide
  obtain ⟨l, hl, hvalue, hshort⟩ := parse_numerals.2.2.2.1 255 16 hradix
  refine ⟨⟨hsmall, hradix, l, hl, hvalue, hshort hsmall⟩,
    ⟨not_short_ones, parse_numerals.2.1 _ not_short_ones⟩, ?_⟩
  let l : Numeral := .marked .binary false 0 ⟨⟨1, by decide⟩, false⟩ []
  have hshort : l.Short := fun h => absurd h (by decide : (2 : ℕ) ≠ 10)
  have houtside : l.Outside '2' ['+', '1'] := by
    refine ⟨by decide, fun m hm => ?_, fun hzero => nomatch hzero⟩
    have hdigit := m.isDigitOf_char (by decide)
    rw [hm] at hdigit
    exact absurd hdigit (by decide)
  have htext : l.text = "0b1" := by decide
  have hsigned : "-" ++ "0b1" = "-0b1" := by decide
  obtain ⟨hdenotes, hnegative⟩ := parse_numerals.1 l hshort
  rw [htext] at hdenotes hnegative
  rw [hsigned] at hnegative
  have htext' : String.ofList (l.chars ++ '2' :: ['+', '1']) = "0b12+1" := by decide
  have hsigned' : "-" ++ "0b12+1" = "-0b12+1" := by decide
  obtain ⟨hword, hminus⟩ := parse_numerals.2.2.2.2.2 l '2' ['+', '1'] houtside
  rw [htext'] at hword hminus
  rw [hsigned'] at hminus
  exact ⟨l, htext, hshort, hdenotes, hnegative, houtside, hword, hminus⟩

/-- A decimal numeral with one digit more than are read denotes no integer. -/
theorem parse_numerals_long : ∃ l : Numeral,
    l.text = String.ofList (List.replicate (digitLimit + 1) '1') ∧ l.radix = 10 ∧
      InvalidInteger l.text ∧ ¬DenotesInt l.text l.value := by
  have hinvalid := invalid_long not_short_ones
  refine ⟨ones digitLimit, ?_, rfl, hinvalid, fun hdenotes => ?_⟩
  · have hchars : (ones digitLimit).chars =
        '1' :: (List.replicate digitLimit (.digit ⟨1, false⟩ : Mark 10)).map Mark.char := rfl
    rw [Numeral.text, hchars, List.map_replicate, List.replicate_succ]
    rfl
  · cases hinvalid.1.symm.trans hdenotes.1

end BitPattern
