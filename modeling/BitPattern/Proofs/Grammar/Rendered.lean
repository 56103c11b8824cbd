import BitPattern.Proofs.Grammar.Image
import BitPattern.Proofs.Grammar.Quoted
import BitPattern.Proofs.Grammar.Tower
import BitPattern.Proofs.Text.Written
import BitPattern.Render.Text

/-!
# Renderings, part by part

What the readers of the grammar make of the text that `Expr.toText` writes for an expression: words,
numbers and string literals (the leaves), signs, and parentheses around expressions.  A rendering
has a text behind it that is not a part of it (`Follows`).
-/

namespace BitPattern.Grammar

open BitPattern.Text Reader

variable {cs rest : List Char}

/-! ## The text behind -/

/-- A text that may stand behind an operand: it prolongs no word and opens no list of arguments. -/
structure Follows (rest : List Char) : Prop where
  word : ∀ c ∈ rest.head?, isWordChar c = false
  paren : next rest ≠ some '('

lemma follows_of_next {c : Char} (hc : closes c = true)
    (hplain : skipBlank false (c :: cs) = c :: cs) : Follows (c :: cs) := by
  simp only [closes, Bool.and_eq_true, Bool.not_eq_true', bne_iff_ne, ne_eq] at hc
  refine ⟨?_, ?_⟩
  · rintro d ⟨⟩
    exact hc.1.1
  · rw [next, hplain, List.head?_cons]
    exact fun h => hc.1.2 (Option.some.inj h)

lemma Follows.nil : Follows [] := ⟨fun _ hc => absurd hc (Option.not_mem_none _), by decide⟩

lemma Follows.close (cs : List Char) : Follows (')' :: cs) := follows_of_next (by decide) rfl

lemma Follows.comma (cs : List Char) : Follows (',' :: cs) := follows_of_next (by decide) rfl

lemma Follows.between (op : BinOp) (ds : List Char) : Follows (between op ds) := by
  refine ⟨?_, (ends_spelled (spelling_spelled op) ds).paren⟩
  rintro c ⟨⟩
  decide

/-- No operator is read in front of a text. -/
def Halts (rest : List Char) : Prop :=
  ∀ l : Level, l.op.run (skipBlank false rest) = none

lemma halts_of_ends {rest : List Char} (h : Ends 0 rest) : Halts rest :=
  fun l => h.ops l (Nat.zero_le _)

lemma halts_paren (h : next rest = some '(') : Halts rest := by
  obtain ⟨rest', hrest⟩ := next_eq_some.mp h
  intro l
  rw [hrest]
  exact Level.op_cons_eq_none (by decide) (by decide) l rest'

/-! ## Words and numbers -/

/-- A word is read to its end. -/
lemma run_wordOf_append {α : Type} (value? : List Char → Option α)
    (hword : ∀ c ∈ cs, isWordChar c = true) (hrest : ∀ c ∈ rest.head?, isWordChar c = false) :
    (wordOf value?).run (cs ++ rest) = (value? cs).map fun a => (a, rest) := by
  have hstop : rest.takeWhile isWordChar = [] ∧ rest.dropWhile isWordChar = rest := by
    cases rest with
    | nil => exact ⟨rfl, rfl⟩
    | cons c rest => simp [hrest c rfl]
  rw [run_wordOf, takeWord_eq, List.takeWhile_append_of_pos hword,
    List.dropWhile_append_of_pos hword, hstop.1, hstop.2, List.append_nil]

lemma wordOf_append {α : Type} {value? : List Char → Option α} {a : α}
    (h : (wordOf value?).run cs = some (a, [])) (hrest : ∀ c ∈ rest.head?, isWordChar c = false) :
    (wordOf value?).run (cs ++ rest) = some (a, rest) := by
  obtain ⟨ha, hleft⟩ := wordOf_eq_some.mp h
  rw [takeWord_eq] at ha hleft
  have hword : ∀ c ∈ cs, isWordChar c = true := List.dropWhile_eq_nil_iff.mp hleft
  rw [List.takeWhile_eq_self_iff.mpr hword] at ha
  rw [run_wordOf_append value? hword hrest, ha, Option.map_some]

lemma takeWord_self (hword : ∀ c ∈ cs, isWordChar c = true) : takeWord cs = (cs, []) := by
  rw [takeWord_eq, List.takeWhile_eq_self_iff.mpr hword, List.dropWhile_eq_nil_iff.mpr hword]

/-- A word that has the form of a number. -/
lemma integer_word {digits : List Char} {radix : Nat} (hword : ∀ c ∈ cs, isWordChar c = true)
    (hparts : numberParts? cs = some (radix, digits)) :
    integer.run cs = some (numberValue cs radix digits, []) := by
  rw [integer, run_wordOf, takeWord_self hword, hparts]
  rfl

lemma digitValue?_of_isDigit {c : Char} (h : c.isDigit = true) :
    digitValue? c = some (c.toNat - '0'.toNat) := by
  have hrange : ('0' ≤ c && c ≤ '9') = true := h
  rw [digitValue?, if_pos hrange]
  rfl

lemma isDigitOf_of_isDigit {c : Char} (h : c.isDigit = true) : isDigitOf 10 c = true := by
  have hcode := toNat_of_isDigit h
  simp only [isDigitOf, digitBelow?, digitValue?_of_isDigit h, Option.bind_some]
  rw [if_pos (by simp; omega), Option.isSome_some, Bool.or_true]

/-- No decimal digit and no underscore announces a radix. -/
lemma markedRadix?_eq_none {c : Char} (h : isDigitOf 10 c = true) : markedRadix? c = none := by
  have hne {d : Char} (hd : isDigitOf 10 d = false) : (c == d) = false :=
    beq_eq_false_iff_ne.mpr fun heq => by simp [← heq, h] at hd
  have hletters : isDigitOf 10 'x' = false ∧ isDigitOf 10 'X' = false ∧ isDigitOf 10 'o' = false ∧
      isDigitOf 10 'O' = false ∧ isDigitOf 10 'b' = false ∧ isDigitOf 10 'B' = false := by
    decide
  simp [markedRadix?, hne, hletters]

/-- The form of a word that begins with a digit but with no marker. -/
lemma numberParts?_digit {c : Char} {cs : List Char} (hc : c.isDigit = true)
    (hmarker : c = '0' → ∀ d ∈ cs.head?, markedRadix? d = none) :
    numberParts? (c :: cs) =
      if cs.all (isDigitOf 10) = true then some (10, c :: cs) else none := by
  cases cs with
  | nil =>
      rw [numberParts?]
      · simp [hc]
      · intro _ _ _ hcs
        cases hcs
  | cons d rest =>
      by_cases hzero : c = '0'
      · subst hzero
        rw [numberParts?, hmarker rfl d rfl]
      · rw [numberParts?]
        · simp [hc]
        · exact fun _ _ heq => absurd heq hzero

/-- The form of a word that begins with a marker. -/
lemma numberParts?_marker {letter : Char} {radix : Nat} (h : markedRadix? letter = some radix)
    (rest : List Char) : numberParts? ('0' :: letter :: rest) =
      if (!rest.isEmpty && rest.all (isDigitOf radix)) = true then some (radix, rest)
      else none := by
  rw [numberParts?, h]

lemma digitsValue_of_isDigit {cs : List Char} (h : ∀ c ∈ cs, c.isDigit = true) :
    digitsValue 10 cs = Nat.ofDigitChars 10 cs 0 := by
  have hfold (n : Nat) : (cs.filterMap digitValue?).foldl (fun n d => n * 10 + d) n =
      Nat.ofDigitChars 10 cs n := by
    induction cs generalizing n with
    | nil => rfl
    | cons c cs ih =>
        obtain ⟨hc, hcs⟩ := List.forall_mem_cons.mp h
        rw [List.filterMap_cons_some (digitValue?_of_isDigit hc), List.foldl_cons, ih hcs,
          Nat.ofDigitChars_cons, Nat.mul_comm]
  exact hfold 0

/-- Digits denote a number, unless there are too many. -/
lemma isNumber_of_isDigit (h : ∀ c ∈ cs, c.isDigit = true) (hne : cs ≠ []) :
    isNumber 10 cs = decide (cs.length ≤ digitLimit) := by
  have hmark : ∀ c ∈ cs, (c != '_') = true := by
    intro c hc
    rw [bne_iff_ne]
    rintro rfl
    exact absurd (h _ hc) (by decide)
  have hany : cs.any (· != '_') = true :=
    List.any_eq_true.mpr ⟨cs.head hne, List.head_mem hne, hmark _ (List.head_mem hne)⟩
  have hpower : (10 &&& (10 - 1) == 0) = false := rfl
  rw [isNumber, hany, Bool.true_and, withinLimit, hpower, Bool.false_or,
    List.countP_eq_length.mpr hmark]

/-- The digits of a number that is short enough are read as that number. -/
lemma integer_toDigits {n : Nat} (h : isWritable n = true) :
    integer.run (Nat.toDigits 10 n) = some (.ok (n : Int), []) := by
  have hdigit : ∀ c ∈ Nat.toDigits 10 n, c.isDigit = true := fun _ hc =>
    Nat.isDigit_of_mem_toDigits (by decide) (by decide) hc
  have hword : ∀ c ∈ Nat.toDigits 10 n, isWordChar c = true := fun c hc =>
    isWordChar_iff.mpr (.inl (hdigit c hc))
  have hne : Nat.toDigits 10 n ≠ [] := Nat.toDigits_ne_nil
  have hnumber : isNumber 10 (Nat.toDigits 10 n) = true :=
    (isNumber_of_isDigit hdigit hne).trans h
  have hvalue : numberValue (Nat.toDigits 10 n) 10 (Nat.toDigits 10 n) = .ok (n : Int) := by
    rw [numberValue, if_pos hnumber, digitsValue_of_isDigit hdigit, Nat.ofDigitChars_ten_toDigits]
  have hparts : numberParts? (Nat.toDigits 10 n) = some (10, Nat.toDigits 10 n) := by
    obtain ⟨c, rest, hcons⟩ := List.exists_cons_of_ne_nil hne
    rw [hcons] at hdigit ⊢
    obtain ⟨hc, hrest⟩ := List.forall_mem_cons.mp hdigit
    have hdigits : ∀ d ∈ rest, isDigitOf 10 d = true := fun d hd =>
      isDigitOf_of_isDigit (hrest d hd)
    rw [numberParts?_digit hc, if_pos (List.all_eq_true.mpr hdigits)]
    exact fun _ d hd => markedRadix?_eq_none (hdigits d (List.mem_of_mem_head? hd))
  rw [integer_word hword hparts, hvalue]

/-! ## String literals -/

/-- A printable character of ASCII other than the backslash. -/
def isPlainByte (b : UInt8) : Bool :=
  0x20 ≤ b && b ≤ 0x7E && b != 0x5C

/-- Bytes that are plain characters are written as these characters. -/
lemma toList_literalText {b : List UInt8} (hb : ∀ byte ∈ b, isPlainByte byte = true) :
    (literalText b).toList = '"' :: (escaped (b.map latinChar) ++ ['"']) := by
  rw [literalText, String.toList_ofList, escaped, List.flatMap_map]
  congr 2
  refine List.flatMap_congr fun byte hbyte => ?_
  have hcode {c : Char} (h : latinChar byte = c) : byte = UInt8.ofNat c.toNat := by
    rw [← h, toNat_latinChar, UInt8.ofNat_toNat]
  by_cases hquote : byte = 34
  · rw [hquote]
    decide
  · rw [escapedChar, if_neg (by simpa using hquote), if_neg]
    rintro (h | h)
    · have hplain := hb byte hbyte
      rw [hcode h] at hplain
      exact absurd hplain (by decide)
    · exact hquote (hcode h)

lemma utf8Bytes_latin {b : List UInt8} (hb : ∀ byte ∈ b, isPlainByte byte = true) :
    utf8Bytes (b.map latinChar) = b := by
  rw [utf8Bytes_eq_flatMap]
  induction b with
  | nil => rfl
  | cons byte b ih =>
      obtain ⟨hbyte, hb⟩ := List.forall_mem_cons.mp hb
      have hascii : (latinChar byte).toNat < 0x80 := by
        simp only [isPlainByte, Bool.and_eq_true, decide_eq_true_eq, UInt8.le_iff_toNat_le] at hbyte
        rw [toNat_latinChar]
        exact Nat.lt_of_le_of_lt hbyte.1.2 (by decide)
      rw [List.map_cons, List.flatMap_cons, ih hb, utf8EncodeChar_of_ascii hascii, toNat_latinChar,
        UInt8.ofNat_toNat, List.singleton_append]

/-- A string literal of plain bytes is read as these bytes. -/
lemma stringLiteral_literalText {b : List UInt8} (hb : ∀ byte ∈ b, isPlainByte byte = true)
    (rest : List Char) :
    stringLiteral.run ((literalText b).toList ++ rest) = some (.ok b, rest) := by
  have hread := stringLiteral_escaped (b.map latinChar) rest
  rw [utf8Bytes_latin hb] at hread
  rw [toList_literalText hb, List.cons_append, List.append_assoc, List.singleton_append]
  exact hread

/-! ## Signs -/

lemma application_begins : Begins OperandAt (application expr) :=
  .rule (call_begins.or primary_begins)

lemma signedOperand_begins : Begins SignedAt (signedOperand expr) := by
  intro cs r hr
  rw [signedOperand, run_prefixed] at hr
  exact prefixedWithin_begins application_begins _ hr

lemma arithmetic_begins : Begins SignedAt (arithmetic expr) := by
  have hchain {op : Reader BinOp} {q : Reader (Denoted Expr)} (hq : Begins SignedAt q) :
      Begins SignedAt (chain op q) := .rule (hq.bind _)
  exact hchain (hchain (hchain (hchain (hchain (hchain signedOperand_begins)))))

lemma signedOperand_eq (h : OperandAt cs) :
    (signedOperand expr).run cs = (application expr).run cs :=
  prefixed_single h.unaryOp_eq_none

lemma signedOperand_sign {o : UnOp} {mid : List Char} (h : unaryOp.run cs = some (o, mid)) :
    (signedOperand expr).run cs = ((signedOperand expr).run (skipBlank false mid)).map
      fun r => (applyUnary o <$> r.1, r.2) := by
  refine run_prefixed_sign unaryOp_shorter h (application_begins.run_eq_none fun hcs => ?_)
  cases h.symm.trans hcs.unaryOp_eq_none

lemma tower_sign {o : UnOp} {mid : List Char} (h : notOp.run cs = some (o, mid)) :
    (tower tightLevels).run cs = ((tower tightLevels).run (skipBlank false mid)).map
      fun r => (Expr.unary o <$> r.1, r.2) := by
  have hbegins : Begins SignedAt (comparison (arithmetic expr)) :=
    .rule (arithmetic_begins.bind _)
  refine run_prefixed_sign notOp_shorter h (hbegins.run_eq_none fun hcs => ?_)
  cases h.symm.trans hcs.notOp_eq_none

/-- Behind a negation there is no operand. -/
lemma signedOperand_eq_none {o : UnOp} {mid : List Char} (h : notOp.run cs = some (o, mid)) :
    (signedOperand expr).run cs = none :=
  signedOperand_begins.run_eq_none fun hcs => by cases h.symm.trans hcs.notOp_eq_none

/-! ## Parentheses -/

section Brackets

variable {left : List Char} {d : Denoted Expr}

/-- What a list of expressions is read from: the first of them, the others, each behind a comma, and
perhaps one more comma. -/
lemma items_eq_some {r : List (Denoted Expr) × Bool} (h : (items expr).run cs = some (r, left)) :
    ∃ d mid ds mid', expr.run cs = some (d, mid) ∧ Row (nextItem expr) mid ds mid' ∧
      r.1 = d :: ds ∧
        (left = mid' ∧ r.2 = false ∨ skipBlank false mid' = ',' :: left ∧ r.2 = true) := by
  obtain ⟨d, mid, hd, h⟩ := bind_eq_some.mp ((run_rule _ _).symm.trans h)
  obtain ⟨ds, mid', hds, h⟩ := bind_eq_some.mp h
  obtain ⟨trailing, mid'', htrailing, h⟩ := bind_eq_some.mp h
  cases h
  refine ⟨d, mid, ds, mid', hd, (row_of_many hds).1, rfl, ?_⟩
  rcases optional_eq_some htrailing with ⟨rfl, rfl, -⟩ | ⟨-, u, rfl, hcomma⟩
  · exact .inl ⟨rfl, rfl⟩
  · exact .inr ⟨trailingComma_eq_some.mp hcomma, rfl⟩

lemma nextItem_eq_none (h : next cs ≠ some ',') : (nextItem expr).run cs = none :=
  Option.eq_none_iff_forall_ne_some.mpr fun _ hr => by
    obtain ⟨mid, hmid, -⟩ := next_of_nextItem hr
    exact h (next_eq_some.mpr ⟨mid, hmid⟩)

lemma trailingComma_eq_none (h : next cs ≠ some ',') : trailingComma.run cs = none :=
  Option.eq_none_iff_forall_ne_some.mpr fun _ hr =>
    h (next_eq_some.mpr ⟨_, trailingComma_eq_some.mp hr⟩)

/-- A list of expressions up to the parenthesis that closes it. -/
lemma items_reads {mid : List Char} {ds : List (Denoted Expr)}
    (hfirst : expr.run cs = some (d, mid)) (hrow : Row (nextItem expr) mid ds (')' :: left))
    (hlength : ds.length ≤ mid.length) :
    (items expr).run cs = some ((d :: ds, false), ')' :: left) := by
  have hclose : next (')' :: left) ≠ some ',' := by
    intro h
    cases h
  rw [items, run_rule]
  exact bind_eq_some.mpr ⟨d, mid, hfirst, bind_eq_some.mpr ⟨ds, _,
    hrow.run_manyWithin rfl (nextItem_eq_none hclose) hlength, bind_eq_some.mpr
      ⟨none, _, run_optional_none (trailingComma_eq_none hclose), rfl⟩⟩⟩

/-- No expression stands between a comma and the closing parenthesis behind it. -/
lemma nextItem_trailing (left : List Char) : (nextItem expr).run (',' :: ')' :: left) = none :=
  Option.eq_none_iff_forall_ne_some.mpr fun r hr => by
    obtain ⟨mid, hmid, hr⟩ := next_of_nextItem hr
    cases hmid
    exact not_exprAt (next_eq_some.mpr ⟨left, rfl⟩) (by decide) ((expr_operands .nil).begins hr)

/-- An expression with a comma behind it. -/
lemma items_trailing (hfirst : expr.run cs = some (d, ',' :: ')' :: left)) :
    (items expr).run cs = some (([d], true), ')' :: left) := by
  have hcomma : trailingComma.run (',' :: ')' :: left) = some ((), ')' :: left) :=
    trailingComma_eq_some.mpr rfl
  rw [items, run_rule]
  exact bind_eq_some.mpr ⟨d, _, hfirst, bind_eq_some.mpr ⟨[], _,
    run_many_nil (nextItem_trailing left), bind_eq_some.mpr
      ⟨some (), _, run_optional_some hcomma (List.cons_ne_nil _ _), rfl⟩⟩⟩

variable {make : Option (List (Denoted Expr) × Bool) → Denoted Expr}

lemma brackets_reads (hcs : ExprAt cs) {r : List (Denoted Expr) × Bool}
    (h : (items expr).run cs = some (r, ')' :: left)) :
    (brackets expr make).run ('(' :: cs) = some (make (some r), left) := by
  refine bind_eq_some.mpr ⟨(), cs, text_eq_some.mpr rfl, ?_⟩
  rw [run_blank_bind, hcs.skipBlank_eq]
  have hne : cs ≠ [] := fun hnil => by
    obtain ⟨c, rest, hcons, -⟩ := hcs.cons
    cases hnil.symm.trans hcons
  refine bind_eq_some.mpr ⟨some r, ')' :: left, run_optional_some h hne, ?_⟩
  rw [run_blank_bind]
  exact bind_eq_some.mpr ⟨(), left, text_eq_some.mpr rfl, rfl⟩

lemma brackets_empty (left : List Char) :
    (brackets expr make).run ('(' :: ')' :: left) = some (make none, left) := by
  have hitems : (items expr).run (')' :: left) = none :=
    (items_begins (expr_operands .nil).begins).run_eq_none
      (not_exprAt (next_eq_some.mpr ⟨left, rfl⟩) (by decide))
  exact bind_eq_some.mpr ⟨(), ')' :: left, text_eq_some.mpr rfl, bind_eq_some.mpr ⟨(), _, rfl,
    bind_eq_some.mpr ⟨none, ')' :: left, run_optional_none hitems, bind_eq_some.mpr ⟨(), _, rfl,
      bind_eq_some.mpr ⟨(), left, text_eq_some.mpr rfl, rfl⟩⟩⟩⟩⟩

/-- Parentheses around expressions end where the list of expressions does. -/
lemma brackets_eq_some {r : Denoted Expr} (hcs : ExprAt cs)
    (h : (brackets expr make).run ('(' :: cs) = some (r, left)) :
    ∃ inner mid, (items expr).run cs = some (inner, mid) ∧ skipBlank false mid = ')' :: left ∧
      r = make (some inner) := by
  obtain ⟨u, rest, hopen, h⟩ := bind_eq_some.mp h
  obtain rfl : cs = rest := (List.cons.inj (text_eq_some.mp hopen)).2
  rw [run_blank_bind, hcs.skipBlank_eq] at h
  obtain ⟨inner, mid, hinner, h⟩ := bind_eq_some.mp h
  rw [run_blank_bind] at h
  obtain ⟨u', rest', hclose, h⟩ := bind_eq_some.mp h
  cases h
  have hmid : skipBlank false mid = ')' :: left := text_eq_some.mp hclose
  rcases optional_eq_some hinner with ⟨-, rfl, -⟩ | ⟨-, r, rfl, hr⟩
  · exact absurd hcs (not_exprAt (next_eq_some.mpr ⟨left, hmid⟩) (by decide))
  · exact ⟨r, mid, hr, hmid, rfl⟩

end Brackets

end BitPattern.Grammar
