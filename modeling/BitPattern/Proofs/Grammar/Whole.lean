import BitPattern.Proofs.Grammar.PatternText

/-!
# Literals as whole texts

A text that is read as a literal up to its end is the expression and the pattern of that literal,
and a minus sign before it negates a number (`expr_literal`, `expr_minus`, `pattern_constant`).  A
text that begins with a digit is an expression or a pattern only if it begins with a number
(`expr_digit_eq_none`, `pattern_digit_eq_none`).
-/

namespace BitPattern.Grammar

open BitPattern.Text Reader

variable {cs : List Char}

/-! ## Expressions -/

/-- Where an operand is read up to the end, or none is read at all, the levels above add nothing. -/
lemma expr_eq_signedOperand (hnot : notOp.run cs = none)
    (hend : ∀ d mid, (signedOperand expr).run cs = some (d, mid) → mid = []) :
    expr.run cs = (signedOperand expr).run cs := by
  rw [run_expr_eq_tower]
  refine @tower_eq cs (.or :: .and :: tightLevels) [] (fun _ => hnot) fun d mid hr l _ => ?_
  rw [hend d mid hr]
  exact Level.op_nil l

lemma expr_literal {d : Denoted Expr} (h : literal.run cs = some (d, [])) :
    expr.run cs = some (d, []) := by
  have hoperand := signedOperand_literal h
  rw [expr_eq_signedOperand (literal_begins h).notOp_eq_none, hoperand]
  intro d' mid hr
  cases hoperand.symm.trans hr
  rfl

/-- What is read behind a minus sign. -/
lemma signedOperand_minus (h : skipBlank false cs = cs) : (signedOperand expr).run ('-' :: cs) =
    ((signedOperand expr).run cs).map fun r => (applyUnary .neg <$> r.1, r.2) := by
  have hsign : unaryOp.run ('-' :: cs) = some (.neg, cs) := rfl
  rw [signedOperand_sign hsign, h]

lemma expr_minus {d : Denoted Expr} (h : literal.run cs = some (d, [])) :
    expr.run ('-' :: cs) = some (applyUnary .neg <$> d, []) := by
  have hskip : skipBlank false cs = cs := ExprAt.skipBlank_eq (.inl (literal_begins h))
  have hoperand := signedOperand_minus hskip
  rw [signedOperand_literal h, Option.map_some] at hoperand
  rw [expr_eq_signedOperand rfl, hoperand]
  intro d' mid hr
  cases hoperand.symm.trans hr
  rfl

/-! ## Texts that begin with a digit -/

section Digit

variable {c : Char}

lemma takeWord_cons_word (hc : isWordChar c = true) (cs : List Char) :
    (takeWord (c :: cs)).1 = c :: (takeWord cs).1 := by
  simp [takeWord_eq, hc]

/-- A word that begins with a digit is none without digits. -/
lemma takeWord_ne_of_isDigit (hc : c.isDigit = true) {s : String}
    (hs : s.toList.any Char.isDigit = false) : (takeWord (c :: cs)).1 ≠ s.toList := by
  rw [takeWord_cons_word (isWordChar_iff.mpr (.inl hc))]
  intro hword
  rw [← hword, List.any_cons, hc] at hs
  cases hs

lemma operandAt_digit (hc : c.isDigit = true) : OperandAt (c :: cs) := by
  have hwords : ∀ s ∈ ["not", "lnot", "_"], s.toList.any Char.isDigit = false := by decide
  refine .word ?_ fun s hs => takeWord_ne_of_isDigit hc (hwords s hs)
  rw [takeWord_cons_word (isWordChar_iff.mpr (.inl hc))]
  exact List.cons_ne_nil _ _

lemma wildcard_digit_eq_none (hc : c.isDigit = true) : wildcard.run (c :: cs) = none :=
  keyword_eq_none (takeWord_ne_of_isDigit hc (by decide))

lemma identifier_digit_eq_none (hc : c.isDigit = true) : identifier.run (c :: cs) = none := by
  rw [identifier, run_wordOf, takeWord_cons_word (isWordChar_iff.mpr (.inl hc)), nameOf?]
  simp [hc]

lemma literal_digit_eq_none (hc : c.isDigit = true) (h : integer.run (c :: cs) = none) :
    literal.run (c :: cs) = none := by
  have hstring : stringLiteral.run (c :: cs) = none :=
    stringLiteral_eq_none rfl (isWordChar_iff.mpr (.inl hc))
  have hboolean : boolean.run (c :: cs) = none := by
    have htrue : (takeWord (c :: cs)).1 ≠ "true".toList := takeWord_ne_of_isDigit hc (by decide)
    have hfalse : (takeWord (c :: cs)).1 ≠ "false".toList := takeWord_ne_of_isDigit hc (by decide)
    rw [boolean, run_wordOf]
    simp only [beq_iff_eq, htrue, hfalse, if_false, Option.map_none]
  rw [literal, run_rule, run_or, run_bind, h, Option.bind_none, Option.none_or, run_or, run_bind,
    hstring, Option.bind_none, Option.none_or, run_bind, hboolean, Option.bind_none]

lemma signedOperand_digit_eq_none (hc : c.isDigit = true) (h : integer.run (c :: cs) = none) :
    (signedOperand expr).run (c :: cs) = none := by
  have hgroup : (parenthesized expr).run (c :: cs) = none := by
    refine parenthesized_eq_none (c := c) rfl ?_
    rintro rfl
    exact absurd hc (by decide)
  rw [signedOperand_eq (operandAt_digit hc), application, run_rule, run_or, call, run_rule,
    run_bind, identifier_digit_eq_none hc, Option.bind_none, Option.none_or, primary, run_rule,
    run_or, hgroup, Option.none_or, run_or, literal_digit_eq_none hc h, Option.none_or, run_bind,
    identifier_digit_eq_none hc, Option.bind_none]

/-- No other expression than a number begins with a digit, or with a minus sign and a digit. -/
theorem expr_digit_eq_none (hc : c.isDigit = true) (h : integer.run (c :: cs) = none) :
    expr.run (c :: cs) = none ∧ expr.run ('-' :: c :: cs) = none := by
  have hoperand := signedOperand_digit_eq_none hc h
  have hskip : skipBlank false (c :: cs) = c :: cs :=
    ExprAt.skipBlank_eq (.inl (operandAt_digit hc))
  have hminus := signedOperand_minus hskip
  rw [hoperand, Option.map_none] at hminus
  constructor
  · rw [expr_eq_signedOperand (operandAt_digit hc).notOp_eq_none, hoperand]
    intro d mid hr
    cases hoperand.symm.trans hr
  · rw [expr_eq_signedOperand rfl, hminus]
    intro d mid hr
    cases hminus.symm.trans hr

lemma signedInteger_minus_eq_none (h : integer.run cs = none) :
    signedInteger.run ('-' :: cs) = none := by
  rw [integer, run_wordOf, Option.map_eq_none_iff, Option.map_eq_none_iff] at h
  rw [signedInteger, run_token]
  simp only [h, Option.map_none]

lemma pattern_eq_none (h : ∀ q, (atomPattern q).run cs = none) : pattern.run cs = none := by
  have hor (q : Reader (Denoted Pattern)) : (orPattern q).run cs = none := by
    rw [orPattern, run_rule, run_bind, run_withText, run_bind, h]
    rfl
  rw [run_pattern, patternWithin, run_rule, run_bind, hor, Option.bind_none]

/-- No other pattern than a number begins with a digit, or with a minus sign and a digit. -/
theorem pattern_digit_eq_none (hc : c.isDigit = true) (h : integer.run (c :: cs) = none) :
    pattern.run (c :: cs) = none ∧ pattern.run ('-' :: c :: cs) = none := by
  -- Each kind of atom is ruled out by its first character.
  have hhead : (c :: cs).head? ≠ some '-' := by
    rintro ⟨⟩
    exact absurd hc (by decide)
  have hstring : stringLiteral.run (c :: cs) = none :=
    stringLiteral_eq_none rfl (isWordChar_iff.mpr (.inl hc))
  have hgroup (q : Reader (Denoted Pattern)) : (groupPattern q).run (c :: cs) = none := by
    refine groupPattern_head.run_eq_none ?_
    rintro ⟨⟩
    exact absurd hc (by decide)
  have hconstant : constant.run (c :: cs) = none := by
    rw [constant, run_rule, run_or, run_bind, signedInteger_unsigned hhead, h, Option.bind_none,
      Option.none_or, run_bind, hstring, Option.bind_none]
  have hminus : constant.run ('-' :: c :: cs) = none := by
    rw [constant, run_rule, run_or, run_bind, signedInteger_minus_eq_none h]
    rfl
  constructor
  · refine pattern_eq_none fun q => ?_
    rw [atomPattern, run_rule, run_or, run_bind, wildcard_digit_eq_none hc, Option.bind_none,
      Option.none_or, run_or, hconstant, Option.none_or, run_or, run_bind,
      identifier_digit_eq_none hc, Option.bind_none, Option.none_or, hgroup]
  · refine pattern_eq_none fun q => ?_
    rw [atomPattern, run_rule, run_or, run_or, hminus]
    rfl

end Digit

/-! ## Blank characters at the ends -/

/-- Stripping takes nothing from a text but blank characters at its end, if it does not begin with
one. -/
lemma stripChars_append (hne : cs ≠ []) (hblank : ∀ c ∈ cs, isBlank c = false)
    (rest : List Char) : ∃ rest', rest' <+: rest ∧ stripChars (cs ++ rest) = cs ++ rest' := by
  have hhead : (cs ++ rest).dropWhile isBlank = cs ++ rest := by
    obtain ⟨c, tail, rfl⟩ := List.exists_cons_of_ne_nil hne
    rw [List.cons_append, List.dropWhile_cons_of_neg (by simp [hblank c (.head _)])]
  have hlast : cs.reverse.dropWhile isBlank = cs.reverse := by
    obtain ⟨c, tail, hcons⟩ := List.exists_cons_of_ne_nil (List.reverse_ne_nil_iff.mpr hne)
    have hc : c ∈ cs := List.mem_reverse.mp (hcons ▸ List.mem_cons_self)
    rw [hcons, List.dropWhile_cons_of_neg (by simp [hblank c hc])]
  refine ⟨(rest.reverse.dropWhile isBlank).reverse, ?_, ?_⟩
  · rw [← List.reverse_suffix, List.reverse_reverse]
    exact List.dropWhile_suffix isBlank
  · rw [stripChars, hhead, List.reverse_append, List.dropWhile_append]
    split
    · rename_i hempty
      rw [List.isEmpty_iff.mp hempty, hlast, List.reverse_reverse, List.reverse_nil,
        List.append_nil]
    · rw [List.reverse_append, List.reverse_reverse]

/-! ## Texts that denote nothing -/

/-- What is read up to its end but denotes nothing is reported at the start of the text. -/
lemma readText_misfit {α : Type} {reader : Reader (Denoted α)} {what : String} {code : Report.Code}
    {origin : Origin} {text : String} {m : Misfit}
    (h : reader.run text.toList = some (.error m, [])) :
    readText reader what code origin text = .error ((Report.Diagnostic.ofCause
      (.malformed m.reason m.text)).withSpan (origin.place 0)) := by
  rw [readText, readAll_eq_ok.mpr h]

end BitPattern.Grammar
