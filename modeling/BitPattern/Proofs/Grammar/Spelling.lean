import BitPattern.Proofs.Grammar.Expr
import BitPattern.Proofs.Grammar.Precedence
import Mathlib.Tactic.FinCases

/-!
# Operators between blanks

An operator may be spelled in several ways, and some spellings begin others.  With a blank behind it
each is read as its operator by the level of that operator (`op_spelled`), and no other level reads
one, but for a comparison at the sign of a shift (`op_spelled_eq_none`).  So a blank and an operator
end all tighter levels (`ends_spelled`).

Literals, names and parentheses are operands wherever their readers read them.
-/

namespace BitPattern.Grammar

open BitPattern.Text Reader

variable {cs left : List Char}

/-! ## Spellings -/

/-- The spellings of the operators between operands. -/
def spellings : List (String × BinOp) := [
  ("||", .or), ("or", .or), ("&&", .and), ("and", .and), ("==", .eq), ("=", .eq), ("!=", .ne),
  ("<>", .ne), ("<", .lt), ("<=", .le), (">", .gt), (">=", .ge), ("|", .bitOr), ("lor", .bitOr),
  ("^", .bitXor), ("lxor", .bitXor), ("&", .bitAnd), ("land", .bitAnd), ("<<", .shiftLeft),
  ("lsl", .shiftLeft), (">>", .shiftRight), ("asr", .shiftRight), ("lsr", .logicalShiftRight),
  ("+", .add), ("-", .sub), ("*", .mul), ("/", .div), ("%", .mod), ("mod", .mod)]

section Spelling

variable {sign : String} {op : BinOp}

lemma of?_spelled (h : (sign, op) ∈ spellings) (cs : List Char) :
    Level.of? (sign.toList ++ ' ' :: cs) = some op.level := by
  fin_cases h
  all_goals rfl

/-- Nothing blank stands at the beginning of an operator. -/
lemma skipBlank_spelled (h : (sign, op) ∈ spellings) (cs : List Char) :
    skipBlank false (' ' :: (sign.toList ++ ' ' :: cs)) = sign.toList ++ ' ' :: cs := by
  fin_cases h
  all_goals rfl

/-- An operator is read from each of its spellings with a blank behind it, if no head of an arm
follows. -/
lemma op_spelled (h : (sign, op) ∈ spellings) (hhead : armHead.run (skipBlank false cs) = none) :
    op.level.op.run (sign.toList ++ ' ' :: cs) = some (op, ' ' :: cs) := by
  have hbar : bitOrOp.run ('|' :: ' ' :: cs) = some (.bitOr, ' ' :: cs) := by
    have hword : (worded "lor" BinOp.bitOr).run ('|' :: ' ' :: cs) = none := rfl
    rw [bitOrOp, run_rule, run_or, hword, Option.none_or]
    exact bitOrSign_eq_some.mpr ⟨rfl, rfl, hhead, rfl⟩
  fin_cases h
  all_goals first
    | rfl
    | exact hbar

lemma op_spelled_eq_none (h : (sign, op) ∈ spellings) {l : Level} (hlevel : op.level ≠ l)
    (hshift : l = .comparison → op.level ≠ .shift) (cs : List Char) :
    l.op.run (sign.toList ++ ' ' :: cs) = none := by
  have hof := of?_spelled h cs
  refine (Level.op_level l).run_eq_none ?_
  rintro (hl | ⟨rfl, hdoubled⟩)
  · exact hlevel (Option.some.inj (hof.symm.trans hl))
  · exact hshift rfl (Option.some.inj (hof.symm.trans hdoubled.of?))

/-- An operator ends all tighter levels. -/
lemma ends_spelled (h : (sign, op) ∈ spellings) (cs : List Char) :
    Ends (op.rank + 1) (' ' :: (sign.toList ++ ' ' :: cs)) := by
  have hskip := skipBlank_spelled h cs
  have hof := of?_spelled h cs
  refine ⟨fun hparen => ?_, fun harrow => ?_, fun l hl => ?_⟩
  · obtain ⟨rest, hrest⟩ := next_eq_some.mp hparen
    have hnone : Level.of? ('(' :: rest) = none := Level.of?_cons (by decide) rest
    rw [hskip.symm.trans hrest, hnone] at hof
    cases hof
  · obtain ⟨rest, hrest⟩ := harrow
    have hnone : Level.of? ("->".toList ++ rest) = none := Level.of?_cons (by decide) _
    rw [← hskip, ← hrest, hnone] at hof
    cases hof
  · rw [hskip]
    refine op_spelled_eq_none h (fun hlevel => ?_) (fun hcomparison hlevel => ?_) cs
    · rw [BinOp.rank, hlevel] at hl
      omega
    · rw [BinOp.rank, hlevel, hcomparison] at hl
      exact absurd hl (by decide)

end Spelling

/-! ## Levels -/

variable {sign : String} {op : BinOp} {q : Reader (Denoted Expr)} {e : Denoted Expr}

/-- An operator between blanks and the operand after it. -/
lemma operation_spelled (h : (sign, op) ∈ spellings) (hblank : skipBlank false cs = cs)
    (hhead : armHead.run cs = none) (hq : q.run cs = some (e, left)) :
    (operation op.level.op q).run (' ' :: (sign.toList ++ ' ' :: cs)) = some ((op, e), left) := by
  have hskip : skipBlank false (' ' :: cs) = cs := hblank
  rw [operation, run_rule, run_blank_bind, skipBlank_spelled h]
  refine bind_eq_some.mpr ⟨op, ' ' :: cs, op_spelled h (hblank.symm ▸ hhead), ?_⟩
  rw [run_blank_bind, hskip]
  exact bind_eq_some.mpr ⟨e, left, hq, rfl⟩

/-- Without a sign before it, an operand stands alone. -/
lemma prefixed_single {op : Reader UnOp} {apply : UnOp → Expr → Expr} (h : op.run cs = none) :
    (prefixed op apply q).run cs = q.run cs := by
  rw [run_prefixed, prefixedWithin, run_rule, run_or, run_rule, run_bind, h, Option.bind_none,
    Option.none_or]

/-! ## Operands -/

lemma nameOf?_eq_none {word : List Char} {r : Nat × List Char} (h : numberParts? word = some r) :
    nameOf? word = none := by
  have hdigit : ∃ c rest, word = c :: rest ∧ c.isDigit = true := by
    unfold numberParts? at h
    split at h
    · exact ⟨'0', _, rfl, rfl⟩
    · rename_i c rest _
      split at h
      · rename_i hc
        exact ⟨c, rest, rfl, (Bool.and_eq_true_iff.mp hc).1⟩
      · cases h
    · cases h
  obtain ⟨c, rest, rfl, hc⟩ := hdigit
  simp [nameOf?, hc]

/-- No literal is an identifier. -/
lemma identifier_eq_none {r : Denoted Expr × List Char} (h : literal.run cs = some r) :
    identifier.run cs = none := by
  rcases or_eq_some ((run_rule _ _).symm.trans h) with h | h
  · obtain ⟨n, mid, hn, -⟩ := bind_eq_some.mp h
    obtain ⟨parts, hparts, -⟩ := Option.map_eq_some_iff.mp (wordOf_eq_some.mp hn).1
    rw [identifier, run_wordOf, nameOf?_eq_none hparts, Option.map_none]
  rcases or_eq_some h with h | h
  · obtain ⟨b, mid, hb, -⟩ := bind_eq_some.mp h
    obtain ⟨rest, rfl⟩ := stringLiteral_begins hb
    rfl
  · obtain ⟨b, mid, hb, -⟩ := bind_eq_some.mp h
    have hb := (wordOf_eq_some.mp hb).1
    rw [identifier, run_wordOf]
    split at hb
    · rename_i hword
      rw [beq_iff_eq.mp hword]
      rfl
    · split at hb
      · rename_i hword
        rw [beq_iff_eq.mp hword]
        rfl
      · cases hb

lemma parenthesized_eq_none {c : Char} (h : c ∈ cs.head?) (hc : c ≠ '(') :
    (parenthesized q).run cs = none :=
  parenthesized_begins.run_eq_none fun hopen => hc (Option.some.inj (h.symm.trans hopen))

lemma application_literal (h : literal.run cs = some (e, left)) :
    (application q).run cs = some (e, left) := by
  obtain ⟨c, hc, hplain⟩ := literal_head h
  have hparen : c ≠ '(' := by
    rintro rfl
    exact absurd hplain (by decide)
  rw [application, run_rule, run_or, call, run_rule, run_bind, identifier_eq_none h,
    Option.bind_none, Option.none_or, primary, run_rule, run_or, parenthesized_eq_none hc hparen,
    Option.none_or, run_or, h, Option.some_or]

/-- A name is an operand if no parenthesis follows. -/
lemma application_name {x : String} (h : identifier.run cs = some (x, left))
    (hleft : next left ≠ some '(') : (application q).run cs = some (.ok (.name x), left) := by
  obtain ⟨c, hc, hword⟩ := wordOf_head rfl h
  have hparen : c ≠ '(' := by
    rintro rfl
    exact absurd hword (by decide)
  have hcall : (call q).run cs = none := by
    rw [call, run_rule, run_bind, h, Option.bind_some, run_blank_bind, run_bind, text_eq_none.mpr,
      Option.bind_none]
    rintro ⟨rest, hrest⟩
    exact hleft (next_eq_some.mpr ⟨rest, hrest.symm⟩)
  have hliteral : literal.run cs = none :=
    Option.eq_none_iff_forall_ne_some.mpr fun r hr => by
      rw [identifier_eq_none hr] at h
      cases h
  rw [application, run_rule, run_or, hcall, Option.none_or, primary, run_rule, run_or,
    parenthesized_eq_none hc hparen, Option.none_or, run_or, hliteral, Option.none_or, run_bind, h,
    Option.bind_some, run_pure]

lemma application_group (h : (parenthesized q).run cs = some (e, left)) :
    (application q).run cs = some (e, left) := by
  obtain ⟨rest, rfl⟩ := List.head?_eq_some_iff.mp (parenthesized_begins h)
  have hcall : (call q).run ('(' :: rest) = none := rfl
  rw [application, run_rule, run_or, hcall, Option.none_or, primary, run_rule, run_or, h,
    Option.some_or]

end BitPattern.Grammar
