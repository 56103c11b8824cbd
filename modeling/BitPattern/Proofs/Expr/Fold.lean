import BitPattern.Expr.Fold
import BitPattern.Plan.Scope
import BitPattern.Proofs.Expr.Eval

/-!
# Folding and running

The lengths of fields are checked on constant values before anything runs, and the same expressions
are run when a case is tried.  Both readings use the integer operations of `Integer`, but each has
its own table of operators, and they part on a division by zero and on a negative count of a shift,
where folding knows no value and running fails.

`isArithmetic` says which expressions both readings are about: integer literals under the operators
that fold.  On them one induction compares the readings (`eval_settled`), and whatever folds is one
of them (`isArithmetic_of_fold?`).  `fold?_agrees` puts this together with what resolving does.
-/

namespace BitPattern

/-! ## Operators -/

/-- The operators between two integers that fold. -/
def BinOp.isArithmetic : BinOp → Bool
  | add | sub | mul | div | mod => true
  | bitAnd | bitOr | bitXor | shiftLeft | logicalShiftRight | shiftRight => true
  | or | and | eq | ne | lt | le | gt | ge => false

/-- The operators before an integer that fold. -/
def UnOp.isArithmetic : UnOp → Bool
  | neg | complement => true
  | not => false

/-- What a run on integers comes to: the value that folding knows, or one of two faults where
folding knows none. -/
def Settled (folded : Option Int) (run : Run Value) : Prop :=
  (∃ n, folded = some n ∧ run = pure (.int n)) ∨
    folded = none ∧ (run = Run.fault .zeroDivision ∨ run = Run.fault .value)

namespace Settled

lemma ok (n : Int) : Settled (some n) (pure (.int n)) :=
  .inl ⟨n, rfl, rfl⟩

/-- Settled runs follow one another as foldings do: the first one that fails ends both. -/
lemma bind {folded : Option Int} {k : Int → Option Int} {run : Run Value}
    {f : Value → Run Value} (h : Settled folded run) (hk : ∀ a, Settled (k a) (f (.int a))) :
    Settled (folded.bind k) (run >>= f) := by
  rcases h with ⟨a, rfl, rfl⟩ | ⟨rfl, hfault⟩
  · rw [Option.bind_some, Run.pure_bind]
    exact hk a
  · refine .inr ⟨rfl, ?_⟩
    rcases hfault with rfl | rfl
    · exact .inl rfl
    · exact .inr rfl

/-- Dividing is settled by the divisor being zero or not. -/
lemma divide (f : Int → Int → Int) (a b : Int) :
    Settled (if b = 0 then none else some (f a b))
      (Run.ofExcept (Value.divide f (.int a) (.int b))) := by
  show Settled _ (Run.ofExcept (if b = 0 then .error .zeroDivision else .ok (.int (f a b))))
  by_cases hb : b = 0
  · rw [if_pos hb, if_pos hb]
    exact .inr ⟨rfl, .inl rfl⟩
  · rw [if_neg hb, if_neg hb]
    exact ok _

/-- Shifting is settled by the count being negative or not. -/
lemma shift (f : Int → Nat → Int) (a b : Int) :
    Settled (shiftBy? f a b) (Run.ofExcept (Value.shift f (.int a) (.int b))) := by
  show Settled (if b < 0 then none else some (f a b.toNat))
    (Run.ofExcept (if b < 0 then .error .value else .ok (.int (f a b.toNat))))
  by_cases hb : b < 0
  · rw [if_pos hb, if_pos hb]
    exact .inr ⟨rfl, .inr rfl⟩
  · rw [if_neg hb, if_neg hb]
    exact ok _

end Settled

/-- The two tables of operators between two integers agree. -/
lemma BinOp.apply_settled {op : BinOp} (h : op.isArithmetic = true) (a b : Int) :
    Settled (op.fold? a b) (Run.ofExcept (op.apply (.int a) (.int b))) := by
  cases op with
  | add => exact .ok (a + b)
  | sub => exact .ok (a - b)
  | mul => exact .ok (a * b)
  | div => exact .divide Integer.quotient a b
  | mod => exact .divide Integer.remainder a b
  | bitAnd => exact .ok (Integer.bitAnd a b)
  | bitOr => exact .ok (Integer.bitOr a b)
  | bitXor => exact .ok (Integer.bitXor a b)
  | shiftLeft => exact .shift Integer.shiftLeft a b
  | logicalShiftRight => exact .shift Integer.logicalShiftRight a b
  | shiftRight => exact .shift Integer.shiftRight a b
  | _ => cases h

/-- The two tables of operators before an integer agree. -/
lemma UnOp.apply_settled {op : UnOp} (h : op.isArithmetic = true) (a : Int) :
    Settled (op.fold? a) (Run.ofExcept (op.apply (.int a))) := by
  cases op with
  | neg => exact .ok (-a)
  | complement => exact .ok (Integer.complement a)
  | not => cases h

/-- An operator that folds needs both of its operands. -/
lemma BinOp.settles_of_isArithmetic {op : BinOp} (h : op.isArithmetic = true) (v : Value) :
    op.settles v = false := by
  cases op with
  | or => cases h
  | and => cases h
  | _ => rfl

lemma BinOp.isArithmetic_of_fold? {op : BinOp} {a b n : Int} (h : op.fold? a b = some n) :
    op.isArithmetic = true := by
  cases op <;> first | rfl | cases h

lemma UnOp.isArithmetic_of_fold? {op : UnOp} {a n : Int} (h : op.fold? a = some n) :
    op.isArithmetic = true := by
  cases op <;> first | rfl | cases h

/-! ## Expressions -/

namespace Expr

/-- An expression of integer literals under operators that fold. -/
def isArithmetic : Expr → Bool
  | int _ => true
  | binary op left right => op.isArithmetic && left.isArithmetic && right.isArithmetic
  | unary op operand => op.isArithmetic && operand.isArithmetic
  | bytes _ | bool _ | name _ | call .. | tuple _ => false

/-- Whatever folds is made of integer literals and operators that fold. -/
lemma isArithmetic_of_fold? {e : Expr} {n : Int} (h : e.fold? = some n) :
    e.isArithmetic = true := by
  induction e generalizing n with
  | int m => rfl
  | bytes b => cases h
  | bool b => cases h
  | name x => cases h
  | binary op left right ihl ihr =>
      obtain ⟨a, ha, h⟩ := Option.bind_eq_some_iff.mp h
      obtain ⟨b, hb, h⟩ := Option.bind_eq_some_iff.mp h
      rw [isArithmetic, ihl ha, ihr hb, BinOp.isArithmetic_of_fold? h]
      rfl
  | unary op operand ih =>
      obtain ⟨a, ha, h⟩ := Option.bind_eq_some_iff.mp h
      rw [isArithmetic, ih ha, UnOp.isArithmetic_of_fold? h]
      rfl
  | call function args => cases h
  | tuple items => cases h

lemma freeNames_of_isArithmetic {e : Expr} (h : e.isArithmetic = true) : e.freeNames = [] := by
  refine List.eq_nil_iff_forall_not_mem.mpr ?_
  intro x
  induction e with
  | int m => simp [freeNames, collectNames]
  | binary op left right ihl ihr =>
      simp only [isArithmetic, Bool.and_eq_true] at h
      rw [mem_freeNames_binary]
      exact not_or.mpr ⟨ihl h.1.2, ihr h.2⟩
  | unary op operand ih =>
      simp only [isArithmetic, Bool.and_eq_true] at h
      rw [mem_freeNames_unary]
      exact ih h.2
  | bytes b => cases h
  | bool b => cases h
  | name y => cases h
  | call function args => cases h
  | tuple items => cases h

/-- Resolving leaves an expression without names as it is, under every scope. -/
lemma resolve_of_isArithmetic {e : Expr} (h : e.isArithmetic = true) (scope : Plan.Scope)
    (env : List String) (text : String) : Plan.resolve scope env text e = .ok e := by
  induction e with
  | int m => rfl
  | binary op left right ihl ihr =>
      simp only [isArithmetic, Bool.and_eq_true] at h
      rw [Plan.resolve, ihl h.1.2, ihr h.2]
      rfl
  | unary op operand ih =>
      simp only [isArithmetic, Bool.and_eq_true] at h
      rw [Plan.resolve, ih h.2]
      rfl
  | bytes b => cases h
  | bool b => cases h
  | name y => cases h
  | call function args => cases h
  | tuple items => cases h

/-- An arithmetic expression runs without a call to the integer that it folds to, or fails if it
does not fold. -/
lemma eval_settled {e : Expr} (h : e.isArithmetic = true)
    (lookup : String → Except Fault Value) : Settled e.fold? (e.eval lookup) := by
  induction e with
  | int m => exact .ok m
  | binary op left right ihl ihr =>
      simp only [isArithmetic, Bool.and_eq_true] at h
      obtain ⟨⟨hop, hl⟩, hr⟩ := h
      rw [fold?, eval_binary]
      refine .bind (ihl hl) ?_
      intro a
      -- No operator that folds settles on its first operand, so the second one runs, too.
      rw [BinOp.settles_of_isArithmetic hop, if_neg Bool.false_ne_true]
      exact .bind (ihr hr) (BinOp.apply_settled hop a)
  | unary op operand ih =>
      simp only [isArithmetic, Bool.and_eq_true] at h
      rw [fold?, eval_unary]
      exact .bind (ih h.2) (UnOp.apply_settled h.1)
  | bytes b => cases h
  | bool b => cases h
  | name y => cases h
  | call function args => cases h
  | tuple items => cases h

/-- **Folding and running agree.**  An expression that folds has no names, is compiled to itself
under every scope and environment, and runs to the integer that it folds to, whatever names stand
for.  An expression of integer literals under operators that fold is compiled as well if it does not
fold, and then its run ends in a division by zero or in a negative count of a shift.  -/
theorem fold?_agrees (e : Expr) :
    (∀ n, e.fold? = some n → e.freeNames = [] ∧ ∀ scope env text,
      Plan.resolve scope env text e = .ok e ∧ ∀ lookup, e.eval lookup = pure (.int n)) ∧
    (e.isArithmetic = true → e.fold? = none → ∀ scope env text,
      Plan.resolve scope env text e = .ok e ∧
        ∀ lookup, e.eval lookup = Run.fault .zeroDivision ∨ e.eval lookup = Run.fault .value) := by
  constructor
  · intro n hn
    have he := isArithmetic_of_fold? hn
    refine ⟨freeNames_of_isArithmetic he, ?_⟩
    intro scope env text
    refine ⟨resolve_of_isArithmetic he scope env text, ?_⟩
    intro lookup
    rcases eval_settled he lookup with ⟨m, hm, hrun⟩ | ⟨hnone, -⟩
    · rw [hn] at hm
      cases hm
      exact hrun
    · rw [hn] at hnone
      cases hnone
  · intro he hnone scope env text
    refine ⟨resolve_of_isArithmetic he scope env text, ?_⟩
    intro lookup
    rcases eval_settled he lookup with ⟨m, hm, -⟩ | ⟨-, hfault⟩
    · rw [hnone] at hm
      cases hm
    · exact hfault

/-- `-7 mod 2` folds, to the remainder with the sign of the dividend, and `1 lsl -1` does not. -/
theorem fold?_agrees_remainder :
    (binary .mod (unary .neg (int 7)) (int 2)).fold? = some (-1) ∧
    (∀ scope env text,
      Plan.resolve scope env text (binary .mod (unary .neg (int 7)) (int 2)) =
          .ok (binary .mod (unary .neg (int 7)) (int 2)) ∧
        ∀ lookup, (binary .mod (unary .neg (int 7)) (int 2)).eval lookup = pure (.int (-1))) ∧
    (binary .shiftLeft (int 1) (unary .neg (int 1))).isArithmetic = true ∧
    (binary .shiftLeft (int 1) (unary .neg (int 1))).fold? = none ∧
    ∀ scope env text,
      Plan.resolve scope env text (binary .shiftLeft (int 1) (unary .neg (int 1))) =
          .ok (binary .shiftLeft (int 1) (unary .neg (int 1))) ∧
        ∀ lookup,
          (binary .shiftLeft (int 1) (unary .neg (int 1))).eval lookup = Run.fault .zeroDivision ∨
            (binary .shiftLeft (int 1) (unary .neg (int 1))).eval lookup = Run.fault .value :=
  ⟨by decide, ((fold?_agrees _).1 (-1) (by decide)).2, by decide, by decide,
    (fold?_agrees _).2 (by decide) (by decide)⟩

end Expr

end BitPattern
