import BitPattern.Proofs.Grammar.Spelling
import BitPattern.Proofs.Grammar.Turn

/-!
# Level by level

The levels of the grammar stand one on the other, from operands with signs before them up to whole
expressions (`tower`).  A level that finds none of its operators reads what the level below it reads
(`tower_eq`), and at one of its operators it joins two readings of that level (`tower_binary`).
Both are equations: they say what is read and also where nothing is.

Operators stand in the spelling of the notation's own rendering here, with a blank on either side.
-/

namespace BitPattern.Grammar

open BitPattern.Text Reader

variable {cs ds : List Char} {q : Reader (Denoted Expr)}

/-! ## Signs before operands -/

section Sign

variable {op : Reader UnOp} {apply : UnOp → Expr → Expr}

lemma run_prefixedWithin_succ (limit : Nat) (cs : List Char) :
    (prefixedWithin op apply q (limit + 1)).run cs =
      ((op.run cs).bind fun r => ((prefixedWithin op apply q limit).run (skipBlank false r.2)).map
        fun r' => (apply r.1 <$> r'.1, r'.2)).or (q.run cs) := by
  rw [prefixedWithin, run_rule, run_or, run_rule, run_bind]
  congr 2
  funext r
  rw [run_blank_bind, run_bind]
  cases (prefixedWithin op apply q limit).run (skipBlank false r.2) <;> rfl

/-- A sign takes a character, so there are no more signs than characters. -/
lemma prefixedWithin_eq (hop : ∀ {cs o mid}, op.run cs = some (o, mid) → mid.length < cs.length)
    {limit : Nat} (hlimit : cs.length < limit) :
    (prefixedWithin op apply q limit).run cs = (prefixed op apply q).run cs := by
  -- One more than enough makes no difference.
  have hsucc (limit : Nat) : ∀ cs : List Char, cs.length < limit →
      (prefixedWithin op apply q (limit + 1)).run cs =
        (prefixedWithin op apply q limit).run cs := by
    induction limit with
    | zero => exact fun _ hcs => absurd hcs (Nat.not_lt_zero _)
    | succ limit ih =>
        intro cs hcs
        rw [run_prefixedWithin_succ, run_prefixedWithin_succ]
        congr 1
        cases ho : op.run cs with
        | none => rfl
        | some r =>
            have hmid : (skipBlank false r.2).length < limit :=
              Nat.lt_of_le_of_lt (skipBlank_suffix false r.2).length_le
                (Nat.lt_of_lt_of_le (hop ho) (Nat.le_of_lt_succ hcs))
            rw [Option.bind_some, Option.bind_some, ih _ hmid]
  obtain ⟨more, rfl⟩ : ∃ more, limit = cs.length + 1 + more := ⟨limit - (cs.length + 1), by omega⟩
  rw [run_prefixed]
  clear hlimit
  induction more with
  | zero => rfl
  | succ more ih => exact (hsucc (cs.length + 1 + more) cs (by omega)).trans ih

/-- A sign, and then whatever is read behind it, which may have signs of its own. -/
lemma run_prefixed_sign
    (hop : ∀ {cs o mid}, op.run cs = some (o, mid) → mid.length < cs.length) {o : UnOp}
    {mid : List Char} (h : op.run cs = some (o, mid)) (hq : q.run cs = none) :
    (prefixed op apply q).run cs =
      ((prefixed op apply q).run (skipBlank false mid)).map fun r => (apply o <$> r.1, r.2) := by
  have hmid : (skipBlank false mid).length < cs.length :=
    Nat.lt_of_le_of_lt (skipBlank_suffix false mid).length_le (hop h)
  rw [run_prefixed, run_prefixedWithin_succ, hq, Option.or_none, h, Option.bind_some,
    prefixedWithin_eq hop hmid]

lemma length_lt_of_spelled {s : String} {cs left : List Char} (hs : s.toList ≠ [])
    (h : cs = s.toList ++ left) : left.length < cs.length := by
  rw [h, List.length_append]
  have := List.length_pos_of_ne_nil hs
  omega

lemma length_lt_of_worded {s : String} {cs left : List Char} (hs : s.toList ≠ [])
    (hword : (takeWord cs).1 = s.toList) (hleft : (takeWord cs).2 = left) :
    left.length < cs.length := by
  refine length_lt_of_spelled hs ?_
  rw [← hword, ← hleft, takeWord_eq, List.takeWhile_append_dropWhile]

lemma unaryOp_shorter {o : UnOp} {mid : List Char} (h : unaryOp.run cs = some (o, mid)) :
    mid.length < cs.length := by
  rcases or_eq_some ((run_rule _ _).symm.trans h) with h | h
  · exact length_lt_of_spelled (by decide) (spelled_eq_some.mp h).1
  rcases or_eq_some h with h | h
  · exact length_lt_of_spelled (by decide) (spelled_eq_some.mp h).1
  · obtain ⟨hword, hleft, -⟩ := worded_eq_some.mp h
    exact length_lt_of_worded (by decide) hword hleft

lemma notOp_shorter {o : UnOp} {mid : List Char} (h : notOp.run cs = some (o, mid)) :
    mid.length < cs.length := by
  rcases or_eq_some ((run_rule _ _).symm.trans h) with h | h
  · obtain ⟨hword, hleft, -⟩ := worded_eq_some.mp h
    exact length_lt_of_worded (by decide) hword hleft
  · exact length_lt_of_spelled (by decide) (spelledBut_eq_some.mp h).1

end Sign

/-! ## Levels -/

lemma run_many_nil {α : Type} {p : Reader α} (h : p.run cs = none) :
    (many p).run cs = some ([], cs) := by
  cases cs with
  | nil => rfl
  | cons c cs => exact (run_manyWithin_cons p _ c cs).trans (by rw [h])

/-- A level on the one below it. Negations stand between comparisons and conjunctions. -/
def step : Level → Reader (Denoted Expr) → Reader (Denoted Expr)
  | .comparison, q => prefixed notOp .unary (comparison q)
  | l, q => chain l.op q

lemma step_of_ne {l : Level} (h : l ≠ .comparison) : step l q = chain l.op q := by
  cases l <;> first
    | rfl
    | exact absurd rfl h

/-- A level without any of its operators. -/
lemma step_eq {l : Level} (hnot : l = .comparison → notOp.run cs = none)
    (h : ∀ d mid, q.run cs = some (d, mid) → l.op.run (skipBlank false mid) = none) :
    (step l q).run cs = q.run cs := by
  by_cases hl : l = .comparison
  · subst hl
    rw [step, prefixed_single (hnot rfl), comparison, run_rule, run_bind]
    cases hq : q.run cs with
    | none => rfl
    | some r =>
        have hstop := operation_eq_none (q := q) (h r.1 r.2 hq)
        exact bind_eq_some.mpr ⟨none, r.2, run_optional_none hstop, rfl⟩
  · rw [step_of_ne hl, chain, run_rule, run_bind]
    cases hq : q.run cs with
    | none => rfl
    | some r =>
        have hstop := operation_eq_none (q := q) (h r.1 r.2 hq)
        exact bind_eq_some.mpr ⟨[], r.2, run_many_nil hstop, rfl⟩

/-! ## Operators in their own spelling -/

/-- An operator between blanks, and what stands behind it. -/
def between (op : BinOp) (ds : List Char) : List Char :=
  ' ' :: (op.spelling.toList ++ ' ' :: ds)

lemma spelling_spelled (op : BinOp) : (op.spelling, op) ∈ spellings := by
  cases op <;> decide

@[simp] lemma skipBlank_between (op : BinOp) (ds : List Char) :
    skipBlank false (between op ds) = op.spelling.toList ++ ' ' :: ds :=
  skipBlank_spelled (spelling_spelled op) ds

lemma op_between (op : BinOp) (ds : List Char) :
    op.level.op.run (skipBlank false (between op ds)) = some (op, ' ' :: ds) := by
  rw [skipBlank_between]
  cases op <;> rfl

/-- No other level reads the operator. -/
lemma op_between_eq_none {op : BinOp} {l : Level} (h : op.level ≠ l) (ds : List Char) :
    l.op.run (skipBlank false (between op ds)) = none := by
  rw [skipBlank_between]
  have hof := of?_spelled (spelling_spelled op) ds
  refine (Level.op_level l).run_eq_none ?_
  rintro (hl | ⟨rfl, hdoubled⟩)
  · exact h (Option.some.inj (hof.symm.trans hl))
  · have hshift : op.level = .shift := Option.some.inj (hof.symm.trans hdoubled.of?)
    cases op <;> first
      | exact absurd hshift (by decide)
      | exact absurd hdoubled (by rintro (⟨rest, hrest⟩ | ⟨rest, hrest⟩) <;> cases hrest)

lemma operation_between {op : BinOp} (hds : skipBlank false ds = ds) :
    (operation op.level.op q).run (between op ds) =
      (q.run ds).map fun r => ((op, r.1), r.2) := by
  have hskip : skipBlank false (' ' :: ds) = ds := hds
  rw [operation, run_rule, run_blank_bind, run_bind, op_between, Option.bind_some, run_blank_bind,
    hskip, run_bind]
  cases q.run ds <;> rfl

/-- What a level makes of its operator and of the reading behind it. -/
def joined (op : BinOp) (ds : List Char) (d : Denoted Expr) :
    Option (Denoted Expr × List Char) → Denoted Expr × List Char
  | none => (d, between op ds)
  | some r => (joinOperands d (op, r.1), r.2)

/-- A level at its operator. -/
lemma step_between {op : BinOp} {d : Denoted Expr}
    (hnot : op.level = .comparison → notOp.run cs = none) (hq : q.run cs = some (d, between op ds))
    (hds : skipBlank false ds = ds)
    (h : ∀ d' mid, q.run ds = some (d', mid) → op.level.op.run (skipBlank false mid) = none) :
    (step op.level q).run cs = some (joined op ds d (q.run ds)) := by
  have hop := @operation_between ds q op hds
  -- Only comparisons are not repeated.
  by_cases hl : op.level = .comparison
  · rw [hl] at hop
    rw [hl, step, prefixed_single (hnot hl), comparison, run_rule]
    refine bind_eq_some.mpr ⟨d, between op ds, hq, ?_⟩
    cases hr : q.run ds with
    | none =>
        rw [hr] at hop
        exact bind_eq_some.mpr ⟨none, between op ds, run_optional_none hop, rfl⟩
    | some r =>
        rw [hr] at hop
        exact bind_eq_some.mpr ⟨some (op, r.1), r.2, run_optional_some hop (List.cons_ne_nil _ _),
          rfl⟩
  · rw [step_of_ne hl, chain, run_rule]
    refine bind_eq_some.mpr ⟨d, between op ds, hq, ?_⟩
    cases hr : q.run ds with
    | none =>
        rw [hr] at hop
        exact bind_eq_some.mpr ⟨[], between op ds, run_many_nil hop, rfl⟩
    | some r =>
        rw [hr] at hop
        have hrow : Row (operation op.level.op q) (between op ds) [(op, r.1)] r.2 :=
          .cons hop (.nil _)
        have hlimit : [(op, r.1)].length ≤ (between op ds).length :=
          Nat.succ_le_succ (Nat.zero_le _)
        exact bind_eq_some.mpr ⟨[(op, r.1)], r.2, hrow.run_manyWithin
          (operation_eq_none (Level.op_nil _)) (operation_eq_none (h r.1 r.2 hr)) hlimit, rfl⟩

/-! ## The tower -/

/-- Levels on top of operands with signs before them. -/
def tower : List Level → Reader (Denoted Expr)
  | [] => signedOperand expr
  | l :: ls => step l (tower ls)

/-- The levels from comparisons on. -/
def tightLevels : List Level :=
  [.comparison, .bitOr, .bitXor, .bitAnd, .shift, .sum, .product]

lemma run_expr_eq_tower (cs : List Char) :
    expr.run cs = (tower (.or :: .and :: tightLevels)).run cs :=
  run_expr_eq cs

/-- Levels without any of their operators. -/
lemma tower_eq {ups ls : List Level} (hnot : .comparison ∈ ups → notOp.run cs = none)
    (h : ∀ d mid, (tower ls).run cs = some (d, mid) →
      ∀ l ∈ ups, l.op.run (skipBlank false mid) = none) :
    (tower (ups ++ ls)).run cs = (tower ls).run cs := by
  induction ups with
  | nil => rfl
  | cons l ups ih =>
      have hls := ih (fun hmem => hnot (.tail _ hmem)) fun d mid hr k hk =>
        h d mid hr k (.tail _ hk)
      refine (step_eq (fun hl => hnot (hl ▸ .head _)) fun d mid hr => ?_).trans hls
      exact h d mid (hls.symm.trans hr) l (.head _)

/-- Levels at the operator of one of them. -/
lemma tower_binary {op : BinOp} {ups downs ls : List Level} {d : Denoted Expr}
    (hups : op.level ∉ ups) (hdowns : op.level ∉ downs)
    (hnot : .comparison ∈ ups ++ op.level :: downs → notOp.run cs = none)
    (hnot' : .comparison ∉ downs) (hcs : (tower ls).run cs = some (d, between op ds))
    (hds : skipBlank false ds = ds)
    (h : ∀ d' mid, (tower ls).run ds = some (d', mid) →
      ∀ l : Level, l.op.run (skipBlank false mid) = none) :
    (tower (ups ++ op.level :: (downs ++ ls))).run cs =
      some (joined op ds d ((tower ls).run ds)) := by
  -- The levels below stop in front of the operator, and behind its second operand.
  have hfirst : (tower (downs ++ ls)).run cs = some (d, between op ds) := by
    refine (tower_eq (fun hmem => absurd hmem hnot') fun d' mid hr l hl => ?_).trans hcs
    cases hcs.symm.trans hr
    exact op_between_eq_none (fun heq => hdowns (heq ▸ hl)) ds
  have hsecond : (tower (downs ++ ls)).run ds = (tower ls).run ds :=
    tower_eq (fun hmem => absurd hmem hnot') fun d' mid hr l _ => h d' mid hr l
  have hop : (tower (op.level :: (downs ++ ls))).run cs =
      some (joined op ds d ((tower ls).run ds)) := by
    rw [← hsecond]
    refine step_between (fun hl => hnot (by simp [hl])) hfirst hds fun d' mid hr => ?_
    rw [hsecond] at hr
    exact h d' mid hr _
  refine (tower_eq (fun hmem => hnot (List.mem_append_left _ hmem)) fun d' mid hr l hl => ?_).trans
    hop
  have hr := hop.symm.trans hr
  -- The levels above find nothing to join, whether there is a second operand or not.
  cases hr' : (tower ls).run ds with
  | none =>
      rw [hr'] at hr
      cases hr
      exact op_between_eq_none (fun heq => hups (heq ▸ hl)) ds
  | some r =>
      rw [hr'] at hr
      cases hr
      exact h r.1 r.2 hr' l

end BitPattern.Grammar
