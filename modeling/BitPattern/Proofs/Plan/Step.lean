import BitPattern.Plan.Run
import BitPattern.Proofs.Run.Lift

/-!
# One field after another

A field runs in three steps: its width is found out, its value is consumed, and matching goes on at
the end of the field or at another offset.  `FieldPlan.run_eq_some` takes a field that accepts apart
into them, and `runFields_append` takes a run of several fields apart at any boundary.
-/

namespace BitPattern.Plan

variable {names : Names} {subject : Bitstring} {state next : State} {plan : FieldPlan}

/-! ## Fields -/

/-- A field that accepts: it has a width, its value is accepted, and matching goes on. -/
lemma FieldPlan.run_eq_some :
    (plan.run names subject state).result = .ok (some next) ↔
      ∃ width bound, (plan.width (names state.bound) state.len).result = .ok (some width) ∧
        (plan.consume names subject.data state width).result = .ok (some bound) ∧
        (plan.goOn names subject (state.past width bound)).result = .ok (some next) := by
  unfold FieldPlan.run
  constructor
  · intro h
    obtain ⟨width, hwidth, h⟩ := Run.bind_eq_ok.mp h
    cases width with
    | none => cases h
    | some width =>
        obtain ⟨bound, hbound, h⟩ := Run.bind_eq_ok.mp h
        cases bound with
        | none => cases h
        | some bound => exact ⟨width, bound, hwidth, hbound, h⟩
  · rintro ⟨width, bound, hwidth, hbound, hnext⟩
    exact Run.bind_eq_ok.mpr ⟨some width, hwidth,
      Run.bind_eq_ok.mpr ⟨some bound, hbound, hnext⟩⟩

/-- A jump that is taken ends between the ends of the subject, and what is left is counted anew. -/
lemma jumpTo_eq_some {e : Expr} :
    (jumpTo names subject e state).result = .ok (some next) →
      ∃ off : Int, subject.offset ≤ off ∧ off ≤ subject.offset + subject.length ∧
        next = ⟨off, .number (subject.offset + subject.length - off), state.bound⟩ := by
  unfold jumpTo
  intro h
  obtain ⟨v, -, h⟩ := Run.bind_eq_ok.mp h
  obtain ⟨n, -, h⟩ := Run.bind_eq_ok.mp h
  simp only [Run.result_pure, Except.ok.injEq] at h
  split at h
  · cases h
  · rename_i hinside
    simp only [Bool.or_eq_true, decide_eq_true_eq, not_or] at hinside
    cases h
    exact ⟨subject.offset + n, by omega, by omega, rfl⟩

/-! ## Lists of fields -/

lemma runFields_cons (plans : List FieldPlan) :
    runFields names subject state (plan :: plans) =
      (plan.run names subject state >>= fun
        | none => pure none
        | some next => runFields names subject next plans) := by
  change (plan.run names subject state >>= _) = _
  refine congrArg _ (funext fun s => ?_)
  cases s <;> rfl

/-- Fields run one list after the other: a list that refuses ends the run. -/
lemma runFields_append (before after : List FieldPlan) :
    runFields names subject state (before ++ after) =
      (runFields names subject state before >>= fun
        | none => pure none
        | some next => runFields names subject next after) := by
  induction before generalizing state with
  | nil => simp [runFields]
  | cons plan before ih =>
      rw [List.cons_append, runFields_cons, runFields_cons, Run.bind_assoc]
      refine congrArg _ (funext fun s => ?_)
      cases s with
      | none => simp
      | some s => exact ih

lemma runFields_cons_eq_some {plans : List FieldPlan} {last : State} :
    (runFields names subject state (plan :: plans)).result = .ok (some last) ↔
      ∃ next, (plan.run names subject state).result = .ok (some next) ∧
        (runFields names subject next plans).result = .ok (some last) := by
  rw [runFields_cons, Run.bind_eq_ok]
  constructor
  · rintro ⟨s, hs, h⟩
    cases s with
    | none => cases h
    | some next => exact ⟨next, hs, h⟩
  · rintro ⟨next, hs, h⟩
    exact ⟨some next, hs, h⟩

end BitPattern.Plan
