import BitPattern.Proofs.Expr.Eval
import BitPattern.Proofs.Plan.Reading
import BitPattern.Proofs.Plan.Step

/-!
# The expressions of a plan

A field evaluates its length and its byte order before its own names are bound, and the rest of its
expressions afterwards.  `FieldPlan.uses` lists them, each with the names that are bound where it is
evaluated, and `usesOf` does so for a list of fields.

The names that a run has bound at a boundary are those of the fields before it
(`names_of_runFields`), so a statement about every use is a statement about every evaluation of a
run.  `runFields_faults` is the first of that kind: a run of fields ends in a fault of values, in a
fault of one of its expressions, or in one of taking bits from the subject (`readBits`).
-/

namespace BitPattern.Plan

variable {names : Names} {subject : Bitstring} {P : Fault → Prop}

/-! ## Uses of names -/

/-- The names bound after a field, the latest first. -/
def FieldPlan.namesAfter (plan : FieldPlan) (before : List String) : List String :=
  plan.locals.reverse ++ before

/-- The expressions of a field, each with the names that are bound where it is evaluated. -/
def FieldPlan.uses (plan : FieldPlan) (before : List String) : List (List String × Expr) :=
  (match plan.length with
    | .computed e => [(before, e)]
    | .fixed _ | .rest => [])
  ++ (match plan.order with
    | .computed e _ => [(before, e)]
    | .named _ => [])
  ++ (plan.rebind.toList ++ plan.check.toList ++ plan.jump.toList).map
    fun e => (plan.namesAfter before, e)

/-- What a field evaluates after its own names are bound is one of its uses. -/
lemma FieldPlan.inner_mem_uses {plan : FieldPlan} {before : List String} {e : Expr}
    (he : e ∈ plan.rebind ∨ e ∈ plan.check ∨ e ∈ plan.jump) :
    (plan.namesAfter before, e) ∈ plan.uses before := by
  simp only [FieldPlan.uses, List.mem_append, List.mem_map, Option.mem_toList]
  exact .inr ⟨e, by tauto, rfl⟩

/-- The names bound after some fields, the latest first. -/
def namesAfter (before : List String) (plans : List FieldPlan) : List String :=
  plans.foldl (fun names plan => plan.namesAfter names) before

/-- The names bound after some fields are those bound before and those of the fields. -/
lemma mem_namesAfter {before : List String} {plans : List FieldPlan} {x : String} :
    x ∈ namesAfter before plans ↔ x ∈ before ∨ x ∈ plans.flatMap FieldPlan.locals := by
  induction plans generalizing before with
  | nil => simp [namesAfter]
  | cons plan plans ih =>
      rw [namesAfter, List.foldl_cons, ← namesAfter, ih, FieldPlan.namesAfter, List.mem_append,
        List.mem_reverse, List.flatMap_cons, List.mem_append]
      tauto

/-- The expressions of several fields, each with the names that are bound where it is evaluated. -/
def usesOf (before : List String) : List FieldPlan → List (List String × Expr)
  | [] => []
  | plan :: plans => plan.uses before ++ usesOf (plan.namesAfter before) plans

/-- A field that reads no value binds no name. -/
def FieldPlan.Binds (plan : FieldPlan) : Prop :=
  plan.reads = false → plan.locals = []

/-! ## The names of a run -/

lemma map_fst_bindLocals (bound : List (String × Value)) (locals : List String) (v : Value) :
    (bindLocals bound locals v).map Prod.fst = locals.reverse ++ bound.map Prod.fst := by
  unfold bindLocals
  induction locals generalizing bound with
  | nil => simp
  | cons x locals ih =>
      rw [List.foldl_cons, ih]
      simp

lemma FieldPlan.accept_eq_some {plan : FieldPlan} {bound bound' : List (String × Value)}
    {v : Value} (h : (plan.accept names bound v).result = .ok (some bound')) :
    ∃ w, bound' = bindLocals bound plan.locals w := by
  unfold FieldPlan.accept at h
  obtain ⟨w, -, h⟩ := Run.bind_eq_ok.mp h
  obtain ⟨passed, -, h⟩ := Run.bind_eq_ok.mp h
  cases passed with
  | false => cases h
  | true => cases h; exact ⟨w, rfl⟩

lemma FieldPlan.names_of_consume {plan : FieldPlan} (hbinds : plan.Binds) {s : State}
    {width : Scalar} {bound : List (String × Value)}
    (h : (plan.consume names subject.data s width).result = .ok (some bound)) :
    bound.map Prod.fst = plan.namesAfter (s.bound.map Prod.fst) := by
  unfold FieldPlan.consume at h
  split at h
  · obtain ⟨v, -, h⟩ := Run.bind_eq_ok.mp h
    obtain ⟨w, rfl⟩ := FieldPlan.accept_eq_some h
    exact map_fst_bindLocals _ _ _
  · rename_i hreads
    cases h
    rw [FieldPlan.namesAfter, hbinds (by simpa using hreads)]
    rfl

lemma FieldPlan.bound_of_goOn {plan : FieldPlan} {s next : State}
    (h : (plan.goOn names subject s).result = .ok (some next)) : next.bound = s.bound := by
  unfold FieldPlan.goOn at h
  split at h
  · cases h
    rfl
  · obtain ⟨off, -, -, rfl⟩ := jumpTo_eq_some h
    rfl

lemma FieldPlan.names_of_run {plan : FieldPlan} (hbinds : plan.Binds) {s next : State}
    (h : (plan.run names subject s).result = .ok (some next)) :
    next.bound.map Prod.fst = plan.namesAfter (s.bound.map Prod.fst) := by
  obtain ⟨width, bound, -, hconsume, hnext⟩ := FieldPlan.run_eq_some.mp h
  rw [FieldPlan.bound_of_goOn hnext]
  exact FieldPlan.names_of_consume hbinds hconsume

/-- A run that has passed some fields has bound their names, in their order. -/
lemma names_of_runFields {plans : List FieldPlan} (hbinds : ∀ plan ∈ plans, plan.Binds)
    {s last : State} (h : (runFields names subject s plans).result = .ok (some last)) :
    last.bound.map Prod.fst = namesAfter (s.bound.map Prod.fst) plans := by
  induction plans generalizing s with
  | nil =>
      cases h
      rfl
  | cons plan plans ih =>
      obtain ⟨next, hnext, hrest⟩ := runFields_cons_eq_some.mp h
      rw [ih (fun p hp => hbinds p (List.mem_cons_of_mem _ hp)) hrest,
        FieldPlan.names_of_run (hbinds plan List.mem_cons_self) hnext]
      rfl

/-! ## The faults of a run -/

/-- Every use, under every binding of its names, ends in a value or in an admitted fault. -/
def UsesFault (P : Fault → Prop) (names : Names) (uses : List (List String × Expr)) : Prop :=
  ∀ use ∈ uses, ∀ bound : List (String × Value), bound.map Prod.fst = use.1 →
    (use.2.eval (names bound)).Faults P

lemma Order.eval_faults {order : Order} {lookup : String → Except Fault Value}
    (hvalues : ∀ f : Fault, f.ofValues → P f)
    (h : ∀ e native, order = .computed e native → (e.eval lookup).Faults P) :
    (order.eval lookup).Faults P := by
  cases order with
  | named name => exact fun f hf => hvalues f (ByteOrder.ofName_ofValues name f hf)
  | computed e native =>
      refine .bind (h e native rfl) fun v _ => ?_
      refine .bind (fun f hf => hvalues f (v.toEndian_ofValues f hf)) fun _ _ => ?_
      exact fun f hf => hvalues f (ByteOrder.ofName_ofValues _ f hf)

lemma FieldPlan.width_faults {plan : FieldPlan} {bound : List (String × Value)} {len : Scalar}
    (hvalues : ∀ f : Fault, f.ofValues → P f)
    (huses : UsesFault P names (plan.uses (bound.map Prod.fst))) :
    (plan.width (names bound) len).Faults P := by
  unfold FieldPlan.width
  split
  · exact .pure _
  · exact .pure _
  · rename_i e he
    refine .bind (huses (bound.map Prod.fst, e) (by simp [FieldPlan.uses, he]) bound rfl)
      fun v _ => ?_
    exact .bind (fun f hf => hvalues f (v.toScalar_ofValues f hf)) fun _ _ => .pure _

lemma FieldPlan.accept_faults {plan : FieldPlan} {bound : List (String × Value)} {v : Value}
    (huses : UsesFault P names (plan.uses (bound.map Prod.fst))) :
    (plan.accept names bound v).Faults P := by
  refine .bind ?_ fun w _ => .bind ?_ fun _ _ => .pure _
  · unfold FieldPlan.replace
    split
    · exact .pure _
    · rename_i e he
      exact huses (plan.namesAfter _, e) (by simp [FieldPlan.uses, he]) _
        (map_fst_bindLocals _ _ _)
  · unfold FieldPlan.passes
    split
    · split
      · exact .pure _
      · rename_i e he
        exact .bind (huses (plan.namesAfter _, e) (by simp [FieldPlan.uses, he]) _
          (map_fst_bindLocals _ _ _)) fun _ _ => .pure _
    · exact .pure _

lemma FieldPlan.goOn_faults {plan : FieldPlan} {s : State} {before : List String}
    (hvalues : ∀ f : Fault, f.ofValues → P f)
    (huses : UsesFault P names (plan.uses before))
    (hnames : s.bound.map Prod.fst = plan.namesAfter before) :
    (plan.goOn names subject s).Faults P := by
  unfold FieldPlan.goOn
  split
  · exact .pure _
  · rename_i e he
    refine .bind (huses (plan.namesAfter before, e) (by simp [FieldPlan.uses, he]) _ hnames)
      fun v _ => ?_
    exact .bind (fun f hf => hvalues f (v.toInt_ofValues f hf)) fun _ _ => .pure _

/-- A field ends in a fault of values, of its expressions, or of reading its value. -/
lemma FieldPlan.run_faults {plan : FieldPlan} (hbinds : plan.Binds) {s : State}
    (hvalues : ∀ f : Fault, f.ofValues → P f)
    (huses : UsesFault P names (plan.uses (s.bound.map Prod.fst)))
    (hread : ∀ width, (plan.width (names s.bound) s.len).result = .ok (some width) →
      plan.reads = true → (plan.read (names s.bound) subject.data s.off width).Faults P) :
    (plan.run names subject s).Faults P := by
  refine .bind (FieldPlan.width_faults hvalues huses) fun width hwidth => ?_
  cases width with
  | none => exact .pure _
  | some width =>
      refine .bind ?_ fun bound hbound => ?_
      · unfold FieldPlan.consume
        split
        · rename_i hreads
          exact .bind (hread width hwidth hreads) fun _ _ => FieldPlan.accept_faults huses
        · exact .pure _
      · cases bound with
        | none => exact .pure _
        | some bound =>
            exact FieldPlan.goOn_faults hvalues huses (FieldPlan.names_of_consume hbinds hbound)

/-- A reading ends in a fault of its byte order or of taking the bits. -/
lemma FieldPlan.read_faults {plan : FieldPlan} {bound : List (String × Value)} {data : Bytes}
    {off : Int} {width : Scalar} (hvalues : ∀ f : Fault, f.ofValues → P f)
    (huses : UsesFault P names (plan.uses (bound.map Prod.fst)))
    (hbits : ∀ low high size extent, P (.outside low high size extent)) :
    (plan.read (names bound) data off width).Faults P := by
  have htake : ∀ order, (Run.ofExcept (readBits plan.type plan.signed data off width order)).Faults
      P := by
    intro order f hf
    obtain ⟨low, high, size, extent, rfl⟩ := readBits_eq_error hf
    exact hbits low high size extent
  rw [FieldPlan.read_eq]
  split
  · exact .bind (Order.eval_faults hvalues fun e native he =>
      huses (bound.map Prod.fst, e) (by simp [FieldPlan.uses, he]) bound rfl)
      fun order _ => htake order
  · exact htake .big

/-- A run of fields ends in a fault of values, of one of its expressions, or of taking bits. -/
lemma runFields_faults {plans : List FieldPlan} (hbinds : ∀ plan ∈ plans, plan.Binds) {s : State}
    (hvalues : ∀ f : Fault, f.ofValues → P f)
    (huses : UsesFault P names (usesOf (s.bound.map Prod.fst) plans))
    (hbits : ∀ low high size extent, P (.outside low high size extent)) :
    (runFields names subject s plans).Faults P := by
  induction plans generalizing s with
  | nil => exact .pure _
  | cons plan plans ih =>
      obtain ⟨hplan, hplans⟩ := List.forall_mem_cons.mp hbinds
      have hfield : UsesFault P names (plan.uses (s.bound.map Prod.fst)) := fun use huse =>
        huses use (List.mem_append_left _ huse)
      rw [runFields_cons]
      refine .bind (FieldPlan.run_faults hplan hvalues hfield fun width _ _ =>
        FieldPlan.read_faults hvalues hfield hbits) fun next hnext => ?_
      cases next with
      | none => exact .pure _
      | some next =>
          refine ih hplans fun use huse => huses use (List.mem_append_right _ ?_)
          rwa [FieldPlan.names_of_run hplan hnext] at huse

end BitPattern.Plan
