import BitPattern.Proofs.Plan.Cursor

/-!
# Two runs of a case side by side

Two runs of a case are alike if they go through the same steps on values that cannot be told apart.
What it means to be alike is a parameter: a `Likeness` relates values, widths, faults and calls, and
carries the proof that the steps of a run respect it.

The two runs may differ in the names of the plan (`FieldPlan.Alike`), in what the names stand for,
and in the subject (`Subjects`), as long as the expressions have values that are alike.  Then
fields, lists of fields and cases run alike (`FieldPlan.run_alike`, `runFields_alike`,
`CasePlan.runWith_alike`): they stand at the same distance from the start of their subjects, with as
many bits left and with bound values that are alike.
-/

namespace BitPattern.Plan

open BitPattern.Bits Run

/-- What it means that two values, two widths, two calls or two faults cannot be told apart. -/
structure Likeness where
  call : Call → Call → Prop
  fault : Fault → Fault → Prop
  value : Value → Value → Prop
  width : Scalar → Scalar → Prop
  fault_refl : ∀ f, fault f f
  toInt_eq : ∀ {n m}, width n m → n.toInt = m.toInt
  width_refl : ∀ n, width n n
  toScalar : ∀ {v w}, value v w → SameEnd fault width v.toScalar w.toScalar
  toInt : ∀ {v w}, value v w → SameEnd fault Eq v.toInt w.toInt
  toEndian : ∀ {v w}, value v w → SameEnd fault Eq v.toEndian w.toEndian
  truth : ∀ {v w}, value v w → v.truth = w.truth
  accepts : ∀ (test : Test) {v w}, value v w → test.accepts v = test.accepts w

namespace Likeness

variable (L : Likeness)

/-- Two runs that make the same calls and end alike. -/
abbrev Runs {α β : Type} (R : α → β → Prop) (r : Run α) (s : Run β) : Prop :=
  Related L.call L.fault R r s

/-- Two lists of bound values that are alike, the names of the second renamed. -/
abbrev Bound (rename : String → String) (bound bound' : List (String × Value)) : Prop :=
  List.Forall₂ (fun p q => q.1 = rename p.1 ∧ L.value p.2 q.2) bound bound'

/-- Two states at the same distance from the starts of two subjects. -/
structure States (rename : String → String) (subject subject' : Bitstring) (s s' : State) :
    Prop where
  off : s.off - subject.offset = s'.off - subject'.offset
  len : L.width s.len s'.len
  bound : L.Bound rename s.bound s'.bound

end Likeness

variable {L : Likeness} {rename : String → String} {names names' : Names}
variable {subject subject' : Bitstring}

/-! ## Plans that differ in names -/

/-- Lengths that differ in their expressions only. -/
inductive Length.Alike (E : Expr → Expr → Prop) : Length → Length → Prop where
  | fixed (n : Int) : Alike E (.fixed n) (.fixed n)
  | rest : Alike E .rest .rest
  | computed {e e' : Expr} (h : E e e') : Alike E (.computed e) (.computed e')

/-- Byte orders that differ in their expressions only. -/
inductive Order.Alike (E : Expr → Expr → Prop) : Order → Order → Prop where
  | named (name : String) : Alike E (.named name) (.named name)
  | computed {e e' : Expr} (native : String) (h : E e e') :
      Alike E (.computed e native) (.computed e' native)

/-- Plans of a field that differ in names only, `E` being what their expressions have in common
where some names are bound. -/
structure FieldPlan.Alike (E : List String → Expr → Expr → Prop) (rename : String → String)
    (before : List String) (plan plan' : FieldPlan) : Prop where
  type : plan.type = plan'.type
  length : Length.Alike (E before) plan.length plan'.length
  signed : plan.signed = plan'.signed
  order : Order.Alike (E before) plan.order plan'.order
  kept : plan.kept = plan'.kept
  locals : plan'.locals = plan.locals.map rename
  rebind : Option.Rel (E (plan.namesAfter before)) plan.rebind plan'.rebind
  test : plan.test = plan'.test
  check : Option.Rel (E (plan.namesAfter before)) plan.check plan'.check
  jump : Option.Rel (E (plan.namesAfter before)) plan.jump plan'.jump

/-- Lists of plans that differ in names only. -/
inductive FieldsAlike (E : List String → Expr → Expr → Prop) (rename : String → String) :
    List String → List FieldPlan → List FieldPlan → Prop where
  | nil (before : List String) : FieldsAlike E rename before [] []
  | cons {before : List String} {plan plan' : FieldPlan} {plans plans' : List FieldPlan}
      (h : plan.Alike E rename before plan')
      (hrest : FieldsAlike E rename (plan.namesAfter before) plans plans') :
      FieldsAlike E rename before (plan :: plans) (plan' :: plans')

/-- Two expressions whose values are alike wherever the names that are bound have such values. -/
def ExprsAlike (L : Likeness) (rename : String → String) (names names' : Names)
    (before : List String) (e e' : Expr) : Prop :=
  ∀ bound bound', bound.map Prod.fst = before → L.Bound rename bound bound' →
    L.Runs L.value (e.eval (names bound)) (e'.eval (names' bound'))

/-! ## Subjects -/

/-- Two subjects of the same length from which fields read values that are alike. -/
structure Subjects (L : Likeness) (subject subject' : Bitstring) : Prop where
  length : subject.length = subject'.length
  len : L.width subject.givenLength subject'.givenLength
  reads : ∀ (plan plan' : FieldPlan) (s s' : State) (width width' : Scalar) (order : ByteOrder),
    s.off - subject.offset = s'.off - subject'.offset → L.width width width' →
    plan.type = plan'.type → plan.signed = plan'.signed →
    plan.ReadsWithin subject s width → plan'.ReadsWithin subject' s' width' →
    SameEnd L.fault L.value (readBits plan.type plan.signed subject.data s.off width order)
      (readBits plan'.type plan'.signed subject'.data s'.off width' order)

/-! ## Widths and byte orders -/

lemma Likeness.runs_ofExcept_refl {α : Type} (x : Except Fault α) :
    L.Runs Eq (.ofExcept x) (.ofExcept x) :=
  .ofExcept (.refl L.fault_refl (fun _ => rfl) x)

lemma fit_alike (type : FieldType) {n n' len len' : Scalar} (hn : L.width n n')
    (hlen : L.width len len') : Option.Rel L.width (fit type n len) (fit type n' len') := by
  have hn' := L.toInt_eq hn
  have hlen' := L.toInt_eq hlen
  -- The width that -1 stands for.
  have hmost : L.width (if n.toInt = -1 then len else n) (if n'.toInt = -1 then len' else n') := by
    rw [hn']
    split
    · exact hlen
    · exact hn
  cases type with
  | int =>
      simp only [fit]
      rw [hn', hlen']
      split
      · exact .none
      · exact .some hn
  | string =>
      simp only [fit]
      generalize (if n.toInt = -1 then len else n) = most at hmost ⊢
      generalize (if n'.toInt = -1 then len' else n') = most' at hmost ⊢
      rw [L.toInt_eq hmost, hlen']
      split
      · exact .none
      · exact .some hmost
  | bitstring =>
      simp only [fit]
      generalize (if n.toInt = -1 then len else n) = most at hmost ⊢
      generalize (if n'.toInt = -1 then len' else n') = most' at hmost ⊢
      rw [L.toInt_eq hmost, hlen']
      split
      · exact .none
      · exact .some hmost

section Fields

variable {before : List String} {plan plan' : FieldPlan} {s s' : State}
variable {bound bound' : List (String × Value)}

lemma FieldPlan.width_alike
    (h : plan.Alike (ExprsAlike L rename names names') rename (bound.map Prod.fst) plan')
    (hbound : L.Bound rename bound bound') {len len' : Scalar} (hlen : L.width len len') :
    L.Runs (Option.Rel L.width) (plan.width (names bound) len)
      (plan'.width (names' bound') len') := by
  have hlen' := L.toInt_eq hlen
  have hlength := h.length
  unfold FieldPlan.width
  rw [← h.type, ← h.kept, ← hlen']
  -- Lengths that are alike are of the same kind, so a case for the one settles the other.
  cases hp : plan.length with
  | fixed n =>
      rw [hp] at hlength
      generalize plan'.length = length' at hlength
      cases hlength
      refine .pure ?_
      split
      · exact .none
      · exact .some (L.width_refl n)
  | rest =>
      rw [hp] at hlength
      generalize plan'.length = length' at hlength
      cases hlength
      refine .pure ?_
      split
      · exact .none
      · exact .some hlen
  | computed e =>
      rw [hp] at hlength
      generalize plan'.length = length' at hlength
      cases hlength
      rename_i e' he
      refine .bind (he bound bound' rfl hbound) fun v v' _ _ hv => ?_
      exact .bind (.ofExcept (L.toScalar hv)) fun n n' _ _ hn => .pure (fit_alike _ hn hlen)

lemma Order.eval_alike {order order' : Order}
    (h : Order.Alike (ExprsAlike L rename names names' (bound.map Prod.fst)) order order')
    (hbound : L.Bound rename bound bound') :
    L.Runs Eq (order.eval (names bound)) (order'.eval (names' bound')) := by
  cases h with
  | named name => exact L.runs_ofExcept_refl _
  | computed native he =>
      refine .bind (he bound bound' rfl hbound) fun v v' _ _ hv => ?_
      refine .bind (.ofExcept (L.toEndian hv)) fun e e' _ _ he => ?_
      rw [he]
      exact L.runs_ofExcept_refl _

/-! ## Values -/

lemma FieldPlan.read_alike
    (h : plan.Alike (ExprsAlike L rename names names') rename (s.bound.map Prod.fst) plan')
    (hs : L.States rename subject subject' s s') (hsubject : Subjects L subject subject')
    {width width' : Scalar} (hwidth : L.width width width')
    (hreads : plan.ReadsWithin subject s width) (hreads' : plan'.ReadsWithin subject' s' width') :
    L.Runs L.value (plan.read (names s.bound) subject.data s.off width)
      (plan'.read (names' s'.bound) subject'.data s'.off width') := by
  have hbits := fun order => hsubject.reads plan plan' s s' width width' order hs.off hwidth
    h.type h.signed hreads hreads'
  rw [FieldPlan.read_eq, FieldPlan.read_eq, ← h.type]
  split
  · refine .bind (Order.eval_alike h.order hs.bound) fun order order' _ _ horder => ?_
    rw [← horder, h.type]
    exact .ofExcept (h.type ▸ hbits order)
  · rw [h.type]
    exact .ofExcept (h.type ▸ hbits .big)

lemma bindLocals_alike (hbound : L.Bound rename bound bound') (locals : List String) {v v' : Value}
    (hv : L.value v v') :
    L.Bound rename (bindLocals bound locals v) (bindLocals bound' (locals.map rename) v') := by
  unfold bindLocals
  induction locals generalizing bound bound' with
  | nil => exact hbound
  | cons x locals ih => exact ih (.cons ⟨rfl, hv⟩ hbound)

lemma FieldPlan.accept_alike
    (h : plan.Alike (ExprsAlike L rename names names') rename (bound.map Prod.fst) plan')
    (hbound : L.Bound rename bound bound') {v v' : Value} (hv : L.value v v') :
    L.Runs (Option.Rel (L.Bound rename)) (plan.accept names bound v)
      (plan'.accept names' bound' v') := by
  -- The value that is bound comes first, since the check sees it.
  have hreplace : L.Runs L.value (plan.replace names bound v) (plan'.replace names' bound' v') := by
    have hrebind := h.rebind
    unfold FieldPlan.replace
    rw [h.locals]
    cases hp : plan.rebind with
    | none =>
        rw [hp] at hrebind
        generalize plan'.rebind = rebind' at hrebind
        cases hrebind
        exact .pure hv
    | some e =>
        rw [hp] at hrebind
        generalize plan'.rebind = rebind' at hrebind
        cases hrebind
        rename_i e' he
        exact he _ _ (map_fst_bindLocals _ _ _) (bindLocals_alike hbound _ hv)
  refine .bind hreplace fun w w' _ _ hw => ?_
  -- Both runs go on with the new values bound, which are related as the values are.
  have hinner := bindLocals_alike hbound plan.locals hw
  have hpasses : L.Runs Eq (plan.passes names (bindLocals bound plan.locals w) w)
      (plan'.passes names' (bindLocals bound' (plan.locals.map rename) w') w') := by
    have hcheck := h.check
    have haccepts : plan.test.all (·.accepts w) = plan.test.all (·.accepts w') := by
      cases plan.test with
      | none => rfl
      | some test => exact L.accepts test hw
    unfold FieldPlan.passes
    rw [← h.test, haccepts]
    split
    · cases hp : plan.check with
      | none =>
          rw [hp] at hcheck
          generalize plan'.check = check' at hcheck
          cases hcheck
          exact .pure rfl
      | some e =>
          rw [hp] at hcheck
          generalize plan'.check = check' at hcheck
          cases hcheck
          rename_i e' he
          exact .bind (he _ _ (map_fst_bindLocals _ _ _) hinner) fun u u' _ _ hu =>
            .pure (L.truth hu)
    · exact .pure rfl
  rw [h.locals]
  refine .bind hpasses fun passed passed' _ _ hpassed => .pure ?_
  rw [hpassed]
  split
  · exact .some hinner
  · exact .none

/-! ## Steps -/

lemma FieldPlan.reads_alike {E : List String → Expr → Expr → Prop}
    (h : plan.Alike E rename before plan') : plan.reads = plan'.reads := by
  have hlength := h.length
  unfold FieldPlan.reads
  rw [h.type, h.kept]
  generalize plan.length = length at hlength
  generalize plan'.length = length' at hlength
  cases hlength <;> cases plan'.type <;> rfl

lemma FieldPlan.measured_alike {E : List String → Expr → Expr → Prop}
    (h : plan.Alike E rename before plan') (hplan : plan.Measured) : plan'.Measured := by
  have hlength := h.length
  unfold FieldPlan.Measured at hplan ⊢
  rw [h.type] at hplan
  generalize plan.length = length at hlength hplan
  generalize plan'.length = length' at hlength ⊢
  cases hlength <;> exact hplan

lemma FieldPlan.consume_alike (hplan : plan.Measured)
    (h : plan.Alike (ExprsAlike L rename names names') rename (s.bound.map Prod.fst) plan')
    (hs : L.States rename subject subject' s s') (hsubject : Subjects L subject subject')
    (hwithin : s.Within subject) (hwithin' : s'.Within subject') {width width' : Scalar}
    (hwidth : L.width width width')
    (hfound : (plan.width (names s.bound) s.len).result = .ok (some width))
    (hfound' : (plan'.width (names' s'.bound) s'.len).result = .ok (some width')) :
    L.Runs (Option.Rel (L.Bound rename)) (plan.consume names subject.data s width)
      (plan'.consume names' subject'.data s' width') := by
  unfold FieldPlan.consume
  rw [← FieldPlan.reads_alike h]
  by_cases hreads : plan.reads = true
  · have hreads' : plan'.reads = true := FieldPlan.reads_alike h ▸ hreads
    rw [if_pos hreads, if_pos hreads]
    refine .bind (FieldPlan.read_alike h hs hsubject hwidth
      (FieldPlan.readsWithin hplan hwithin hfound hreads)
      (FieldPlan.readsWithin (FieldPlan.measured_alike h hplan) hwithin' hfound' hreads'))
      fun v v' _ _ hv => ?_
    exact FieldPlan.accept_alike h hs.bound hv
  · rw [if_neg hreads, if_neg hreads]
    exact .pure (.some hs.bound)

lemma jumpTo_alike {e e' : Expr} (hs : L.States rename subject subject' s s')
    (hsubject : Subjects L subject subject')
    (he : ExprsAlike L rename names names' (s.bound.map Prod.fst) e e') :
    L.Runs (Option.Rel (L.States rename subject subject')) (jumpTo names subject e s)
      (jumpTo names' subject' e' s') := by
  refine .bind (he _ _ rfl hs.bound) fun v v' _ _ hv => ?_
  refine .bind (.ofExcept (L.toInt hv)) fun n n' _ _ hn => .pure ?_
  subst hn
  have hinside : ((subject.offset : Int) + n < subject.offset ||
      (subject.offset : Int) + subject.length < subject.offset + n) =
        ((subject'.offset : Int) + n < subject'.offset ||
          (subject'.offset : Int) + subject'.length < subject'.offset + n) := by
    rw [hsubject.length]
    simp
  rw [hinside]
  split
  · exact .none
  · refine .some ⟨by simp, ?_, hs.bound⟩
    have hlen : (subject.offset : Int) + subject.length - (subject.offset + n) =
        subject'.offset + subject'.length - (subject'.offset + n) := by
      rw [hsubject.length]
      omega
    rw [hlen]
    exact L.width_refl _

/-- **A step.** A field runs alike from states that are alike, inside subjects that are. -/
lemma FieldPlan.run_alike (hplan : plan.Measured)
    (h : plan.Alike (ExprsAlike L rename names names') rename (s.bound.map Prod.fst) plan')
    (hbinds : plan.Binds) (hs : L.States rename subject subject' s s')
    (hsubject : Subjects L subject subject')
    (hwithin : s.Within subject) (hwithin' : s'.Within subject') :
    L.Runs (Option.Rel (L.States rename subject subject')) (plan.run names subject s)
      (plan'.run names' subject' s') := by
  refine .bind (FieldPlan.width_alike h hs.bound hs.len)
    fun width width' hfound hfound' hwidth => ?_
  cases hwidth with
  | none => exact .pure .none
  | @some width width' hwidth =>
      refine .bind (FieldPlan.consume_alike hplan h hs hsubject hwithin hwithin' hwidth hfound
        hfound') fun bound bound' hbound hbound' hconsumed => ?_
      cases hconsumed with
      | none => exact .pure .none
      | @some bound bound' hconsumed =>
          -- The cursor behind the field.
          have hnext : L.States rename subject subject' (s.past width bound)
              (s'.past width' bound') := by
            have hoff := hs.off
            have hlen := L.toInt_eq hs.len
            have hw := L.toInt_eq hwidth
            refine ⟨?_, ?_, hconsumed⟩
            · simp only [State.past]
              omega
            · simp only [State.past]
              rw [hlen, hw]
              exact L.width_refl _
          have hnames := FieldPlan.names_of_consume hbinds hbound
          have hjump := h.jump
          unfold FieldPlan.goOn
          cases hp : plan.jump with
          | none =>
              rw [hp] at hjump
              generalize plan'.jump = jump' at hjump
              cases hjump
              exact .pure (.some hnext)
          | some e =>
              rw [hp] at hjump
              generalize plan'.jump = jump' at hjump
              cases hjump
              rename_i e' he
              refine jumpTo_alike hnext hsubject ?_
              rw [State.past, hnames]
              exact he

end Fields

/-! ## Cases -/

/-- Lists of fields run alike, field by field. -/
lemma runFields_alike {before : List String} {plans plans' : List FieldPlan}
    (h : FieldsAlike (ExprsAlike L rename names names') rename before plans plans')
    (hplans : ∀ plan ∈ plans, plan.Measured ∧ plan.Binds) (hsubject : Subjects L subject subject')
    {s s' : State} (hbefore : s.bound.map Prod.fst = before)
    (hs : L.States rename subject subject' s s') (hwithin : s.Within subject)
    (hwithin' : s'.Within subject') :
    L.Runs (Option.Rel (L.States rename subject subject')) (runFields names subject s plans)
      (runFields names' subject' s' plans') := by
  induction h generalizing s s' with
  | nil before => exact .pure (.some hs)
  | @cons before plan plan' plans plans' hplan hrest ih =>
      obtain ⟨⟨hmeasured, hbinds⟩, hplans⟩ := List.forall_mem_cons.mp hplans
      subst hbefore
      rw [runFields_cons, runFields_cons]
      refine .bind (FieldPlan.run_alike hmeasured hplan hbinds hs hsubject hwithin hwithin')
        fun next next' hnext hnext' hnexts => ?_
      cases hnexts with
      | none => exact .pure .none
      | some hnexts =>
          exact ih hplans (FieldPlan.names_of_run hbinds hnext) hnexts
            (FieldPlan.run_within hmeasured hwithin hnext)
            (FieldPlan.run_within (FieldPlan.measured_alike hplan hmeasured) hwithin' hnext')

/-- **Cases run alike** on subjects that are alike if their fields and their bodies do. -/
theorem CasePlan.runWith_alike {plan plan' : CasePlan}
    (h : FieldsAlike (ExprsAlike L rename names names') rename [] plan.fields plan'.fields)
    (hplans : ∀ field ∈ plan.fields, field.Measured ∧ field.Binds)
    (hsubject : Subjects L subject subject')
    (hbody : ∀ bound bound', bound.map Prod.fst = plan.boundAfter → L.Bound rename bound bound' →
      L.Runs L.value (plan.body.run (names bound)) (plan'.body.run (names' bound'))) :
    L.Runs (Option.Rel L.value) (plan.runWith names subject) (plan'.runWith names' subject') := by
  have hstart : L.States rename subject subject' (.start subject) (.start subject') :=
    ⟨by simp [State.start], hsubject.len, .nil⟩
  refine .bind (runFields_alike h hplans hsubject rfl hstart (State.start_within subject)
    (State.start_within subject')) fun s s' hs _ hstates => ?_
  cases hstates with
  | none => exact .pure .none
  | some hstates =>
      have hnames := names_of_runFields (fun field hfield => (hplans field hfield).2) hs
      exact .bind (hbody _ _ hnames hstates.bound) fun v v' _ _ hv => .pure (.some hv)

end BitPattern.Plan
