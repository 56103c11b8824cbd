import BitPattern.Proofs.Plan.Agree

/-!
# Runs that start in the middle of another

A run of fields may be cut at any boundary (`runOn_append`).  What is left of it from there starts
with values bound already, somewhere in the subject.  It is also a run of its own, on what is left
of the subject, if the values that are bound already are looked up elsewhere: `Framed` says so of
the names, and `runOn_framed` of the run.  The values ride along untouched, and a field without a
jump has no other use for the subject than its buffer.

What is left of a subject is what a field reads that takes the rest: `FieldPlan.TakesRest.run` gives
it as a bitstring on which a run starts at the same place.
-/

namespace BitPattern

/-- A scalar that is not negative is what it stands for, given as it was given. -/
lemma Scalar.ofNat_toNat {n : Scalar} (h : 0 ≤ n.toInt) : Scalar.ofNat n.isTruth n.toNat = n := by
  cases n with
  | number n =>
      rw [Scalar.toInt_number] at h
      exact congrArg Scalar.number (Int.toNat_of_nonneg h)
  | truth b => cases b <;> rfl

namespace Plan

open Run

variable {names names' : Names} {subject subject' : Bitstring} {inner : List String}
  {base bound : List (String × Value)} {plan : FieldPlan}

/-! ## Fields and then a body -/

/-- Runs fields from a state on, and then a body: its value, or nothing if a field refuses. -/
def runOn (names : Names) (subject : Bitstring) (body : BodyPlan) (plans : List FieldPlan)
    (s : State) : Run (Option Value) :=
  runFields names subject s plans >>= fun
    | none => pure none
    | some s => body.run (names s.bound) >>= fun v => pure (some v)

lemma CasePlan.runWith_eq_runOn (plan : CasePlan) :
    plan.runWith names subject = runOn names subject plan.body plan.fields (.start subject) := by
  change (runFields names subject (.start subject) plan.fields >>= _) = _
  refine congrArg _ (funext fun s => ?_)
  cases s <;> rfl

/-- A run is cut at any boundary between fields. -/
lemma runOn_append {body : BodyPlan} {s : State} (before after : List FieldPlan) :
    runOn names subject body (before ++ after) s = (runFields names subject s before >>= fun
      | none => pure none
      | some s => runOn names subject body after s) := by
  unfold runOn
  rw [runFields_append, Run.bind_assoc]
  refine congrArg _ (funext fun s => ?_)
  cases s with
  | none => exact Run.pure_bind _ _
  | some s => rfl

/-! ## Values bound before -/

/-- A state with more values that were bound before all of its own. -/
def State.over (base : List (String × Value)) (s : State) : State :=
  { s with bound := s.bound ++ base }

/-- Names that stand for the same where some values were bound before, and without them, as long as
none but some inner names are bound since. -/
def Framed (inner : List String) (base : List (String × Value)) (names names' : Names) : Prop :=
  ∀ bound : List (String × Value), (∀ x ∈ bound.map Prod.fst, x ∈ inner) →
    names (bound ++ base) = names' bound

lemma bindLocals_append (bound base : List (String × Value)) (locals : List String) (v : Value) :
    bindLocals (bound ++ base) locals v = bindLocals bound locals v ++ base := by
  unfold bindLocals
  induction locals generalizing bound with
  | nil => rfl
  | cons x locals ih => exact ih ((x, v) :: bound)

/-- A value is accepted with the values that were bound before behind all others. -/
lemma FieldPlan.accept_framed (h : Framed inner base names names')
    (hlocals : ∀ x ∈ plan.locals, x ∈ inner) (hbound : ∀ x ∈ bound.map Prod.fst, x ∈ inner)
    (v : Value) :
    plan.accept names (bound ++ base) v =
      (plan.accept names' bound v >>= fun accepted => pure (accepted.map (· ++ base))) := by
  have hnames : ∀ w, names (bindLocals (bound ++ base) plan.locals w) =
      names' (bindLocals bound plan.locals w) := by
    intro w
    rw [bindLocals_append]
    refine h _ fun x hx => ?_
    rw [map_fst_bindLocals, List.mem_append, List.mem_reverse] at hx
    exact hx.elim (hlocals x) (hbound x)
  unfold FieldPlan.accept FieldPlan.replace FieldPlan.passes
  simp only [hnames, Run.bind_assoc, Run.pure_bind]
  refine congrArg _ (funext fun w => congrArg _ (funext fun passed => ?_))
  rw [bindLocals_append]
  cases passed <;> rfl

lemma FieldPlan.consume_framed (h : Framed inner base names names')
    (hlocals : ∀ x ∈ plan.locals, x ∈ inner) {s : State}
    (hbound : ∀ x ∈ s.bound.map Prod.fst, x ∈ inner) (data : Bytes) (width : Scalar) :
    plan.consume names data (s.over base) width =
      (plan.consume names' data s width >>= fun consumed => pure (consumed.map (· ++ base))) := by
  unfold FieldPlan.consume
  split
  · rw [Run.bind_assoc]
    have hnames : names (s.over base).bound = names' s.bound := h s.bound hbound
    rw [hnames]
    exact congrArg _ (funext fun v => FieldPlan.accept_framed h hlocals hbound v)
  · rfl

lemma FieldPlan.goOn_of_no_jump (hjump : plan.jump = none) (next : State) :
    plan.goOn names subject next = pure (some next) := by
  unfold FieldPlan.goOn
  rw [hjump]

/-- A field without a jump runs the same on any subject with the same buffer, with the values that
were bound before behind all others. -/
lemma FieldPlan.run_framed (h : Framed inner base names names')
    (hdata : subject.data = subject'.data) (hjump : plan.jump = none)
    (hlocals : ∀ x ∈ plan.locals, x ∈ inner) {s : State}
    (hbound : ∀ x ∈ s.bound.map Prod.fst, x ∈ inner) :
    plan.run names subject (s.over base) =
      (plan.run names' subject' s >>= fun next => pure (next.map (State.over base))) := by
  have hnames : names (s.over base).bound = names' s.bound := h s.bound hbound
  unfold FieldPlan.run
  rw [hnames, Run.bind_assoc]
  refine congrArg _ (funext fun width => ?_)
  cases width with
  | none => rfl
  | some width =>
      dsimp only
      rw [FieldPlan.consume_framed h hlocals hbound, hdata, Run.bind_assoc, Run.bind_assoc]
      refine congrArg _ (funext fun consumed => ?_)
      cases consumed with
      | none => rfl
      | some bound =>
          simp only [Run.pure_bind, Option.map_some, FieldPlan.goOn_of_no_jump hjump]
          rfl

/-- So do several fields. -/
lemma runFields_framed (h : Framed inner base names names')
    (hdata : subject.data = subject'.data) {plans : List FieldPlan}
    (hplans : ∀ plan ∈ plans, plan.Binds ∧ plan.jump = none ∧ ∀ x ∈ plan.locals, x ∈ inner)
    {s : State} (hbound : ∀ x ∈ s.bound.map Prod.fst, x ∈ inner) :
    runFields names subject (s.over base) plans =
      (runFields names' subject' s plans >>= fun last => pure (last.map (State.over base))) := by
  induction plans generalizing s with
  | nil => rfl
  | cons plan plans ih =>
      obtain ⟨⟨hbinds, hjump, hlocals⟩, hplans⟩ := List.forall_mem_cons.mp hplans
      rw [runFields_cons, runFields_cons,
        FieldPlan.run_framed h hdata hjump hlocals hbound, Run.bind_assoc, Run.bind_assoc]
      refine Run.bind_congr_of_ok fun next hnext => ?_
      cases next with
      | none => rfl
      | some next =>
          rw [Run.pure_bind]
          refine ih hplans fun x hx => ?_
          rw [FieldPlan.names_of_run hbinds hnext, FieldPlan.namesAfter, List.mem_append,
            List.mem_reverse] at hx
          exact hx.elim (hlocals x) (hbound x)

/-- **What is left of a run** is a run of its own, on any subject with the same buffer, if the
values that were bound before are looked up elsewhere. -/
lemma runOn_framed (h : Framed inner base names names') (hdata : subject.data = subject'.data)
    {plans : List FieldPlan}
    (hplans : ∀ plan ∈ plans, plan.Binds ∧ plan.jump = none ∧ ∀ x ∈ plan.locals, x ∈ inner)
    (body : BodyPlan) {s : State} (hbound : ∀ x ∈ s.bound.map Prod.fst, x ∈ inner) :
    runOn names subject body plans (s.over base) = runOn names' subject' body plans s := by
  unfold runOn
  rw [runFields_framed h hdata hplans hbound, Run.bind_assoc]
  refine Run.bind_congr_of_ok fun last hlast => ?_
  rw [Run.pure_bind]
  cases last with
  | none => rfl
  | some last =>
      have hnames : names (last.over base).bound = names' last.bound := by
        refine h last.bound fun x hx => ?_
        rw [names_of_runFields (fun plan hplan => (hplans plan hplan).1) hlast,
          mem_namesAfter] at hx
        refine hx.elim (hbound x) fun hx => ?_
        obtain ⟨plan, hplan, hx⟩ := List.mem_flatMap.mp hx
        exact (hplans plan hplan).2.2 x hx
      dsimp only [Option.map_some]
      rw [hnames]

/-! ## What is left of a subject -/

/-- The plan of a field that binds what is left of the subject to a name, and does nothing else. -/
structure FieldPlan.TakesRest (plan : FieldPlan) (x : String) : Prop where
  type : plan.type = .bitstring
  length : plan.length = .rest
  kept : plan.kept = true
  locals : plan.locals = [x]
  rebind : plan.rebind = none
  test : plan.test = none
  check : plan.check = none
  jump : plan.jump = none

/-- What is left of a subject is a bitstring of the same buffer, on which a run starts where the run
of the subject stands. -/
lemma State.Within.view {s : State} (h : s.Within subject) :
    ∃ b, Bitstring.view subject.data s.off s.len = .ok b ∧ b.data = subject.data ∧
      State.start b = { s with bound := [] } := by
  obtain ⟨horigin, hlen, hreach⟩ := h
  have hfits := subject.fits
  have hoff : 0 ≤ s.off := by omega
  have hrest : ¬s.len.toInt = -1 := by omega
  have hinside : (Scalar.number s.off).toNat + s.len.toNat ≤ subject.data.length * 8 := by
    simp only [Scalar.toNat, Scalar.toInt_number]
    omega
  unfold Bitstring.view
  simp only [hrest, if_false]
  rw [dif_pos ⟨hinside, hoff, hlen⟩]
  refine ⟨_, rfl, rfl, ?_⟩
  unfold State.start Bitstring.givenLength
  simp only [State.mk.injEq, and_true]
  exact ⟨Int.toNat_of_nonneg hoff, Scalar.ofNat_toNat hlen⟩

/-- A field that takes the rest binds a bitstring on which a run starts where the field does. -/
lemma FieldPlan.TakesRest.run {x : String} (h : plan.TakesRest x) {s : State}
    (hwithin : s.Within subject) :
    ∃ b last, b.data = subject.data ∧ State.start b = { s with bound := [] } ∧
      last.bound = (x, .bits b) :: s.bound ∧ plan.run names subject s = pure (some last) := by
  obtain ⟨b, hview, hdata, hstart⟩ := hwithin.view
  -- The width is all that is left, the bits are read as they are, and nothing checks them.
  have hwidth : plan.width (names s.bound) s.len = pure (some s.len) := by
    unfold FieldPlan.width
    rw [h.length, h.type]
    rfl
  have hread : plan.read (names s.bound) subject.data s.off s.len = pure (.bits b) := by
    unfold FieldPlan.read
    rw [h.type]
    dsimp only
    rw [hview]
    rfl
  have haccept : plan.accept names s.bound (.bits b) = pure (some ((x, .bits b) :: s.bound)) := by
    unfold FieldPlan.accept FieldPlan.replace FieldPlan.passes
    rw [h.rebind, h.locals, h.test, h.check]
    rfl
  have hreads : plan.reads = true := by
    unfold FieldPlan.reads
    rw [h.type, h.length]
    exact h.kept
  have hconsume : plan.consume names subject.data s s.len =
      pure (some ((x, .bits b) :: s.bound)) := by
    unfold FieldPlan.consume
    rw [if_pos hreads, hread, Run.pure_bind, haccept]
  refine ⟨b, s.past s.len ((x, .bits b) :: s.bound), hdata, hstart, rfl, ?_⟩
  unfold FieldPlan.run
  rw [hwidth, Run.pure_bind]
  dsimp only
  rw [hconsume, Run.pure_bind]
  exact FieldPlan.goOn_of_no_jump h.jump _

end Plan

end BitPattern
