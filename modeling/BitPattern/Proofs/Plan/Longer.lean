import BitPattern.Proofs.Plan.Alone
import BitPattern.Proofs.Plan.View

/-!
# Matching with more bits behind

A case that matches a subject matches every longer one that starts with the same bits, with a value
of the same content, unless a field takes all that is left.  A field does so if its length comes to
-1, whether that is known beforehand or found out in the run; `CasePlan.isSized` says of a run that
it meets no such length.

The proof goes through the front of the longer subject.  No run tells the front from the shorter
subject, since they have the same bits in view.  The front and the longer subject share a buffer and
an offset, so a run stands in the same places of both with the same values bound; it only has more
bits left in the longer one (`State.Longer`), and more bits left is all that a field or a jump could
object to (`FieldPlan.run_longer`, `runFields_longer`).
-/

namespace BitPattern.Plan

open Run

variable {names names' : Names} {subject subject' front longer : Bitstring} {extra : Nat}
  {plan : FieldPlan} {s s' next : State} {calls : List Call}

/-! ## Lengths that stand for all that is left -/

/-- Whether a length comes to -1 where names stand for some values. -/
def Length.asksRest (lookup : String → Except Fault Value) : Length → Bool
  | .fixed n => n == -1
  | .rest => true
  | .computed e =>
    match (e.eval lookup).result >>= Value.toScalar with
    | .ok n => n.toInt == -1
    | .error _ => false

lemma Length.asksRest_computed {e : Expr} {lookup : String → Except Fault Value} :
    (Length.computed e).asksRest lookup = true ↔
      ∃ v n, (e.eval lookup).result = .ok v ∧ v.toScalar = .ok n ∧ n.toInt = -1 := by
  dsimp only [asksRest]
  constructor
  · intro h
    split at h
    · rename_i n hn
      obtain ⟨v, hv, hn⟩ := result_bind_eq_ok.mp hn
      exact ⟨v, n, hv, hn, beq_iff_eq.mp h⟩
    · cases h
  · rintro ⟨v, n, hv, hn, hrest⟩
    rw [result_bind_eq_ok.mpr ⟨v, hv, hn⟩]
    exact beq_iff_eq.mpr hrest

/-- Whether no length comes to -1 in a run of fields, wherever it gets. -/
def sizedFrom (names : Names) (subject : Bitstring) (s : State) : List FieldPlan → Bool
  | [] => true
  | plan :: plans =>
    !plan.length.asksRest (names s.bound) &&
      match (plan.run names subject s).result with
      | .ok (some next) => sizedFrom names subject next plans
      | _ => true

lemma sizedFrom_cons {plans : List FieldPlan} :
    sizedFrom names subject s (plan :: plans) = true ↔
      plan.length.asksRest (names s.bound) = false ∧
        ∀ next, (plan.run names subject s).result = .ok (some next) →
          sizedFrom names subject next plans = true := by
  rw [sizedFrom, Bool.and_eq_true, Bool.not_eq_true']
  refine and_congr_right fun _ => ?_
  cases hrun : (plan.run names subject s).result with
  | error f => simp
  | ok found =>
      cases found with
      | none => simp
      | some next =>
          simp only [Except.ok.injEq, Option.some.injEq]
          exact ⟨fun h _ hnext => hnext ▸ h, fun h => h _ rfl⟩

/-- Whether no length comes to -1 in a run of a case. -/
def CasePlan.isSized (plan : CasePlan) (globals : List (String × Value)) (subject : Bitstring) :
    Bool :=
  sizedFrom (Frame.lookup ⟨plan.locals, globals⟩) subject (.start subject) plan.fields

/-! ## The same place with more bits left -/

/-- The same state, with more bits left. -/
structure State.Longer (extra : Nat) (s s' : State) : Prop where
  off : s'.off = s.off
  len : s'.len.toInt = s.len.toInt + extra
  bound : s'.bound = s.bound

/-- A view that starts at the same bit of the same buffer and goes on for longer. -/
structure Continues (extra : Nat) (front longer : Bitstring) : Prop where
  data : longer.data = front.data
  offset : longer.offset = front.offset
  length : longer.length = front.length + extra

lemma Continues.start (h : Continues extra front longer) :
    State.Longer extra (.start front) (.start longer) := by
  refine ⟨congrArg Int.ofNat h.offset, ?_, rfl⟩
  have hgiven : ∀ b : Bitstring, b.givenLength.toInt = b.length := fun b =>
    Scalar.toInt_ofNat b.length_le_one
  simp only [State.start, hgiven, h.length]
  push_cast
  rfl

lemma State.Longer.past (h : State.Longer extra s s') (width : Scalar)
    (bound : List (String × Value)) :
    State.Longer extra (s.past width bound) (s'.past width bound) := by
  obtain ⟨hoff, hlen, -⟩ := h
  refine ⟨?_, ?_, rfl⟩ <;> simp only [State.past, Scalar.toInt_number] <;> omega

/-- A number of bits that is fit stays so if more bits are left. -/
lemma fit_longer {type : FieldType} {n len len' width : Scalar} (hrest : n.toInt ≠ -1)
    (hlen : len.toInt ≤ len'.toInt) (h : fit type n len = some width) :
    fit type n len' = some width := by
  cases type with
  | int =>
      simp only [fit] at h ⊢
      split at h
      · cases h
      · rename_i hbad
        simp only [Bool.or_eq_true, decide_eq_true_eq, not_or] at hbad
        rw [if_neg (by simp; omega), ← h]
  | string =>
      simp only [fit, if_neg hrest] at h ⊢
      split at h
      · cases h
      · rename_i hbad
        simp only [Bool.or_eq_true, decide_eq_true_eq, bne_iff_ne, not_or, not_not] at hbad
        rw [if_neg (by simp; omega), ← h]
  | bitstring =>
      simp only [fit, if_neg hrest] at h ⊢
      split at h
      · cases h
      · rename_i hbad
        simp only [Bool.or_eq_true, decide_eq_true_eq, not_or] at hbad
        rw [if_neg (by simp; omega), ← h]

/-- A width that is found is found again if more bits are left. -/
lemma FieldPlan.width_longer {lookup : String → Except Fault Value}
    (hrest : plan.length.asksRest lookup = false) {len len' width : Scalar}
    (hlen : len.toInt ≤ len'.toInt) (h : plan.width lookup len = ⟨calls, .ok (some width)⟩) :
    plan.width lookup len' = ⟨calls, .ok (some width)⟩ := by
  unfold FieldPlan.width at h ⊢
  cases hlength : plan.length with
  | fixed n =>
      simp only [hlength] at h ⊢
      by_cases hshort : len.toInt < n
      · rw [if_pos hshort] at h
        cases h
      · rw [if_neg hshort] at h
        rw [if_neg (by omega), h]
  | rest =>
      rw [hlength] at hrest
      cases hrest
  | computed e =>
      simp only [hlength] at h ⊢
      obtain ⟨v, before, after, heval, hscalar, hcalls⟩ := Run.bind_eq_mk.mp h
      obtain ⟨n, between, last, hn, hfit, hafter⟩ := Run.bind_eq_mk.mp hscalar
      -- Only a length of -1 looks at how much is left.
      have hne : n.toInt ≠ -1 := fun hminus => by
        rw [hlength, Length.asksRest_computed.mpr
          ⟨v, n, congrArg Run.result heval, congrArg Run.result hn, hminus⟩] at hrest
        cases hrest
      have hwidth : fit plan.type n len = some width := Except.ok.inj (congrArg Run.result hfit)
      refine Run.bind_eq_mk.mpr ⟨v, before, after, heval, Run.bind_eq_mk.mpr
        ⟨n, between, last, hn, ?_, hafter⟩, hcalls⟩
      rw [fit_longer hne hlen hwidth, ← hfit, hwidth]

/-! ## Runs -/

/-- A jump that is taken is taken if more bits follow the subject. -/
lemma jumpTo_longer (hcontinues : Continues extra front longer) (hs : State.Longer extra s s')
    {e : Expr} (h : jumpTo names front e s = ⟨calls, .ok (some next)⟩) :
    ∃ next', jumpTo names longer e s' = ⟨calls, .ok (some next')⟩ ∧
      State.Longer extra next next' := by
  obtain ⟨-, hoffset, hlength⟩ := hcontinues
  unfold jumpTo at h ⊢
  obtain ⟨v, before, after, heval, hnumber, hcalls⟩ := Run.bind_eq_mk.mp h
  obtain ⟨n, between, last, hn, hjump, hafter⟩ := Run.bind_eq_mk.mp hnumber
  dsimp only at hjump
  split at hjump
  · cases hjump
  · rename_i hinside
    simp only [Bool.or_eq_true, decide_eq_true_eq, not_or] at hinside
    have hlast : last = [] := (congrArg Run.calls hjump).symm
    cases Option.some.inj (Except.ok.inj (congrArg Run.result hjump))
    refine ⟨⟨longer.offset + n, .number (longer.offset + longer.length - (longer.offset + n)),
      s'.bound⟩, Run.bind_eq_mk.mpr ⟨v, before, after, by rw [hs.bound, heval],
      Run.bind_eq_mk.mpr ⟨n, between, last, hn, ?_, hafter⟩, hcalls⟩, ?_⟩
    · dsimp only
      rw [if_neg (by simp; omega), hlast]
      rfl
    · refine ⟨?_, ?_, hs.bound⟩ <;> simp only [Scalar.toInt_number] <;> omega

/-- **A step.** A field that accepts accepts with more bits left, after the same calls. -/
lemma FieldPlan.run_longer (hcontinues : Continues extra front longer)
    (hs : State.Longer extra s s') (hrest : plan.length.asksRest (names s.bound) = false)
    (h : plan.run names front s = ⟨calls, .ok (some next)⟩) :
    ∃ next', plan.run names longer s' = ⟨calls, .ok (some next')⟩ ∧
      State.Longer extra next next' := by
  obtain ⟨hoff, hlen, hbound⟩ := hs
  unfold FieldPlan.run at h ⊢
  obtain ⟨found, before, after, hwidth, h, rfl⟩ := Run.bind_eq_mk.mp h
  cases found with
  | none => cases h
  | some width =>
      obtain ⟨found, between, last, hconsume, h, rfl⟩ := Run.bind_eq_mk.mp h
      cases found with
      | none => cases h
      | some bound =>
          -- There is at least as much left, and what is read lies in the bits that both have.
          have hroom : s.len.toInt ≤ s'.len.toInt := by omega
          have hwidth' := FieldPlan.width_longer hrest hroom hwidth
          have hconsume' :
              plan.consume names longer.data s' width = ⟨between, .ok (some bound)⟩ := by
            rw [← hconsume, hcontinues.data]
            unfold FieldPlan.consume
            rw [hbound, hoff]
          have hnext : ∃ next', plan.goOn names longer (s'.past width bound) =
              ⟨last, .ok (some next')⟩ ∧ State.Longer extra next next' := by
            have hpast := State.Longer.past ⟨hoff, hlen, hbound⟩ width bound
            unfold FieldPlan.goOn at h ⊢
            cases hjump : plan.jump with
            | none =>
                simp only [hjump] at h ⊢
                cases h
                exact ⟨_, rfl, hpast⟩
            | some e =>
                simp only [hjump] at h ⊢
                exact jumpTo_longer hcontinues hpast h
          obtain ⟨next', hgoOn, hlonger⟩ := hnext
          rw [hbound]
          exact ⟨next', Run.bind_eq_mk.mpr ⟨_, before, _, hwidth', Run.bind_eq_mk.mpr
            ⟨_, between, last, hconsume', hgoOn, rfl⟩, rfl⟩, hlonger⟩

/-- A run of fields that gets to its end gets there with more bits left, after the same calls. -/
lemma runFields_longer (hcontinues : Continues extra front longer) {plans : List FieldPlan}
    {last : State} (hs : State.Longer extra s s') (hsized : sizedFrom names front s plans = true)
    (h : runFields names front s plans = ⟨calls, .ok (some last)⟩) :
    ∃ last', runFields names longer s' plans = ⟨calls, .ok (some last')⟩ ∧
      State.Longer extra last last' := by
  induction plans generalizing s s' calls with
  | nil =>
      cases h
      exact ⟨s', rfl, hs⟩
  | cons plan plans ih =>
      obtain ⟨hrest, hsized⟩ := sizedFrom_cons.mp hsized
      rw [runFields_cons] at h ⊢
      obtain ⟨found, before, after, hrun, h, rfl⟩ := Run.bind_eq_mk.mp h
      cases found with
      | none => cases h
      | some next =>
          obtain ⟨next', hrun', hnext⟩ := FieldPlan.run_longer hcontinues hs hrest hrun
          obtain ⟨last', hlast', hlonger⟩ :=
            ih hnext (hsized next (congrArg Run.result hrun)) h
          exact ⟨last', Run.bind_eq_mk.mpr ⟨_, before, after, hrun', hlast', rfl⟩, hlonger⟩

/-- A case that matches a view matches one that goes on for longer, with the same value. -/
lemma CasePlan.runWith_longer {plan : CasePlan} (hcontinues : Continues extra front longer)
    (hsized : sizedFrom names front (.start front) plan.fields = true) {v : Value}
    (h : plan.runWith names front = ⟨calls, .ok (some v)⟩) :
    plan.runWith names longer = ⟨calls, .ok (some v)⟩ := by
  rw [CasePlan.runWith_eq_runOn, runOn] at h ⊢
  obtain ⟨found, before, after, hfields, h, rfl⟩ := Run.bind_eq_mk.mp h
  cases found with
  | none => cases h
  | some last =>
      obtain ⟨last', hlast', -, -, hbound⟩ :=
        runFields_longer hcontinues hcontinues.start hsized hfields
      exact Run.bind_eq_mk.mpr ⟨_, before, after, hlast', by rw [← h]; simp only [hbound], rfl⟩

/-! ## The front of a subject -/

/-- The front of a subject, as long as another one with the bits of which it starts. -/
lemma exists_front {more : List Bool} (h : longer.bits = subject.bits ++ more) :
    ∃ front extra, Continues extra front longer ∧ front.bits = subject.bits := by
  have hlength : longer.length = subject.length + more.length := by
    rw [← longer.length_bits, h, List.length_append, subject.length_bits]
  have hfits := longer.fits
  let front : Bitstring :=
    { data := longer.data, offset := longer.offset, length := subject.length, fits := by omega }
  refine ⟨front, more.length, ⟨rfl, rfl, hlength⟩, ?_⟩
  calc
    front.bits = longer.bits.take subject.length := by
      rw [Bitstring.bits, Bitstring.bits, List.take_take]
      congr 1
      change subject.length = min subject.length longer.length
      omega
    _ = subject.bits := by
      rw [h, List.take_append_of_le_length (by simp), List.take_of_length_le (by simp)]

/-- A length that comes to -1 does so wherever the names stand for values of the same content. -/
lemma Length.asksRest_alike {frame : Frame} {length : Length} {bound bound' : List (String × Value)}
    (hbound : Likeness.content.Bound id bound bound')
    (h : length.asksRest (frame.lookup bound') = true) :
    length.asksRest (frame.lookup bound) = true := by
  cases length with
  | fixed n => exact h
  | rest => exact h
  | computed e =>
      obtain ⟨w, n, hw, hn, hrest⟩ := asksRest_computed.mp h
      have heval := exprsAlike_self frame (bound.map Prod.fst) e bound bound' rfl hbound
      obtain ⟨v, hv, hvalue⟩ := heval.result.ok_left hw
      obtain ⟨m, hm, hsame⟩ := (Likeness.content.toScalar hvalue).ok_left hn
      exact asksRest_computed.mpr
        ⟨v, m, hv, hm, (Likeness.content.toInt_eq hsame).trans hrest⟩

/-- Runs through the same bits meet the same lengths. -/
lemma sizedFrom_alike {frame : Frame} (hbits : subject.bits = subject'.bits)
    {plans : List FieldPlan} (hplans : ∀ plan ∈ plans, plan.Measured ∧ plan.Binds)
    (hs : Likeness.content.States id subject subject' s s') (hwithin : s.Within subject)
    (hwithin' : s'.Within subject') (h : sizedFrom frame.lookup subject s plans = true) :
    sizedFrom frame.lookup subject' s' plans = true := by
  induction plans generalizing s s' with
  | nil => rfl
  | cons plan plans ih =>
      obtain ⟨hrest, hsized⟩ := sizedFrom_cons.mp h
      obtain ⟨⟨hmeasured, hbinds⟩, hplans⟩ := List.forall_mem_cons.mp hplans
      refine sizedFrom_cons.mpr ⟨?_, fun next' hnext' => ?_⟩
      · refine Bool.eq_false_iff.mpr fun hasks => ?_
        rw [Length.asksRest_alike hs.bound hasks] at hrest
        cases hrest
      · have hrun := FieldPlan.run_alike hmeasured (FieldPlan.alike_self frame _ plan) hbinds hs
          (subjects_content hbits) hwithin hwithin'
        obtain ⟨found, hnext, hnexts⟩ := hrun.result.ok_left hnext'
        cases hnexts with
        | @some next _ hnexts =>
            exact ih hplans hnexts (FieldPlan.run_within hmeasured hwithin hnext)
              (FieldPlan.run_within hmeasured hwithin' hnext') (hsized next hnext)

/-- Runs through the same bits start alike. -/
lemma start_alike (hbits : subject.bits = subject'.bits) :
    Likeness.content.States id subject subject' (.start subject) (.start subject') :=
  ⟨by simp [State.start], (subjects_content hbits).len, .nil⟩

/-! ## Matchers -/

/-- **More input never breaks a match.** If the matcher of a case with an expression for a body
matches a subject, in a run in which no length comes to -1, it matches every subject that has more
bits behind the same ones, with a value of the same content and after the same calls. -/
theorem tryMatch_longer {config : Config} {env : List (String × Value)} {c : Case} {m : Matcher}
    (hm : Matcher.ofCases config env [c] = .ok m) (hbody : ∃ e, c.body = .expr e)
    {v v' : Value} {more : Bitstring} (hv : v.subject = .ok subject)
    (hv' : v'.subject = .ok longer) (hbits : longer.bits = subject.bits ++ more.bits) {w : Value}
    (hmatch : m.tryMatch v = ⟨calls, .ok ⟨some (0, w)⟩⟩)
    (hsized : ∀ plan ∈ m.plans, plan.isSized m.globals subject = true) :
    ∃ calls' w', m.tryMatch v' = ⟨calls', .ok ⟨some (0, w')⟩⟩ ∧ w.content = w'.content ∧
      List.Forall₂ Likeness.content.call calls calls' := by
  obtain ⟨front, extra, hcontinues, hfront⟩ := exists_front hbits
  obtain ⟨_, -, hm⟩ := result_bind_eq_ok.mp hm
  obtain ⟨-, hplans, -, -⟩ := Matcher.ofNumbered_eq_ok hm
  -- The matcher has the plan of the one case and no other.
  obtain ⟨plan, hsingle, hplan⟩ : ∃ plan, m.plans = [plan] ∧
      planCase (Matcher.context config env) { c with index := (0 : Nat) } = .ok plan := by
    generalize m.plans = plans at hplans
    cases hplans with
    | cons hplan hnil =>
        cases hnil
        exact ⟨_, rfl, hplan⟩
  have hmem : plan ∈ m.plans := by simp [hsingle]
  have hmeasured := measured_of_mem hm hmem
  obtain ⟨b, hb, hrun⟩ := (tryMatch_alone hsingle).mp hmatch
  cases hv.symm.trans hb
  obtain ⟨e, he⟩ := hbody
  obtain ⟨scope, -, hplanned, -, -⟩ := planCase_eq_ok hplan
  obtain ⟨e', -, hplanned⟩ := planBody_expr_eq_ok.mp (he ▸ hplanned)
  -- The front runs like the shorter subject.
  have halike : Likeness.content.Runs (Option.Rel Likeness.content.value)
      (plan.run m.globals subject) (plan.run m.globals front) := by
    refine CasePlan.runWith_alike (fieldsAlike_self _ _ _) hmeasured (subjects_content hfront.symm)
      fun bound bound' _ hbound => ?_
    rw [hplanned]
    exact exprsAlike_self _ (bound.map Prod.fst) e' bound bound' rfl hbound
  have hsizedFront : plan.isSized m.globals front = true :=
    sizedFrom_alike hfront.symm hmeasured (start_alike hfront.symm) (State.start_within subject)
      (State.start_within front) (hsized plan hmem)
  obtain ⟨found, hfound, hvalue⟩ := halike.result.ok_right (congrArg Run.result hrun)
  cases hvalue with
  | @some _ w' hvalue =>
      refine ⟨_, w', (tryMatch_alone hsingle).mpr ⟨longer, hv',
        CasePlan.runWith_longer hcontinues hsizedFront (Run.ext rfl hfound)⟩, hvalue, ?_⟩
      have hcalls := halike.calls
      rwa [hrun] at hcalls

/-- A number, then a number of as many bits from the middle of the first one on, and then half as
many bits. -/
def overlappingCase : Case where
  fieldsText := "n:8:set_offset_at(4); m:n:bind(m + 1), check(m < 199), endian(order); " ++
    "half:n / 2:bitstring"
  fields := [
    ⟨.var "n", some (.int 8), some { Spec.default with offset := some (.int 4) },
      "n:8:set_offset_at(4)"⟩,
    ⟨.var "m", some (.name "n"),
      some { Spec.default with
        endian := some (.computed (.name "order"))
        bind := some (.binary .add (.name "m") (.int 1))
        check := some (.binary .lt (.name "m") (.int 199)) },
      "m:n:bind(m + 1), check(m < 199), endian(order)"⟩,
    ⟨.var "half", some (.binary .div (.name "n") (.int 2)), some { valueType := some .bitstring },
      "half:n / 2:bitstring"⟩]
  body := .expr (.tuple [.name "m", .name "half"])
  index := 0

/-- Sixteen bits are matched, and so is a view from bit three on of a buffer that shows them with
five more behind. -/
theorem tryMatch_longer_overlapping :
    ∃ m w, Matcher.ofCases {} [("order", .endian .little)] [overlappingCase] = .ok m ∧
      m.tryMatch (.bytes .constant [0x08, 0x05]) = ⟨[], .ok ⟨some (0, w)⟩⟩ ∧
      (∀ plan ∈ m.plans, plan.isSized m.globals (.ofBytes [0x08, 0x05]) = true) ∧
      ∃ calls' w', m.tryMatch (.tuple [.bytes .mutable [0x01, 0x00, 0xbf], .int 3, .int 21]) =
          ⟨calls', .ok ⟨some (0, w')⟩⟩ ∧ w.content = w'.content ∧
        List.Forall₂ Likeness.content.call [] calls' := by
  obtain ⟨m, hm, -, ⟨w, hmatch⟩, hsized⟩ : ∃ m,
      Matcher.ofCases {} [("order", .endian .little)] [overlappingCase] = .ok m ∧
        m.cases = Matcher.renumber 0 [overlappingCase] ∧
        (∃ w, m.tryMatch (.bytes .constant [0x08, 0x05]) = ⟨[], .ok ⟨some (0, w)⟩⟩) ∧
        ∀ plan ∈ m.plans, plan.isSized m.globals (.ofBytes [0x08, 0x05]) = true := by
    refine exists_ofCases rfl (by decide) rfl (by decide) ?_
    rintro ⟨config, cases, plans, globals⟩ rfl rfl
    exact ⟨⟨_, rfl⟩, List.all_eq_true.mp rfl⟩
  obtain ⟨longer, hlonger, hbits⟩ : ∃ longer,
      (Value.tuple [.bytes .mutable [0x01, 0x00, 0xbf], .int 3, .int 21]).subject = .ok longer ∧
        longer.bits = (Bitstring.ofBytes [0x08, 0x05]).bits ++
          (Bitstring.front [0xff] 5 (by decide)).bits := ⟨_, rfl, by decide⟩
  exact ⟨m, w, hm, hmatch, hsized,
    tryMatch_longer hm ⟨_, rfl⟩ rfl hlonger hbits hmatch hsized⟩

end BitPattern.Plan
