import BitPattern.Proofs.Bits.Window
import BitPattern.Proofs.Plan.Loadable

/-!
# Where a run stands in its subject

A run carries an offset and a number of bits left.  `State.Within` is the invariant that ties the
two to the subject: the offset is not before the subject, the number is not negative, and together
they reach exactly the end of the subject.  A field keeps it (`FieldPlan.run_within`), whatever its
length evaluates to and wherever it jumps, so it holds at every boundary between fields
(`runFields_within`).

What a field reads is a window from the offset on that is no wider than what is left
(`FieldPlan.width_measures`), so inside the invariant every reading fits the subject and succeeds
(`FieldPlan.read_eq_error`).  The length -1, which a view would take for the rest of the buffer,
never reaches it.  `boundary_within` puts the two together for the plans of any matcher.
-/

namespace BitPattern

/-- A fault other than that of a bit range that leaves its extent. -/
def Fault.Inside (f : Fault) : Prop :=
  ∀ low high size extent, f ≠ .outside low high size extent

lemma Fault.ofValues.inside {f : Fault} (h : f.ofValues) : f.Inside := by
  rintro low high size extent rfl
  exact h

namespace Plan

open BitPattern.Bits

variable {names : Names} {subject : Bitstring} {plan : FieldPlan} {s next : State}

/-! ## The invariant -/

/-- The bits that are left reach from the offset to the end of the subject. -/
structure State.Within (subject : Bitstring) (s : State) : Prop where
  origin_le : subject.offset ≤ s.off
  len_nonneg : 0 ≤ s.len.toInt
  reach : s.off + s.len.toInt = subject.offset + subject.length

lemma State.start_within (subject : Bitstring) : (State.start subject).Within subject := by
  have hlen : subject.givenLength.toInt = subject.length :=
    Scalar.toInt_ofNat subject.length_le_one
  refine ⟨le_refl _, ?_, ?_⟩
  · simp [State.start, hlen]
  · simp [State.start, hlen]

/-! ## Widths -/

/-- What planning guarantees of a length: a fixed one obeys the rule of the type and is not -1, and
an integer never takes the rest of the subject. -/
def FieldPlan.Measured (plan : FieldPlan) : Prop :=
  match plan.length with
  | .fixed n => plan.type.admits n = true ∧ n ≠ -1
  | .rest => plan.type ≠ .int
  | .computed _ => True

lemma Planned.measured {ctx : Context} {scope : Scope} {field : Field} {length : Expr} {spec : Spec}
    {type : FieldType} (h : Planned ctx scope field length spec type plan) : plan.Measured := by
  have hlength := h.length_eq
  unfold planLength at hlength
  cases hfold : length.fold? with
  | none =>
      rw [hfold] at hlength
      obtain ⟨e, -, he⟩ := result_bind_eq_ok.mp hlength
      have hcomputed : plan.length = .computed e := (Except.ok.inj he).symm
      simp [FieldPlan.Measured, hcomputed]
  | some n =>
      have hadmits := h.admits n hfold
      simp only [hfold, Except.ok.injEq] at hlength
      unfold FieldPlan.Measured
      rw [← hlength, h.type_eq]
      by_cases hrest : n = -1
      · subst hrest
        rintro rfl
        simp [FieldType.admits] at hadmits
      · rw [if_neg hrest]
        exact ⟨hadmits, hrest⟩

/-- A width that a field of a type can read from so many bits. -/
structure Measures (type : FieldType) (len width : Scalar) : Prop where
  nonneg : 0 ≤ width.toInt
  le_len : width.toInt ≤ len.toInt
  pos_of_int : type = .int → 1 ≤ width.toInt

lemma fit_measures {type : FieldType} {n len width : Scalar} (h : fit type n len = some width) :
    Measures type len width ∧ (type = .string → width.toInt % 8 = 0) := by
  cases type with
  | int =>
      simp only [fit] at h
      split at h
      · cases h
      · rename_i hbad
        simp only [Bool.or_eq_true, decide_eq_true_eq, not_or] at hbad
        cases h
        exact ⟨⟨by omega, by omega, fun _ => by omega⟩, nofun⟩
  | string =>
      simp only [fit] at h
      generalize (if n.toInt = -1 then len else n) = n at h
      split at h
      · cases h
      · rename_i hbad
        simp only [Bool.or_eq_true, decide_eq_true_eq, bne_iff_ne, not_or, not_not] at hbad
        cases h
        exact ⟨⟨by omega, by omega, nofun⟩, fun _ => hbad.1.2⟩
  | bitstring =>
      simp only [fit] at h
      generalize (if n.toInt = -1 then len else n) = n at h
      split at h
      · cases h
      · rename_i hbad
        simp only [Bool.or_eq_true, decide_eq_true_eq, not_or] at hbad
        cases h
        exact ⟨⟨by omega, by omega, nofun⟩, nofun⟩

lemma FieldType.admits_measures {type : FieldType} {n : Int} (h : type.admits n = true)
    (hrest : n ≠ -1) :
    0 ≤ n ∧ (type = .int → 1 ≤ n) ∧ (type = .string → n % 8 = 0) := by
  cases type <;> simp [FieldType.admits] at h ⊢ <;> omega

/-- The width of a field is one that the bits left can hold, and a string that is read has whole
bytes. -/
lemma FieldPlan.width_measures (hplan : plan.Measured) {lookup : String → Except Fault Value}
    {len width : Scalar} (hlen : 0 ≤ len.toInt)
    (h : (plan.width lookup len).result = .ok (some width)) :
    Measures plan.type len width ∧
      (plan.reads = true → plan.type = .string → width.toInt % 8 = 0) := by
  -- A number, the rest, or an expression that is evaluated on the run.
  unfold FieldPlan.width at h
  unfold FieldPlan.Measured at hplan
  split at h
  · rename_i n hn
    obtain ⟨hadmits, hrest⟩ := hn ▸ hplan
    obtain ⟨hnonneg, hpos, hwhole⟩ := FieldType.admits_measures hadmits hrest
    simp only [Run.result_pure, Except.ok.injEq] at h
    split at h
    · cases h
    · cases h
      exact ⟨⟨hnonneg, by simpa using ‹¬len.toInt < n›, hpos⟩, fun _ => hwhole⟩
  · rename_i hn
    have hint : plan.type ≠ .int := by simpa [hn] using hplan
    simp only [Run.result_pure, Except.ok.injEq] at h
    split at h
    · cases h
    · rename_i hwhole
      cases h
      refine ⟨⟨hlen, le_refl _, fun htype => absurd htype hint⟩, fun hreads htype => ?_⟩
      have hkept : plan.kept = true := by simpa [FieldPlan.reads, hn, htype] using hreads
      simpa [hkept, htype] using hwhole
  · obtain ⟨v, -, h⟩ := Run.bind_eq_ok.mp h
    obtain ⟨n, -, h⟩ := Run.bind_eq_ok.mp h
    obtain ⟨hmeasures, hwhole⟩ := fit_measures (Except.ok.inj h)
    exact ⟨hmeasures, fun _ => hwhole⟩

/-! ## Steps -/

lemma State.past_within (h : s.Within subject) {width : Scalar} {bound : List (String × Value)}
    (hnonneg : 0 ≤ width.toInt) (hle : width.toInt ≤ s.len.toInt) :
    (s.past width bound).Within subject := by
  obtain ⟨horigin, hlen, hreach⟩ := h
  refine ⟨?_, ?_, ?_⟩ <;> simp only [State.past, Scalar.toInt_number] <;> omega

lemma FieldPlan.goOn_within (h : s.Within subject)
    (hnext : (plan.goOn names subject s).result = .ok (some next)) : next.Within subject := by
  unfold FieldPlan.goOn at hnext
  split at hnext
  · cases hnext
    exact h
  · obtain ⟨off, hlow, hhigh, rfl⟩ := jumpTo_eq_some hnext
    refine ⟨hlow, ?_, ?_⟩ <;> simp only [Scalar.toInt_number] <;> omega

/-- A field that accepts keeps the invariant, whatever its length and its jump evaluate to. -/
lemma FieldPlan.run_within (hplan : plan.Measured) (h : s.Within subject)
    (hrun : (plan.run names subject s).result = .ok (some next)) : next.Within subject := by
  obtain ⟨width, bound, hwidth, -, hnext⟩ := FieldPlan.run_eq_some.mp hrun
  obtain ⟨⟨hnonneg, hle, -⟩, -⟩ := FieldPlan.width_measures hplan h.len_nonneg hwidth
  exact FieldPlan.goOn_within (State.past_within h hnonneg hle) hnext

lemma runFields_within {plans : List FieldPlan} (hplans : ∀ plan ∈ plans, plan.Measured)
    (h : s.Within subject) (hrun : (runFields names subject s plans).result = .ok (some next)) :
    next.Within subject := by
  induction plans generalizing s with
  | nil =>
      cases hrun
      exact h
  | cons plan plans ih =>
      obtain ⟨middle, hmiddle, hrest⟩ := runFields_cons_eq_some.mp hrun
      have hwithin := FieldPlan.run_within (hplans plan List.mem_cons_self) h hmiddle
      exact ih (fun p hp => hplans p (List.mem_cons_of_mem _ hp)) hwithin hrest

/-! ## Readings -/

/-- A field whose width is known reads bits of the subject only, never -1 of them. -/
structure FieldPlan.ReadsWithin (plan : FieldPlan) (subject : Bitstring) (s : State)
    (width : Scalar) : Prop where
  origin_le : subject.offset ≤ s.off
  width_nonneg : 0 ≤ width.toInt
  stop_le : s.off + width.toInt ≤ subject.offset + subject.length
  pos_of_int : plan.type = .int → 1 ≤ width.toInt
  whole_of_string : plan.type = .string → width.toInt % 8 = 0

lemma FieldPlan.readsWithin (hplan : plan.Measured) (h : s.Within subject)
    {lookup : String → Except Fault Value} {width : Scalar}
    (hwidth : (plan.width lookup s.len).result = .ok (some width)) (hreads : plan.reads = true) :
    plan.ReadsWithin subject s width := by
  obtain ⟨⟨hnonneg, hle, hpos⟩, hwhole⟩ := FieldPlan.width_measures hplan h.len_nonneg hwidth
  obtain ⟨horigin, -, hreach⟩ := h
  exact ⟨horigin, hnonneg, by omega, hpos, hwhole hreads⟩

lemma FieldPlan.ReadsWithin.fits {width : Scalar} (h : plan.ReadsWithin subject s width) :
    Fits subject.data s.off width.toInt := by
  have hfits := subject.fits
  obtain ⟨horigin, hnonneg, hstop, -, -⟩ := h
  exact ⟨by omega, hnonneg, by omega⟩

/-- Inside the subject a reading succeeds: only the byte order of an integer can still fail. -/
lemma FieldPlan.read_eq_error {width : Scalar} (h : plan.ReadsWithin subject s width)
    {lookup : String → Except Fault Value} {f : Fault}
    (hread : (plan.read lookup subject.data s.off width).result = .error f) :
    plan.type = .int ∧ (plan.order.eval lookup).result = .error f := by
  have hbits : ∀ order,
      readBits plan.type plan.signed subject.data s.off width order ≠ .error f := by
    intro order herror
    obtain ⟨v, hv, -⟩ :=
      @readBits_content plan.type plan.signed _ _ _ order h.fits h.whole_of_string
    rw [hv] at herror
    cases herror
  rw [FieldPlan.read_eq] at hread
  split at hread
  · rename_i htype
    rcases Run.bind_eq_error.mp hread with horder | ⟨order, -, hread⟩
    · exact ⟨htype, horder⟩
    · exact absurd hread (hbits order)
  · exact absurd hread (hbits .big)

/-! ## Runs of fields -/

/-- Looking up a name never leaves a buffer. -/
def Names.Inside (names : Names) : Prop :=
  ∀ bound x f, names bound x = .error f → f.Inside

lemma Frame.lookup_inside (frame : Frame) : frame.lookup.Inside := by
  intro bound x f h
  unfold Frame.lookup at h
  split at h
  · cases h
  · split at h
    · cases h
    · rintro low high size extent rfl
      cases h

lemma usesFault_inside (hnames : names.Inside) (uses : List (List String × Expr)) :
    UsesFault Fault.Inside names uses := fun _ _ bound _ =>
  Expr.eval_faults (fun _ => Fault.ofValues.inside) fun x _ f => hnames bound x f

lemma Order.eval_inside (hnames : names.Inside) (order : Order) (bound : List (String × Value)) :
    (order.eval (names bound)).Faults Fault.Inside :=
  Order.eval_faults (fun _ => Fault.ofValues.inside) fun e _ _ =>
    usesFault_inside hnames [(bound.map Prod.fst, e)] _ (List.mem_singleton.mpr rfl) bound rfl

/-- No field leaves the buffer, and neither does a run of fields: the invariant holds where the next
one starts. -/
lemma runFields_inside (hnames : names.Inside) {plans : List FieldPlan}
    (hplans : ∀ plan ∈ plans, plan.Measured ∧ plan.Binds) (h : s.Within subject) :
    (runFields names subject s plans).Faults Fault.Inside := by
  induction plans generalizing s with
  | nil => exact .pure _
  | cons plan plans ih =>
      obtain ⟨hmeasured, hbinds⟩ := hplans plan List.mem_cons_self
      rw [runFields_cons]
      refine .bind ?_ fun next hnext => ?_
      · refine FieldPlan.run_faults hbinds (fun _ => Fault.ofValues.inside)
          (usesFault_inside hnames _) fun width hwidth hreads f hf => ?_
        have hwithin := FieldPlan.readsWithin hmeasured h hwidth hreads
        exact Order.eval_inside hnames _ _ f (FieldPlan.read_eq_error hwithin hf).2
      · cases next with
        | none => exact .pure _
        | some next =>
            exact ih (fun p hp => hplans p (List.mem_cons_of_mem _ hp))
              (FieldPlan.run_within hmeasured h hnext)

/-! ## Matchers -/

/-- A field that reads no value has the wildcard for a pattern, which binds nothing. -/
lemma Planned.binds {ctx : Context} {scope : Scope} {field : Field} {length : Expr} {spec : Spec}
    {type : FieldType} (h : Planned ctx scope field length spec type plan) : plan.Binds := by
  intro hreads
  have hkept : plan.kept = false := by
    unfold FieldPlan.reads at hreads
    split at hreads <;> simp_all
  rw [h.kept_eq, isRead] at hkept
  have hwildcard : field.pattern = .wildcard := by simp_all
  rw [h.locals_eq, hwildcard]
  rfl

/-- Every field of a matcher was planned, so its length obeys the rule of its type. -/
lemma measured_of_mem {config : Config} {env : List (String × Value)} {cases : List Case}
    {m : Matcher} (hm : Matcher.ofNumbered config env cases = .ok m) {plan : CasePlan}
    (hplan : plan ∈ m.plans) :
    ∀ field ∈ plan.fields, field.Measured ∧ field.Binds := by
  intro field hfield
  obtain ⟨c, -, hc⟩ := Matcher.planCase_of_mem hm hplan
  obtain ⟨scope, hfields, -⟩ := planCase_eq_ok hc
  obtain ⟨f, -, before, after, hplanned⟩ := mem_planFields hfields hfield
  obtain ⟨length, spec, type, -, -, -, -, hplanned⟩ := planField_eq_ok hplanned
  exact ⟨hplanned.measured, hplanned.binds⟩

/-- What holds at the boundary between two lists of fields of a case, on a subject: a run up to it
never leaves the buffer; if the run gets there, the invariant holds; and the next field reads bits
of the subject only, and can fail in doing so only through its byte order. -/
structure BoundaryWithin (names : Names) (subject : Bitstring) (before after : List FieldPlan) :
    Prop where
  inside : (runFields names subject (.start subject) before).Faults Fault.Inside
  within : ∀ s, (runFields names subject (.start subject) before).result = .ok (some s) →
    s.Within subject
  reads : ∀ s, (runFields names subject (.start subject) before).result = .ok (some s) →
    ∀ field ∈ after.head?, ∀ width,
      (field.width (names s.bound) s.len).result = .ok (some width) → field.reads = true →
        field.ReadsWithin subject s width ∧
          ∀ f, (field.read (names s.bound) subject.data s.off width).result = .error f →
            field.type = .int ∧ (field.order.eval (names s.bound)).result = .error f ∧ f.Inside

/-- **The cursor invariant.** At every boundary between the fields of every case of every matcher,
on every subject, the offset and the bits left reach from inside the subject exactly to its end, and
all that is read lies in the subject. -/
theorem boundary_within {config : Config} {env : List (String × Value)} {cases : List Case}
    {m : Matcher} (hm : Matcher.ofNumbered config env cases = .ok m) {plan : CasePlan}
    (hplan : plan ∈ m.plans) {before after : List FieldPlan}
    (hfields : plan.fields = before ++ after) (subject : Bitstring) :
    BoundaryWithin (Frame.lookup ⟨plan.locals, m.globals⟩) subject before after := by
  have hnames : (Frame.lookup ⟨plan.locals, m.globals⟩).Inside := Frame.lookup_inside _
  have hplans : ∀ field ∈ before ++ after, field.Measured ∧ field.Binds := by
    rw [← hfields]
    exact measured_of_mem hm hplan
  have hbefore : ∀ field ∈ before, field.Measured ∧ field.Binds := fun field hfield =>
    hplans field (List.mem_append_left _ hfield)
  have hwithin : ∀ s, (runFields (Frame.lookup ⟨plan.locals, m.globals⟩) subject
      (.start subject) before).result = .ok (some s) → s.Within subject := fun s hs =>
    runFields_within (fun field hfield => (hbefore field hfield).1) (State.start_within subject) hs
  refine ⟨runFields_inside hnames hbefore (State.start_within subject), hwithin, ?_⟩
  intro s hs field hfield width hwidth hreads
  have hmem : field ∈ before ++ after :=
    List.mem_append_right _ (List.mem_of_mem_head? hfield)
  have hread := FieldPlan.readsWithin (hplans field hmem).1 (hwithin s hs) hwidth hreads
  refine ⟨hread, fun f hf => ?_⟩
  obtain ⟨hint, horder⟩ := FieldPlan.read_eq_error hread hf
  exact ⟨hint, horder, Order.eval_inside hnames _ _ f horder⟩

/-- A number and a bitstring of as many bits. -/
def countedCase : Case where
  fieldsText := "n:8, rest:n:bitstring"
  fields := [
    ⟨.var "n", some (.int 8), some .default, "n:8"⟩,
    ⟨.var "rest", some (.name "n"), some { valueType := some .bitstring }, "rest:n:bitstring"⟩]
  body := .expr (.name "rest")
  index := 0

/-- The bitstring of a counted case is read inside a subject that is two bits longer, from bit three
on of its buffer. -/
theorem boundary_within_counted :
    ∃ m plan, Matcher.ofNumbered {} [] [countedCase] = .ok m ∧ m.plans = [plan] ∧
      BoundaryWithin (Frame.lookup ⟨plan.locals, m.globals⟩)
        { data := [0x00, 0x9f, 0xff], offset := 3, length := 14, fits := by decide }
        (plan.fields.take 1) (plan.fields.drop 1) := by
  obtain ⟨plan, hplan, hlocals⟩ : ∃ plan, planCases (Matcher.context {} []) [countedCase] =
      .ok [plan] ∧ constantName ∉ plan.locals := ⟨_, rfl, by decide⟩
  have hm := Matcher.ofNumbered_singleton hplan (by simp)
    (by simp [countedCase, effectiveFields, Field.isRest]) hlocals
  exact ⟨_, plan, hm, rfl,
    boundary_within hm (List.mem_singleton.mpr rfl) (List.take_append_drop 1 _).symm _⟩

end Plan

end BitPattern
