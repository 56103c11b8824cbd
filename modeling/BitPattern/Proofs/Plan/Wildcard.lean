import BitPattern.Proofs.Plan.Binding

/-!
# Wildcards with a length

A wildcard with a length passes over bits that nothing else looks at.  A variable that the case does
not mention should do the same in its place, and almost always does: whatever the type, the length,
the check and the jump of the field, a case with the variable accepts the same subjects, has the
same value, and stands at the same place at every boundary between its fields
(`variable_for_wildcard`).

There is one exception.  A string that takes the rest of the subject is asked for whole bytes where
it is read, and a wildcard that nothing reads is not (`FieldPlan.SkipsRest`).  So with a part of a
byte left the variable refuses and the wildcard goes on; `wildcard_skips_part_of_byte` is a match
that comes about in this way.
-/

namespace BitPattern.Plan

open BitPattern.Text Run

variable {text : String} {names names' : Names} {subject : Bitstring}
variable {plan : FieldPlan} {s s' : State}

/-! ## Fields -/

lemma FieldPlan.reads_binding (plan : FieldPlan) (text x : String) :
    (plan.binding text x).reads = true := by
  unfold FieldPlan.reads FieldPlan.binding
  cases plan.type <;> cases plan.length <;> rfl

/-- A string that takes the rest of the subject and is not read. -/
structure FieldPlan.SkipsRest (plan : FieldPlan) : Prop where
  type : plan.type = .string
  length : plan.length = .rest
  kept : plan.kept = false

lemma FieldPlan.Skips.locals_agree {x : String} (h : plan.Skips) :
    LocalsAgree [x] plan.locals [x] := by
  intro y hy
  rw [h.locals]
  exact iff_of_false (by simp) hy

/-- A field that is read anyway agrees with the one that binds its value. -/
lemma FieldPlan.Skips.agree_binding {x : String} (h : plan.Skips) (hreads : plan.reads = true)
    (havoids : plan.Avoids [x]) (hnames : NamesAgree [x] names names') :
    plan.Agree [x] names names' (plan.binding text x) := by
  have hreads' := plan.reads_binding text x
  refine ⟨rfl, rfl, hreads.trans hreads'.symm, h.locals_agree, rfl, rfl, rfl, rfl, havoids, ?_, ?_⟩
  · intro bound bound' hbound len _
    rw [havoids.width_eq hnames hbound len]
    unfold FieldPlan.reads at hreads
    unfold FieldPlan.width FieldPlan.binding
    cases hlength : plan.length with
    | fixed n => rfl
    | rest =>
        cases htype : plan.type with
        | int => rfl
        | string =>
            simp only [htype, hlength] at hreads
            rw [hreads]
        | bitstring => rfl
    | computed e => rfl
  · intro _ bound bound' hbound
    exact havoids.order_eq hnames hbound

/-- A field that is not read is neither an integer nor kept. -/
lemma FieldPlan.of_not_reads (h : plan.reads = false) : plan.type ≠ .int ∧ plan.kept = false := by
  unfold FieldPlan.reads at h
  split at h
  · cases h
  · cases h
  · cases h
  · rename_i htype _
    exact ⟨by rw [htype]; decide, h⟩
  · rename_i htype
    exact ⟨by rw [htype]; decide, h⟩

/-- What a field that nothing else looks at does with its value: it binds it. -/
lemma FieldPlan.Skips.accept_binding {x : String} (h : plan.Skips) (hkept : plan.kept = false)
    (bound : List (String × Value)) (v : Value) :
    (plan.binding text x).accept names bound v = pure (some (bindLocals bound [x] v)) := by
  have htest : (plan.binding text x).test = none := h.test
  have hrebind : (plan.binding text x).rebind = none := h.rebind hkept
  have hcheck : (plan.binding text x).check = none := h.check hkept
  have hpasses : (plan.binding text x).passes names (bindLocals bound [x] v) v = pure true := by
    unfold FieldPlan.passes
    rw [htest, hcheck]
    rfl
  unfold FieldPlan.accept FieldPlan.replace
  rw [hrebind]
  show ((plan.binding text x).passes names (bindLocals bound [x] v) v >>= _) = _
  rw [hpasses]
  rfl

/-- A field that is not read has the width that it has where its value is bound, unless it takes a
part of a byte. -/
lemma FieldPlan.width_binding {x : String} (hreads : plan.reads = false) {len : Scalar}
    (hwhole : plan.SkipsRest → len.toInt % 8 = 0) (lookup : String → Except Fault Value) :
    plan.width lookup len = (plan.binding text x).width lookup len := by
  obtain ⟨-, hkept⟩ := FieldPlan.of_not_reads hreads
  unfold FieldPlan.width FieldPlan.binding
  cases hlength : plan.length with
  | fixed n => rfl
  | rest =>
      by_cases htype : plan.type = .string
      · have hlen : len.toInt % 8 = 0 := hwhole ⟨htype, hlength, hkept⟩
        simp [hlen]
      · simp [htype]
  | computed e => rfl

/-- **A wildcard and a variable.**  From states that agree but for the variable, a field runs to
such states whether it binds its value or not, unless it is a string that takes a part of a byte.
-/
lemma FieldPlan.Skips.run_agree {x : String} (h : plan.Skips) (hmeasured : plan.Measured)
    (havoids : plan.Avoids [x]) (hnames : NamesAgree [x] names names')
    (hs : State.Agree [x] s s') (hwithin : s.Within subject)
    (hwhole : plan.SkipsRest → s.len.toInt % 8 = 0) :
    StatesAgree [x] (plan.run names subject s) ((plan.binding text x).run names' subject s') := by
  by_cases hreads : plan.reads = true
  · -- A value that is read is read by both.
    exact (h.agree_binding hreads havoids hnames).run hnames hs hwithin
  · have hreads : plan.reads = false := by simpa using hreads
    obtain ⟨htype, hkept⟩ := FieldPlan.of_not_reads hreads
    have hwidth : plan.width (names s.bound) s.len =
        (plan.binding text x).width (names' s'.bound) s'.len := by
      rw [havoids.width_eq hnames hs.bound, FieldPlan.width_binding hreads hwhole, hs.len]
    have hwithin' : s'.Within subject := by
      obtain ⟨horigin, hlen, hreach⟩ := hwithin
      rw [hs.off] at horigin hreach
      rw [hs.len] at hlen hreach
      exact ⟨horigin, hlen, hreach⟩
    refine FieldPlan.run_agree_of hnames hs hwidth ?_ rfl havoids
    intro width hfound
    rw [hwidth] at hfound
    have hreads' := plan.reads_binding text x
    have hmeasured' : (plan.binding text x).Measured := hmeasured
    -- One of the two runs reads a value, which cannot fail where the bits are there.
    have hread := FieldPlan.readsWithin hmeasured' hwithin' hfound hreads'
    obtain ⟨v, hv, -⟩ :=
      @readBits_content plan.type plan.signed _ _ _ .big hread.fits hread.whole_of_string
    have hvalue : (plan.binding text x).read (names' s'.bound) subject.data s'.off width =
        pure v := by
      rw [FieldPlan.read_eq, if_neg (by exact htype)]
      exact congrArg Run.ofExcept hv
    unfold FieldPlan.consume
    rw [hreads, hreads', if_neg Bool.false_ne_true, if_pos rfl, hvalue, pure_bind,
      h.accept_binding hkept]
    refine .pure (.some ?_)
    have hbound := hs.bound.bindLocals h.locals_agree v
    rwa [h.locals] at hbound

/-- With a part of a byte left a string that takes the rest refuses if it is read. -/
lemma FieldPlan.SkipsRest.run_binding {x : String} (h : plan.SkipsRest)
    (hpart : s.len.toInt % 8 ≠ 0) :
    (plan.binding text x).run names subject s = pure none := by
  have hwidth : (plan.binding text x).width (names s.bound) s.len = pure none := by
    unfold FieldPlan.width FieldPlan.binding
    simp [h.type, h.length, hpart]
  unfold FieldPlan.run
  rw [hwidth]
  rfl

/-! ## Cases -/

section Runs

variable {x : String} {before after : List FieldPlan}

/-- A list of fields runs the same whether one of them binds its value or not, unless the run comes
to a string that takes a part of a byte. -/
lemma runFields_binding (hnames : NamesAgree [x] names names') (hskips : plan.Skips)
    (hplans : ∀ field ∈ before ++ plan :: after, field.Measured ∧ field.Avoids [x])
    (hwhole : plan.SkipsRest → ∀ s,
      (runFields names subject (.start subject) before).result = .ok (some s) →
        s.len.toInt % 8 = 0) :
    StatesAgree [x] (runFields names subject (.start subject) (before ++ plan :: after))
      (runFields names' subject (.start subject) (before ++ plan.binding text x :: after)) := by
  obtain ⟨hmeasured, havoids⟩ := hplans plan (by simp)
  refine runFields_replace hnames hplans fun s s' hs hstates hwithin => ?_
  exact hskips.run_agree hmeasured havoids hnames hstates hwithin fun hrest => hwhole hrest s hs

/-- The same holds for the fields up to any boundary. -/
lemma runFields_take_binding (hnames : NamesAgree [x] names names') (hskips : plan.Skips)
    (hplans : ∀ field ∈ before ++ plan :: after, field.Measured ∧ field.Avoids [x])
    (hwhole : plan.SkipsRest → ∀ s,
      (runFields names subject (.start subject) before).result = .ok (some s) →
        s.len.toInt % 8 = 0) (k : Nat) :
    StatesAgree [x] (runFields names subject (.start subject) ((before ++ plan :: after).take k))
      (runFields names' subject (.start subject)
        ((before ++ plan.binding text x :: after).take k)) := by
  by_cases hk : k ≤ before.length
  · rw [List.take_append_of_le_length hk, List.take_append_of_le_length hk]
    refine runFields_avoiding hnames ?_ (State.start_agree subject) (State.start_within subject)
    intro field hfield
    exact hplans field (List.mem_append_left _ (List.mem_of_mem_take hfield))
  · obtain ⟨j, rfl⟩ := Nat.exists_eq_add_of_lt (Nat.lt_of_not_le hk)
    have htake : ∀ field : FieldPlan, (before ++ field :: after).take (before.length + j + 1) =
        before ++ field :: after.take j := by
      intro field
      rw [Nat.add_assoc, List.take_length_add_append, List.take_succ_cons]
    rw [htake, htake]
    refine runFields_binding hnames hskips ?_ hwhole
    intro field hfield
    refine hplans field ?_
    rw [← htake] at hfield
    exact List.mem_of_mem_take hfield

/-- Where the run comes to a string that takes a part of a byte, a list of fields that binds it
refuses. -/
lemma runFields_binding_of_part (hnames : NamesAgree [x] names names')
    (hbefore : ∀ field ∈ before, field.Measured ∧ field.Avoids [x]) (hrest : plan.SkipsRest)
    (hs : (runFields names subject (.start subject) before).result = .ok (some s))
    (hpart : s.len.toInt % 8 ≠ 0) :
    (runFields names' subject (.start subject)
      (before ++ plan.binding text x :: after)).result = .ok none := by
  have hrun := (runFields_avoiding hnames hbefore (State.start_agree subject)
    (State.start_within subject)).result
  rw [hs] at hrun
  rw [runFields_append]
  cases hs' : (runFields names' subject (.start subject) before).result with
  | error f =>
      rw [hs'] at hrun
      exact hrun.elim
  | ok state =>
      rw [hs'] at hrun
      cases hrun with
      | @some _ s' hstates =>
          refine Run.bind_eq_ok.mpr ⟨some s', hs', ?_⟩
          show (runFields names' subject s' (plan.binding text x :: after)).result = _
          rw [runFields_cons, hrest.run_binding (by rwa [← hstates.len])]
          rfl

end Runs

/-- On a subject the run of a case comes to a field that takes the rest of it as a string and is not
read, and a part of a byte is left. -/
def CasePlan.SkipsPart (plan : CasePlan) (globals : List (String × Value)) (subject : Bitstring)
    (i : Nat) : Prop :=
  ∃ field ∈ plan.fields[i]?, field.SkipsRest ∧
    ∃ s, (runFields (Frame.lookup ⟨plan.locals, globals⟩) subject (.start subject)
      (plan.fields.take i)).result = .ok (some s) ∧ s.len.toInt % 8 ≠ 0

/-- Two states at the same place of a subject. -/
def State.SamePlace (s s' : State) : Prop :=
  s.off = s'.off ∧ s.len = s'.len

/-- Two cases that make the same of a subject: they have the same run, and at every boundary between
fields they stand at the same place. -/
structure CasePlan.SameOn (globals : List (String × Value)) (subject : Bitstring)
    (plan plan' : CasePlan) : Prop where
  run : plan'.run globals subject = plan.run globals subject
  boundary : ∀ k, Related Eq Eq (Option.Rel State.SamePlace)
    (runFields (Frame.lookup ⟨plan.locals, globals⟩) subject (.start subject) (plan.fields.take k))
    (runFields (Frame.lookup ⟨plan'.locals, globals⟩) subject (.start subject)
      (plan'.fields.take k))

lemma State.Agree.samePlace {out : List String} {s s' : Option State}
    (h : Option.Rel (State.Agree out) s s') : Option.Rel State.SamePlace s s' := by
  cases h with
  | none => exact .none
  | some h => exact .some ⟨h.off, h.len⟩

/-- A case in whose plan a variable takes the place of a wildcard, where the case does not mention
the variable: it refuses where the wildcard takes a part of a byte, and makes the same of every
other subject. -/
lemma CasePlan.run_binding {plan plan' : CasePlan} {field : FieldPlan} {x : String}
    {before after : List FieldPlan} (hfields : plan.fields = before ++ field :: after)
    (hfields' : plan'.fields = before ++ field.binding text x :: after)
    (hbody' : plan'.body = plan.body) (hskips : field.Skips)
    (hplans : ∀ field ∈ plan.fields, field.Measured ∧ field.Avoids [x])
    (hbody : ∀ use ∈ plan.body.uses [], ∀ y ∈ use.2.freeNames, y ∉ [x])
    (globals : List (String × Value)) (subject : Bitstring) :
    (¬plan.SkipsPart globals subject before.length → plan.SameOn globals subject plan') ∧
      (plan.SkipsPart globals subject before.length →
        (plan'.run globals subject).result = .ok none) := by
  have hlocals :=
    CasePlan.locals_replace hfields hfields' (@FieldPlan.Skips.locals_agree field x hskips)
  have hnames := namesAgree_lookup hlocals fun x _ _ => Eq.refl (globals.lookup x)
  have hat : plan.fields[before.length]? = some field := by
    rw [hfields]
    simp
  have htake : plan.fields.take before.length = before := by
    rw [hfields, List.take_left]
  rw [hfields] at hplans
  constructor
  · -- The wildcard is read as the variable would be, unless it takes the rest and a part of a byte.
    intro hnot
    have hwhole : field.SkipsRest → ∀ s, (runFields (Frame.lookup ⟨plan.locals, globals⟩) subject
        (.start subject) before).result = .ok (some s) → s.len.toInt % 8 = 0 := by
      intro hrest s hs
      by_contra hpart
      exact hnot ⟨field, hat, hrest, s, by rwa [htake], hpart⟩
    constructor
    · have hrun : StatesAgree [x]
          (runFields (Frame.lookup ⟨plan.locals, globals⟩) subject (.start subject) plan.fields)
          (runFields (Frame.lookup ⟨plan'.locals, globals⟩) subject (.start subject)
            plan'.fields) := by
        rw [hfields, hfields']
        exact runFields_binding hnames hskips hplans hwhole
      refine (CasePlan.runWith_agree_of hrun ?_).symm
      intro bound bound' hbound
      rw [hbody']
      exact BodyPlan.run_agree hnames hbody hbound
    · intro k
      rw [hfields, hfields']
      exact (runFields_take_binding hnames hskips hplans hwhole k).mono
        fun _ _ => State.Agree.samePlace
  · -- The variable is read as a string there, and a part of a byte is refused.
    rintro ⟨found, hfound, hrest, s, hs, hpart⟩
    rw [hat] at hfound
    cases hfound
    rw [htake] at hs
    have hbefore := fun field hfield => hplans field (List.mem_append_left _ hfield)
    have hnone := @runFields_binding_of_part text _ _ _ _ s x before after hnames hbefore hrest hs
      hpart
    show (plan'.runWith _ subject).result = .ok none
    unfold CasePlan.runWith
    rw [hfields']
    exact Run.bind_eq_ok.mpr ⟨none, hnone, rfl⟩

/-! ## Matchers -/

/-- Cases with the same fields and the same body make the same of every subject. -/
lemma CasePlan.sameOn_of_eq {plan plan' : CasePlan} (hfields : plan'.fields = plan.fields)
    (hbody : plan'.body = plan.body) (globals : List (String × Value)) (subject : Bitstring) :
    plan.SameOn globals subject plan' := by
  have hlocals : plan'.locals = plan.locals := congrArg (List.flatMap FieldPlan.locals) hfields
  constructor
  · rw [CasePlan.run_congr hfields hbody]
  · intro k
    rw [hfields, hlocals]
    refine (related_eq_iff.mpr rfl).mono ?_
    rintro s _ rfl
    cases s with
    | none => exact .none
    | some s => exact .some ⟨rfl, rfl⟩

section Matchers

variable {config : Config} {env : List (String × Value)} {cases : List Case} {m : Matcher}
variable {i : Nat} {c : Case} {fieldsText x : String} {before after : List Field} {field : Field}

/-- The two plans of a case that does not mention the variable, side by side. -/
lemma planCase_wildcard {ctx : Context} {plan : CasePlan} (h : planCase ctx c = .ok plan)
    (hfields : c.fields = before ++ field :: after) (hwildcard : field.pattern = .wildcard)
    (hlength : field.length.isSome = true) {e : Expr} (hbody : c.body = .expr e)
    (hfresh : (lexicalCase ctx c).FreshVariable x)
    (hmeasured : ∀ field ∈ plan.fields, field.Measured) :
    ∃ plan', planCase ctx (c.binding before after field fieldsText text x) = .ok plan' ∧
      plan'.index = plan.index ∧ (∀ y ∈ plan'.locals, y ∈ plan.locals ∨ y = localName x) ∧
      ∀ (globals : List (String × Value)) (subject : Bitstring),
        (¬plan.SkipsPart globals subject before.length → plan.SameOn globals subject plan') ∧
        (plan.SkipsPart globals subject before.length →
          (plan'.run globals subject).result = .ok none) := by
  have hfree : ∀ use ∈ (lexicalCase ctx c).uses, ∀ y ∈ use.2.freeNames, y ∉ [x] := by
    intro use huse y hy hyx
    rw [List.mem_singleton.mp hyx] at hy
    exact hfresh.free.not_used use huse hy
  have hresolved := (planCase_eq_resolved h).1
  obtain ⟨havoids, huses⟩ := @avoids_of_free [localName x] (lexicalCase ctx c) (by
    intro y hy
    rw [List.mem_singleton.mp hy]
    exact hfresh.local_free)
  rw [← hresolved] at havoids huses
  obtain ⟨plan', hplan', hindex, hbody', hplans⟩ :=
    @planCase_binding _ text x _ _ _ _ fieldsText _ _ h hfields hwildcard hlength hbody hfree
  refine ⟨plan', hplan', hindex, ?_⟩
  -- The field is planned, or stands behind the end of the case.
  rcases hplans with ⟨first, wildcard, last, hfirst, hskips, hplans, hplans'⟩ | ⟨hshort, hplans⟩
  · rw [← hfirst]
    refine ⟨?_, CasePlan.run_binding hplans hplans' hbody' hskips
      (fun field hfield => ⟨hmeasured field hfield, havoids field hfield⟩) huses⟩
    intro y hy
    rw [CasePlan.locals, hplans', List.flatMap_append, List.flatMap_cons] at hy
    rw [CasePlan.locals, hplans, List.flatMap_append, List.flatMap_cons]
    simp only [FieldPlan.binding, List.mem_append, List.mem_singleton] at hy ⊢
    tauto
  · have hlocals : plan'.locals = plan.locals := congrArg (List.flatMap FieldPlan.locals) hplans
    refine ⟨fun y hy => .inl (hlocals ▸ hy), fun globals subject =>
      ⟨fun _ => CasePlan.sameOn_of_eq hplans hbody' globals subject, ?_⟩⟩
    rintro ⟨found, hfound, -⟩
    rw [List.getElem?_eq_none hshort.le] at hfound
    cases hfound

/-- **A skipped field accepts what a bound one accepts**, but for a part of a byte.  A variable that
a case does not mention may take the place of a wildcard with a length.  The cases have a matcher as
before, in which that one plan has changed.  The changed plan has the same run on every subject and
stands at the same place at every boundary between fields, with one exception: where the wildcard is
a string that takes the rest of the subject, is not read, and comes to a part of a byte, the plan
with the variable refuses.  -/
theorem variable_for_wildcard (hm : Matcher.ofNumbered config env cases = .ok m)
    (hc : cases[i]? = some c) (hfields : c.fields = before ++ field :: after)
    (hwildcard : field.pattern = .wildcard) (hlength : field.length.isSome = true) {e : Expr}
    (hbody : c.body = .expr e)
    (hfresh : (lexicalCase (Matcher.context config env) c).FreshVariable x) (htext : NulFree text) :
    ∃ m' plan plan', Matcher.ofNumbered config env
        (cases.set i (c.binding before after field fieldsText text x)) = .ok m' ∧
      m.plans[i]? = some plan ∧ m'.plans = m.plans.set i plan' ∧ m'.globals = m.globals ∧
      ∀ subject,
        (¬plan.SkipsPart m.globals subject before.length → plan.SameOn m.globals subject plan') ∧
        (plan.SkipsPart m.globals subject before.length →
          (plan'.run m.globals subject).result = .ok none) := by
  obtain ⟨henv, hplans, hload, -⟩ := Matcher.ofNumbered_eq_ok hm
  obtain ⟨hi, rfl⟩ := List.getElem?_eq_some_iff.mp hc
  have hi' : i < m.plans.length := by rwa [← hplans.length_eq]
  have hplan : m.plans[i]? = some m.plans[i] := List.getElem?_eq_getElem hi'
  have hmeasured := measured_of_mem hm (List.getElem_mem hi')
  obtain ⟨plan', hplan', hindex, hlocals, hruns⟩ :=
    @planCase_wildcard text cases[i] fieldsText x before after field _ _ (hplans.get hi hi')
      hfields hwildcard hlength e hbody hfresh fun field hfield => (hmeasured field hfield).1
  refine ⟨_, m.plans[i], plan', ofNumbered_set hm hplan hplan' hindex ?_ ?_, hplan, rfl, rfl,
    hruns m.globals⟩
  · intro other hother
    rcases mem_effectiveFields_binding hfields hlength hother with hother | rfl
    · exact (Matcher.printable_of_ofNumbered hm).2 _ (List.getElem_mem hi) other hother
    · exact htext
  · intro hconstant
    rcases hlocals _ hconstant with hconstant | hconstant
    · exact constantName_not_mem hload (List.getElem_mem hi') hconstant
    · exact hfresh.not_constant hconstant.symm

end Matchers

/-- A wildcard for half a byte. -/
def skippedHalf : Field :=
  ⟨.wildcard, some (.int 4), some .default, "_:4"⟩

/-- A wildcard for a string that takes the rest. -/
def skippedRest : Field :=
  ⟨.wildcard, some (.int (-1)), some { valueType := some .string }, "_:-1:string"⟩

/-- A case that passes over half a byte and the rest. -/
def skippingCase : Case where
  fieldsText := "_:4, _:-1:string"
  fields := [skippedHalf, skippedRest]
  body := .expr (.int 1)
  index := 0

/-- A variable for the rest makes the same of every subject on which it is not a part of a byte. -/
theorem variable_for_wildcard_rest :
    ∃ m m' plan plan', Matcher.ofNumbered {} [] [skippingCase] = .ok m ∧
      Matcher.ofNumbered {} [] [skippingCase.binding [skippedHalf] [] skippedRest
        "_:4, x:-1:string" "x:-1:string" "x"] = .ok m' ∧
      m.plans[0]? = some plan ∧ m'.plans = m.plans.set 0 plan' ∧
      ∀ subject, ¬plan.SkipsPart m.globals subject 1 → plan.SameOn m.globals subject plan' := by
  obtain ⟨plan, hplan, hlocals⟩ : ∃ plan,
      planCases (Matcher.context {} []) [skippingCase] = .ok [plan] ∧
        constantName ∉ plan.locals := ⟨_, rfl, by decide⟩
  have hm := Matcher.ofNumbered_singleton hplan (by simp)
    (by simp [skippingCase, skippedHalf, skippedRest, effectiveFields, Field.isRest]) hlocals
  have hfresh : (lexicalCase (Matcher.context {} []) skippingCase).FreshVariable "x" :=
    ⟨by decide, by decide, by decide⟩
  obtain ⟨m', plan, plan', hm', hplan, hplans, -, hruns⟩ :=
    @variable_for_wildcard "x:-1:string" _ _ _ _ 0 _ "_:4, x:-1:string" "x" [skippedHalf] []
      skippedRest hm rfl rfl rfl rfl _ rfl hfresh (by simp)
  exact ⟨_, m', plan, plan', hm, hm', hplan, hplans, fun subject => (hruns subject).1⟩

/-- On two bytes the second field comes to a byte and a half.  The wildcard passes over it, and a
variable in its place refuses, as a string that takes the rest is asked for whole bytes. -/
theorem wildcard_skips_part_of_byte :
    ∃ m m' plan plan', Matcher.ofNumbered {} [] [skippingCase] = .ok m ∧
      Matcher.ofNumbered {} [] [skippingCase.binding [skippedHalf] [] skippedRest
        "_:4, x:-1:string" "x:-1:string" "x"] = .ok m' ∧
      m.plans = [plan] ∧ m'.plans = [plan'] ∧
      (plan.run m.globals (.ofBytes [0x0a, 0xbc])).result = .ok (some (.int 1)) ∧
      (plan'.run m'.globals (.ofBytes [0x0a, 0xbc])).result = .ok none := by
  obtain ⟨plan, hplan, hlocals, hrun⟩ : ∃ plan,
      planCases (Matcher.context {} []) [skippingCase] = .ok [plan] ∧
        constantName ∉ plan.locals ∧
          (plan.run (Matcher.globalsOf [plan] []) (.ofBytes [0x0a, 0xbc])).result =
            .ok (some (.int 1)) := ⟨_, rfl, by decide, rfl⟩
  obtain ⟨plan', hplan', hlocals', hrun'⟩ : ∃ plan',
      planCases (Matcher.context {} []) [skippingCase.binding [skippedHalf] [] skippedRest
        "_:4, x:-1:string" "x:-1:string" "x"] = .ok [plan'] ∧
        constantName ∉ plan'.locals ∧
          (plan'.run (Matcher.globalsOf [plan'] []) (.ofBytes [0x0a, 0xbc])).result =
            .ok none := ⟨_, rfl, by decide, rfl⟩
  have hm := Matcher.ofNumbered_singleton hplan (by simp)
    (by simp [skippingCase, skippedHalf, skippedRest, effectiveFields, Field.isRest]) hlocals
  have hm' := Matcher.ofNumbered_singleton hplan' (by simp)
    (by simp [Case.binding, Field.binding, skippedHalf, skippedRest, effectiveFields, Field.isRest])
    hlocals'
  exact ⟨_, _, plan, plan', hm, hm', rfl, rfl, hrun, hrun'⟩

end BitPattern.Plan
