import BitPattern.Proofs.Plan.Replace

/-!
# Planning with a variable in the place of a wildcard

A variable may stand in the place of a wildcard that has a length: it is admitted where the wildcard
is, and binds one more name (`replaces_binding`).  So a case that does not mention the variable is
planned with it as well, and the plan changes in that one field alone, which is read and binds the
local of the variable (`planCase_binding`).

A case with an expression for its body is all that `planCase_binding` speaks of.  A callable that
takes any name is given the variable as well.
-/

namespace BitPattern

open BitPattern.Text

/-- A field with a variable for its pattern. -/
def Field.binding (field : Field) (text x : String) : Field :=
  { field with pattern := .var x, text }

/-- A case with a variable for the pattern of one of its fields. -/
def Case.binding (c : Case) (before after : List Field) (field : Field)
    (fieldsText text x : String) : Case :=
  { c with fieldsText, fields := before ++ field.binding text x :: after }

namespace Plan

variable {ctx : Context} {text x : String}

/-- The plan of a field that binds nothing, tests nothing, and keeps its value only for what the
bind and the check of the field make of it. -/
structure FieldPlan.Skips (plan : FieldPlan) : Prop where
  locals : plan.locals = []
  test : plan.test = none
  rebind : plan.kept = false → plan.rebind = none
  check : plan.kept = false → plan.check = none

/-- The plan of a field with a variable in the place of a wildcard. -/
def FieldPlan.binding (plan : FieldPlan) (text x : String) : FieldPlan :=
  { plan with text, kept := true, locals := [x] }

lemma lexicalField_skips {field : Field} (h : field.pattern = .wildcard) :
    (lexicalField ctx field).Skips := by
  have hread : isRead field (field.spec.getD .empty) = false →
      (field.spec.getD .empty).bind = none ∧ (field.spec.getD .empty).check = none := by
    simp [isRead, h]
  exact ⟨congrArg Pattern.names h, by simp [lexicalField, planTest, h, Except.toOption],
    fun hkept => (hread hkept).1, fun hkept => (hread hkept).2⟩

lemma lexicalField_binding {field : Field} (h : field.pattern = .wildcard) (x : String) :
    lexicalField ctx (field.binding text x) = (lexicalField ctx field).binding text x := by
  simp [lexicalField, FieldPlan.binding, Field.binding, planTest, isRead, Pattern.names, h]

lemma FieldPlan.Skips.resolved {plan : FieldPlan} (h : plan.Skips) (before : List String) :
    (plan.resolved before).Skips := by
  refine ⟨?_, h.test, fun hkept => ?_, fun hkept => ?_⟩
  · simp [FieldPlan.resolved, h.locals]
  · simp [FieldPlan.resolved, h.rebind hkept]
  · simp [FieldPlan.resolved, h.check hkept]

/-- A variable in the place of a wildcard is one more name that is bound. -/
lemma FieldPlan.Skips.namesAfter_binding {plan : FieldPlan} (h : plan.Skips) (text x : String)
    (before : List String) :
    LocalsAgree [x] (plan.namesAfter before) ((plan.binding text x).namesAfter before) := by
  intro y hy
  simp only [FieldPlan.namesAfter, FieldPlan.binding, h.locals, List.mem_append, List.mem_reverse,
    hy, List.not_mem_nil]

/-- With a variable in the place of a wildcard that does not mention it, what is resolved stays as
it is but for the names that are bound. -/
lemma FieldPlan.Skips.resolved_binding {plan : FieldPlan} {x : String} {before : List String}
    (h : plan.Skips) (hfree : ∀ use ∈ plan.uses before, ∀ y ∈ use.2.freeNames, y ∉ [x]) :
    (plan.binding text x).resolved before = (plan.resolved before).binding text (localName x) := by
  obtain ⟨hrebind, hcheck, hjump⟩ :=
    FieldPlan.inner_resolved_congr (h.namesAfter_binding text x before) hfree
  simp only [FieldPlan.resolved, FieldPlan.binding, List.map_cons, List.map_nil,
    FieldPlan.mk.injEq, true_and]
  exact ⟨hrebind.symm, hcheck.symm, hjump.symm⟩

/-! ## Cases -/

lemma isRest_of_length {field : Field} (h : field.length.isSome = true) : field.isRest = false := by
  simp [Field.isRest, ← Option.not_isSome, h]

/-- A variable may stand in the place of a wildcard with a length. -/
lemma replaces_binding {field : Field} (hwildcard : field.pattern = .wildcard)
    (hlength : field.length.isSome = true) :
    field.Replaces ctx [x] (field.binding text x) where
  not_rest := isRest_of_length hlength
  not_rest' := isRest_of_length hlength
  admitted := by
    rintro ⟨length, spec, type, hlength, hspec, htype, hadmits, -, -⟩
    exact ⟨length, spec, type, hlength, hspec, htype, hadmits,
      by simp [checkPattern, Field.binding, bindsOnly], none, rfl⟩
  names := by
    rw [hwildcard]
    exact nofun
  new y hy := .inr hy
  known _ bound hknown := by
    have hmore : MoreKnown ((lexicalField ctx field).namesAfter bound) ctx.env
        (((lexicalField ctx field).binding text x).namesAfter bound) ctx.env :=
      .of_subset fun y hy => by
        rw [FieldPlan.namesAfter, (lexicalField_skips hwildcard).locals] at hy
        exact List.mem_append_right _ hy
    obtain ⟨hlengthKnown, horder, hinner⟩ := FieldPlan.knownUses_iff.mp hknown
    rw [lexicalField_binding hwildcard]
    exact FieldPlan.knownUses_iff.mpr
      ⟨hlengthKnown, horder, fun e he y hy => hmore y (hinner e he y hy)⟩

section Cases

variable {c : Case} {before after : List Field} {field : Field} {fieldsText : String}

/-- **Planning with a variable in the place of a wildcard.**  A case with an expression for its body
that does not mention the variable is planned, and to the same plan but for that one field. -/
lemma planCase_binding {plan : CasePlan} {e : Expr} (h : planCase ctx c = .ok plan)
    (hfields : c.fields = before ++ field :: after) (hwildcard : field.pattern = .wildcard)
    (hlength : field.length.isSome = true) (hbody : c.body = .expr e)
    (hfree : ∀ use ∈ (lexicalCase ctx c).uses, ∀ y ∈ use.2.freeNames, y ∉ [x]) :
    ∃ plan', planCase ctx (c.binding before after field fieldsText text x) = .ok plan' ∧
      plan'.index = plan.index ∧ plan'.body = plan.body ∧
      ((∃ first wildcard last, first.length = before.length ∧ wildcard.Skips ∧
          plan.fields = first ++ wildcard :: last ∧
          plan'.fields = first ++ wildcard.binding text (localName x) :: last) ∨
        (plan.fields.length < before.length ∧ plan'.fields = plan.fields)) := by
  have hignores : c.body.Ignores [x] := by
    rw [hbody]
    trivial
  have hskips := @lexicalField_skips ctx field hwildcard
  obtain ⟨plan', hplan', hindex, hbody', hplans⟩ :=
    @planCase_replace ctx c (c.binding before after field fieldsText text x) _ _ _ _ _ _ h hfields
      rfl (replaces_binding hwildcard hlength) rfl rfl (.inr hignores) hfree
  refine ⟨plan', hplan', hindex, hbody', hplans.imp_left ?_⟩
  rintro ⟨bound, first, last, hfirst, -, huses, hplan, hplan'⟩
  refine ⟨first, _, last, hfirst, hskips.resolved bound, hplan, ?_⟩
  rw [hplan', lexicalField_binding hwildcard,
    hskips.resolved_binding fun use huse => hfree use (huses use huse)]

/-- The fields that take effect are those of the case and the one with the variable. -/
lemma mem_effectiveFields_binding (hfields : c.fields = before ++ field :: after)
    (hlength : field.length.isSome = true) {other : Field}
    (h : other ∈ effectiveFields (c.binding before after field fieldsText text x)) :
    other ∈ effectiveFields c ∨ other = field.binding text x :=
  @mem_effectiveFields_replace c (c.binding before after field fieldsText text x) _ _ _ _ hfields
    rfl (isRest_of_length hlength) (isRest_of_length hlength) _ h

end Cases

end Plan

end BitPattern
