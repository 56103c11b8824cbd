import BitPattern.Matcher
import BitPattern.Proofs.Run.Lift

/-!
# What planning settles

Planning refuses or succeeds, and what later proofs need is what holds when it succeeds.  This file
says so once for each step: `Planned` for a field, `planFields_cons_eq_ok` for a list of fields,
`planCase_eq_ok` for a case, and `ofNumbered_eq_ok` for a matcher.  No later proof opens the
planning functions again.
-/

namespace BitPattern

namespace Plan

open BitPattern.Report BitPattern.Text

/-! ## Fields -/

/-- All that is settled about a field when it is planned: the length obeys the rule of the type, the
pattern suits it, and every part of the plan is a part of the field with its names resolved, in the
scope before the field for length and byte order, and in the scope after it for the rest. -/
structure Planned (ctx : Context) (scope : Scope) (field : Field) (length : Expr) (spec : Spec)
    (type : FieldType) (plan : FieldPlan) : Prop where
  text_eq : plan.text = field.text
  admits : ∀ n, length.fold? = some n → type.admits n = true
  suits : checkPattern type length.fold? field = .ok ()
  type_eq : plan.type = type
  length_eq : planLength ctx scope length.fold? length field.text = .ok plan.length
  signed_eq : plan.signed = spec.isSigned
  order_eq : planOrder ctx scope type spec.endian field.text = .ok plan.order
  kept_eq : plan.kept = isRead field spec
  locals_eq : plan.locals = field.pattern.names.map localName
  rebind_eq : resolveOption (scope.bindAll field.pattern.names) ctx.env field.text spec.bind =
    .ok plan.rebind
  test_eq : planTest type field.text field.pattern = .ok plan.test
  check_eq : resolveOption (scope.bindAll field.pattern.names) ctx.env field.text spec.check =
    .ok plan.check
  jump_eq : resolveOption (scope.bindAll field.pattern.names) ctx.env field.text spec.offset =
    .ok plan.jump

lemma checkLength_eq_ok {type : FieldType} {length : Option Scalar} {text : Mention} :
    checkLength (some type) length text = .ok () ↔
      ∀ n, length = some n → type.admits n.toInt = true := by
  cases length with
  | none => simp [checkLength]
  | some n => by_cases h : type.admits n.toInt = true <;> simp [checkLength, h]

lemma planTyped_eq_ok {ctx : Context} {scope scope' : Scope} {field : Field} {length : Expr}
    {spec : Spec} {type : FieldType} {plan : FieldPlan}
    (h : planTyped ctx scope field length spec type = .ok (plan, scope')) :
    scope' = scope.bindAll field.pattern.names ∧
      Planned ctx scope field length spec type plan := by
  unfold planTyped at h
  obtain ⟨_, hcheck, h⟩ := result_bind_eq_ok.mp h
  obtain ⟨_, hpattern, h⟩ := result_bind_eq_ok.mp h
  obtain ⟨planned, hlength, h⟩ := result_bind_eq_ok.mp h
  obtain ⟨order, horder, h⟩ := result_bind_eq_ok.mp h
  obtain ⟨rebind, hrebind, h⟩ := result_bind_eq_ok.mp h
  obtain ⟨test, htest, h⟩ := result_bind_eq_ok.mp h
  obtain ⟨check, hcheck', h⟩ := result_bind_eq_ok.mp h
  obtain ⟨jump, hjump, h⟩ := result_bind_eq_ok.mp h
  cases h
  refine ⟨rfl, rfl, ?_, hpattern, rfl, hlength, rfl, horder, rfl, rfl, hrebind, htest, hcheck',
    hjump⟩
  intro n hn
  exact checkLength_eq_ok.mp hcheck (.number n) (by rw [hn]; rfl)

/-- A planned field has a length and a type. -/
lemma planField_eq_ok {ctx : Context} {scope scope' : Scope} {field : Field} {plan : FieldPlan}
    (h : planField ctx scope field = .ok (plan, scope')) :
    ∃ length spec type, field.length = some length ∧ field.spec = some spec ∧
      spec.valueType = some type ∧ scope' = scope.bindAll field.pattern.names ∧
      Planned ctx scope field length spec type plan := by
  unfold planField at h
  cases hspec : field.spec with
  | none => simp [hspec] at h
  | some spec =>
      cases hlength : field.length with
      | none => simp [hlength] at h
      | some length =>
          cases htype : spec.valueType with
          | none => simp [hspec, hlength, htype] at h
          | some type =>
              simp only [hspec, hlength, Option.bind_some, htype, Option.getD_some] at h
              exact ⟨length, spec, type, rfl, rfl, htype, planTyped_eq_ok h⟩

/-- A field of which all this is settled is planned. -/
lemma Planned.planField_eq {ctx : Context} {scope : Scope} {field : Field} {length : Expr}
    {spec : Spec} {type : FieldType} {plan : FieldPlan}
    (h : Planned ctx scope field length spec type plan) (hlength : field.length = some length)
    (hspec : field.spec = some spec) (htype : spec.valueType = some type) :
    planField ctx scope field = .ok (plan, scope.bindAll field.pattern.names) := by
  have hadmits : checkLength (some type) (length.fold?.map Scalar.number) field.text = .ok () := by
    refine checkLength_eq_ok.mpr fun n hn => ?_
    obtain ⟨m, hm, rfl⟩ := Option.map_eq_some_iff.mp hn
    exact h.admits m hm
  simp only [planField, hlength, hspec, Option.bind_some, htype, Option.getD_some, planTyped]
  rw [hadmits, h.suits, h.length_eq, h.order_eq, h.rebind_eq, h.test_eq, h.check_eq, h.jump_eq,
    ← h.text_eq, ← h.type_eq, ← h.signed_eq, ← h.kept_eq, ← h.locals_eq]
  rfl

lemma planFields_nil_eq_ok {ctx : Context} {scope scope' : Scope} {plans : List FieldPlan} :
    planFields ctx scope [] = .ok (plans, scope') ↔ plans = [] ∧ scope' = scope := by
  simp [planFields, eq_comm]

lemma planFields_cons_eq_ok {ctx : Context} {scope scope' : Scope} {field : Field}
    {fields : List Field} {plans : List FieldPlan} :
    planFields ctx scope (field :: fields) = .ok (plans, scope') ↔
      ∃ plan inner rest, plans = plan :: rest ∧ planField ctx scope field = .ok (plan, inner) ∧
        planFields ctx inner fields = .ok (rest, scope') := by
  rw [planFields]
  simp only [result_bind_eq_ok]
  constructor
  · rintro ⟨⟨plan, inner⟩, hfield, ⟨rest, scope''⟩, hfields, h⟩
    cases h
    exact ⟨plan, inner, rest, rfl, hfield, hfields⟩
  · rintro ⟨plan, inner, rest, rfl, hfield, hfields⟩
    exact ⟨(plan, inner), hfield, (rest, scope'), hfields, rfl⟩

/-- Every plan of a list is that of one of the fields, in some scope. -/
lemma mem_planFields {ctx : Context} {scope scope' : Scope} {fields : List Field}
    {plans : List FieldPlan} (h : planFields ctx scope fields = .ok (plans, scope'))
    {plan : FieldPlan} (hplan : plan ∈ plans) :
    ∃ field ∈ fields, ∃ before after, planField ctx before field = .ok (plan, after) := by
  induction fields generalizing scope plans with
  | nil =>
      obtain ⟨rfl, -⟩ := planFields_nil_eq_ok.mp h
      cases hplan
  | cons field fields ih =>
      obtain ⟨first, inner, rest, rfl, hfirst, hrest⟩ := planFields_cons_eq_ok.mp h
      rcases List.mem_cons.mp hplan with rfl | hplan
      · exact ⟨field, List.mem_cons_self, scope, inner, hfirst⟩
      · obtain ⟨field', hfield', hplanned⟩ := ih hrest hplan
        exact ⟨field', List.mem_cons_of_mem _ hfield', hplanned⟩

/-! ## Cases and matchers -/

lemma planCase_eq_ok {ctx : Context} {c : Case} {plan : CasePlan}
    (h : planCase ctx c = .ok plan) :
    ∃ scope, planFields ctx [] (effectiveFields c) = .ok (plan.fields, scope) ∧
      planBody ctx scope c.fieldsText c.body = .ok plan.body ∧
      plan.index = c.index ∧ plan.fieldsText = c.fieldsText := by
  unfold planCase at h
  obtain ⟨⟨fields, scope⟩, hfields, h⟩ := result_bind_eq_ok.mp h
  obtain ⟨body, hbody, h⟩ := result_bind_eq_ok.mp h
  cases h
  exact ⟨scope, hfields, hbody, rfl, rfl⟩

lemma planBody_expr_eq_ok {ctx : Context} {scope : Scope} {text : String} {e : Expr}
    {body : BodyPlan} :
    planBody ctx scope text (.expr e) = .ok body ↔
      ∃ e', resolve scope ctx.env text e = .ok e' ∧ body = .value e' := by
  rw [planBody, result_bind_eq_ok]
  simp [pure, Except.pure, eq_comm]

lemma checkEnv_eq_ok {names : List String} :
    checkEnv names = .ok () ↔ ∀ y ∈ names, isUsable y = true := by
  unfold checkEnv
  cases hfind : names.find? fun y => !isUsable y with
  | none => simpa using List.find?_eq_none.mp hfind
  | some y =>
      have hy := List.find?_some hfind
      refine iff_of_false (by simp) fun h => ?_
      rw [h y (List.mem_of_find?_eq_some hfind)] at hy
      cases hy

lemma code_of_checkEnv {names : List String} {cause : Cause} (h : checkEnv names = .error cause) :
    cause.code = .invalidConfig := by
  rw [checkEnv] at h
  split at h
  · cases h
    rfl
  · cases h

lemma planCases_eq_ok {ctx : Context} {cases : List Case} {plans : List CasePlan}
    (h : planCases ctx cases = .ok plans) :
    checkEnv ctx.env = .ok () ∧ cases ≠ [] ∧
      List.Forall₂ (fun c plan => planCase ctx c = .ok plan) cases plans := by
  unfold planCases at h
  obtain ⟨_, henv, h⟩ := result_bind_eq_ok.mp h
  refine ⟨henv, ?_⟩
  cases cases with
  | nil => cases h
  | cons c rest => exact ⟨by simp, result_mapM_eq_ok.mp h⟩

/-- Cases that are planned one by one are planned as a list. -/
lemma planCases_eq {ctx : Context} {cases : List Case} {plans : List CasePlan}
    (henv : checkEnv ctx.env = .ok ()) (hne : cases ≠ [])
    (hplans : List.Forall₂ (fun c plan => planCase ctx c = .ok plan) cases plans) :
    planCases ctx cases = .ok plans := by
  refine result_bind_eq_ok.mpr ⟨(), henv, ?_⟩
  rw [if_neg (by simpa using hne)]
  exact result_mapM_eq_ok.mpr hplans

end Plan

namespace Matcher

open Plan

/-- A configuration without problems stands in the way of no matcher. -/
lemma ofCases_eq {config : Config} (hconfig : config.problems = []) (env : List (String × Value))
    (cases : List Case) : ofCases config env cases = ofNumbered config env (renumber 0 cases) := by
  have hchecked : checkConfig config = .ok () := by
    simp [checkConfig, hconfig]
  rw [ofCases, hchecked]
  rfl

/-- The environment knows no more of the plans than their indices. -/
lemma globalsOf_congr {plans plans' : List CasePlan}
    (h : plans.map CasePlan.index = plans'.map CasePlan.index) (env : List (String × Value)) :
    globalsOf plans env = globalsOf plans' env := by
  have harms := congrArg (List.map Value.arm) h
  rw [List.map_map, List.map_map] at harms
  exact congrArg (fun arms => (casesName, Value.tuple arms) :: env ++ expressionNames) harms

/-- What is settled when a matcher is made. -/
lemma ofNumbered_eq_ok {config : Config} {env : List (String × Value)} {cases : List Case}
    {m : Matcher} (h : ofNumbered config env cases = .ok m) :
    checkEnv (env.map Prod.fst) = .ok () ∧
      List.Forall₂ (fun c plan => planCase (context config env) c = .ok plan) cases m.plans ∧
      checkLoadable config m.plans = .ok () ∧ m.globals = globalsOf m.plans env := by
  unfold ofNumbered at h
  cases hplans : planCases (context config env) cases with
  | error cause => simp [hplans] at h
  | ok plans =>
      cases hload : checkLoadable config plans with
      | error f => simp [hplans, hload] at h
      | ok u =>
          simp only [hplans, hload] at h
          cases h
          obtain ⟨henv, -, hcases⟩ := planCases_eq_ok hplans
          exact ⟨henv, hcases, hload, rfl⟩

/-- Every plan of a matcher is that of one of its cases. -/
lemma planCase_of_mem {config : Config} {env : List (String × Value)} {cases : List Case}
    {m : Matcher} (h : ofNumbered config env cases = .ok m) {plan : CasePlan}
    (hplan : plan ∈ m.plans) : ∃ c ∈ cases, planCase (context config env) c = .ok plan := by
  obtain ⟨-, hcases, -, -⟩ := ofNumbered_eq_ok h
  obtain ⟨i, hi, rfl⟩ := List.mem_iff_getElem.mp hplan
  have hi' : i < cases.length := by rwa [hcases.length_eq]
  exact ⟨cases[i], List.getElem_mem hi', hcases.get hi' hi⟩

end Matcher

end BitPattern
