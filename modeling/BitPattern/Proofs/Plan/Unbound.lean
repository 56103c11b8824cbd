import BitPattern.Proofs.Expr.Fold
import BitPattern.Proofs.Plan.Loadable

/-!
# Names that nothing binds

The expressions of a case are those of the fields before a lone wildcard, as they are written, and
that of the body.  The length and the byte order of a field stand before the names of the field are
bound, and its other expressions after that.  A name is unbound where it is neither bound, nor one
of the environment, nor one of the functions of expressions.

Planning refuses a case with an unbound name, whatever the types and qualifiers of its fields
(`unbound_refused`), with one exception: nothing looks at the byte order of a field that is no
integer.  The exception is exact, as such byte orders make no difference to planning
(`planCase_withoutStrayOrders`), and `unbound_order_planned` is a case that it lets through.
-/

namespace BitPattern

open Plan

/-! ## Expressions as they are written -/

/-- The expression of a byte order, if there is one. -/
def Endianness.expr? : Endianness → Option Expr
  | fixed _ => none
  | computed e => some e

namespace Field

/-- The expressions of a field that stand before its names are bound. -/
def outerExprs (field : Field) : List Expr :=
  field.length.toList ++ ((field.spec.bind Spec.endian).bind Endianness.expr?).toList

/-- The expressions of a field that stand after its names are bound. -/
def innerExprs (field : Field) : List Expr :=
  (field.spec.bind Spec.bind).toList ++ (field.spec.bind Spec.check).toList ++
    (field.spec.bind Spec.offset).toList

/-- The expressions of a field, each with the names that are bound where it stands. -/
def expressions (field : Field) (before : List String) : List (List String × Expr) :=
  field.outerExprs.map (fun e => (before, e)) ++
    field.innerExprs.map (fun e => (field.pattern.names.reverse ++ before, e))

/-- The expressions of several fields, each with the names that are bound where it stands. -/
def expressionsOf (before : List String) : List Field → List (List String × Expr)
  | [] => []
  | field :: fields =>
    field.expressions before ++ expressionsOf (field.pattern.names.reverse ++ before) fields

/-- The names that several fields bind. -/
def namesOf (fields : List Field) : List String :=
  fields.flatMap fun field => field.pattern.names

/-- A field without its byte order, if that is not the byte order of an integer. -/
def withoutStrayOrder (field : Field) : Field :=
  if field.spec.bind Spec.valueType = some .int then field
  else { field with spec := field.spec.map fun spec => { spec with endian := none } }

end Field

namespace Case

/-- The expressions of a case, each with the names that are bound where it stands. -/
def expressions (c : Case) : List (List String × Expr) :=
  Field.expressionsOf [] (effectiveFields c) ++
    match c.body with
    | .expr e => [(Field.namesOf (effectiveFields c), e)]
    | .callable _ => []

/-- Some expression of the case names what is neither bound there nor known otherwise. -/
def Unbound (env : List String) (c : Case) : Prop :=
  ∃ use ∈ c.expressions, ∃ x ∈ use.2.freeNames, ¬Known use.1 env x

/-- A case without the byte orders of fields that are no integers. -/
def withoutStrayOrders (c : Case) : Case :=
  { c with fields := c.fields.map Field.withoutStrayOrder }

end Case

namespace Plan

instance (bound env : List String) (x : String) : Decidable (Known bound env x) :=
  inferInstanceAs (Decidable (_ ∨ _ ∨ _))

instance (env : List String) (c : Case) : Decidable (c.Unbound env) :=
  inferInstanceAs (Decidable (∃ use ∈ c.expressions, ∃ x ∈ use.2.freeNames, ¬Known use.1 env x))

variable {ctx : Context} {scope scope' : Scope} {bound : List String}

/-! ## Byte orders that nothing looks at -/

/-- The byte order of a field that is no integer makes no difference to its plan. -/
lemma planField_withoutStrayOrder (field : Field) :
    planField ctx scope field.withoutStrayOrder = planField ctx scope field := by
  unfold Field.withoutStrayOrder
  by_cases hint : field.spec.bind Spec.valueType = some .int
  · rw [if_pos hint]
  · rw [if_neg hint]
    obtain ⟨pattern, length, spec, text⟩ := field
    cases spec with
    | none => rfl
    | some spec =>
        cases length with
        | none => rfl
        | some length =>
            cases htype : spec.valueType with
            | none => simp [planField, htype]
            | some type =>
                have horder : ∀ endian,
                    planOrder ctx scope type endian text = .ok (.named "big") := by
                  intro endian
                  cases type with
                  | int => exact absurd htype hint
                  | string => rfl
                  | bitstring => rfl
                simp only [planField, Option.map_some, Option.bind_some, htype, Option.getD_some,
                  planTyped, horder]
                rfl

lemma planFields_withoutStrayOrder (fields : List Field) :
    planFields ctx scope (fields.map Field.withoutStrayOrder) = planFields ctx scope fields := by
  induction fields generalizing scope with
  | nil => rfl
  | cons field fields ih =>
      rw [List.map_cons, planFields, planFields, planField_withoutStrayOrder]
      simp only [ih]

lemma effectiveFields_withoutStrayOrders (c : Case) :
    effectiveFields c.withoutStrayOrders = (effectiveFields c).map Field.withoutStrayOrder := by
  have hrest : ∀ field : Field, field.withoutStrayOrder.isRest = field.isRest := by
    intro field
    unfold Field.withoutStrayOrder
    split <;> rfl
  unfold effectiveFields Case.withoutStrayOrders
  rw [List.takeWhile_map]
  simp only [Function.comp_def, hrest]

/-- Byte orders of fields that are no integers make no difference to the plan of a case. -/
lemma planCase_withoutStrayOrders (c : Case) :
    planCase ctx c.withoutStrayOrders = planCase ctx c := by
  unfold planCase
  rw [effectiveFields_withoutStrayOrders, planFields_withoutStrayOrder]
  rfl

/-! ## Names of planned cases -/

/-- A byte order that is left is that of an integer. -/
lemma valueType_withoutStrayOrder {field : Field} {spec : Spec}
    (hspec : field.withoutStrayOrder.spec = some spec) (hendian : spec.endian ≠ none) :
    spec.valueType = some .int := by
  unfold Field.withoutStrayOrder at hspec
  split at hspec
  · rename_i hint
    rw [hspec] at hint
    exact hint
  · obtain ⟨_, -, rfl⟩ := Option.map_eq_some_iff.mp hspec
    exact absurd rfl hendian

/-- Every name of a planned field is known, but for those of a byte order that nothing looks at. -/
lemma known_of_planField (hscope : scope.Holds bound) {field : Field} {plan : FieldPlan}
    (h : planField ctx scope field = .ok (plan, scope')) :
    KnownUses ctx.env (field.withoutStrayOrder.expressions bound) := by
  rw [← planField_withoutStrayOrder] at h
  obtain ⟨length, spec, type, hlength, hspec, htype, -, -⟩ := planField_eq_ok h
  obtain ⟨-, -, hknown⟩ := planField_eq_resolved hscope h
  set stripped := field.withoutStrayOrder with hstripped
  have hlexical : (lexicalField ctx stripped).length = lexicalLength length ∧
      (lexicalField ctx stripped).order = lexicalOrder ctx type spec.endian ∧
      (lexicalField ctx stripped).rebind = spec.bind ∧
      (lexicalField ctx stripped).check = spec.check ∧
      (lexicalField ctx stripped).jump = spec.offset := by
    simp [lexicalField, hlength, hspec, htype]
  obtain ⟨hlen, horder, hrebind, hcheck, hjump⟩ := hlexical
  intro use huse x hx
  simp only [Field.expressions, Field.outerExprs, Field.innerExprs, hlength, hspec,
    Option.bind_some, List.mem_append, List.mem_map, Option.mem_toList] at huse
  rcases huse with ⟨e, he | he, rfl⟩ | ⟨e, he, rfl⟩
  · -- A length with a constant value has no names, and any other is resolved.
    cases he
    cases hfold : length.fold? with
    | some n =>
        rw [Expr.freeNames_of_isArithmetic (Expr.isArithmetic_of_fold? hfold)] at hx
        cases hx
    | none =>
        refine hknown (bound, length) ?_ x hx
        simp [FieldPlan.uses, hlen, lexicalLength, hfold]
  · -- A byte order that is left belongs to an integer, and there it is resolved.
    obtain ⟨endian, hendian, he⟩ := Option.bind_eq_some_iff.mp he
    have hint : type = .int := by
      have := valueType_withoutStrayOrder hspec (by rw [hendian]; simp)
      rw [htype] at this
      exact Option.some.inj this
    cases endian with
    | fixed endian => cases he
    | computed e' =>
        cases he
        refine hknown (bound, e) ?_ x hx
        simp [FieldPlan.uses, horder, hint, hendian, lexicalOrder]
  · -- The new value, the check and the jump.
    refine hknown _ (FieldPlan.inner_mem_uses (e := e) ?_) x hx
    rw [hrebind, hcheck, hjump]
    tauto

@[simp] lemma pattern_withoutStrayOrder (field : Field) :
    field.withoutStrayOrder.pattern = field.pattern := by
  unfold Field.withoutStrayOrder
  split <;> rfl

lemma known_of_planFields (hscope : scope.Holds bound) {fields : List Field}
    {plans : List FieldPlan} (h : planFields ctx scope fields = .ok (plans, scope')) :
    KnownUses ctx.env (Field.expressionsOf bound (fields.map Field.withoutStrayOrder)) := by
  induction fields generalizing scope bound plans with
  | nil => exact nofun
  | cons field fields ih =>
      obtain ⟨plan, inner, rest, rfl, hfield, hfields⟩ := planFields_cons_eq_ok.mp h
      obtain ⟨-, -, -, -, -, -, rfl, -⟩ := planField_eq_ok hfield
      intro use huse
      rw [List.map_cons, Field.expressionsOf, pattern_withoutStrayOrder] at huse
      rcases List.mem_append.mp huse with huse | huse
      · exact known_of_planField hscope hfield use huse
      · exact ih (hscope.bindAll _) hfields use huse

/-- No name of a planned case is unbound, but for those of byte orders that nothing looks at. -/
lemma not_unbound_of_planCase {c : Case} {plan : CasePlan} (h : planCase ctx c = .ok plan) :
    ¬c.withoutStrayOrders.Unbound ctx.env := by
  rintro ⟨use, huse, x, hx, hunbound⟩
  refine hunbound ?_
  obtain ⟨scope, hfields, hbody, -, -⟩ := planCase_eq_ok h
  rw [Case.expressions, effectiveFields_withoutStrayOrders] at huse
  rcases List.mem_append.mp huse with huse | huse
  · exact known_of_planFields Scope.holds_nil hfields use huse x hx
  · -- The body knows all names of the fields and of the environment.
    obtain ⟨-, -, -, hholds⟩ := planFields_eq_resolved Scope.holds_nil hfields
    have hnames : Field.namesOf ((effectiveFields c).map Field.withoutStrayOrder) =
        Field.namesOf (effectiveFields c) := by
      simp [Field.namesOf, List.flatMap_map]
    show x ∈ use.1 ∨ _
    rw [hnames] at huse
    have hbody' : c.withoutStrayOrders.body = c.body := rfl
    rw [hbody'] at huse
    cases hexpr : c.body with
    | callable callable =>
        rw [hexpr] at huse
        cases huse
    | expr e =>
        rw [hexpr] at huse hbody
        cases List.mem_singleton.mp huse
        obtain ⟨e', hresolve, -⟩ := planBody_expr_eq_ok.mp hbody
        obtain ⟨hknown, -⟩ := (resolve_eq_ok hholds).mp hresolve
        rcases hknown x hx with hmem | hmem
        · rw [mem_namesAfter, locals_lexicalFields] at hmem
          exact .inl (hmem.resolve_left (by simp))
        · exact .inr hmem

/-! ## Cases that are refused -/

/-- A case that is not planned is in no list of cases of which a matcher is made. -/
lemma ofNumbered_refused {config : Config} {env : List (String × Value)} {cases : List Case}
    {c : Case} (hc : c ∈ cases) {cause : Report.Cause}
    (h : planCase (Matcher.context config env) c = .error cause) :
    ∃ d, Matcher.ofNumbered config env cases = .error (.refused d) := by
  unfold Matcher.ofNumbered
  cases hplans : planCases (Matcher.context config env) cases with
  | error cause => exact ⟨_, rfl⟩
  | ok plans =>
      obtain ⟨-, -, hall⟩ := planCases_eq_ok hplans
      obtain ⟨i, hi, rfl⟩ := List.mem_iff_getElem.mp hc
      have hplanned := hall.get hi (by rwa [← hall.length_eq])
      rw [List.get_eq_getElem, h] at hplanned
      cases hplanned

/-- **Unbound names are refused.**  Under every configuration and environment, a case in which an
expression names what is neither bound there nor known otherwise is not planned, and no list of
cases with it makes a matcher, as long as the expression is not the byte order of a field that is no
integer.  Such byte orders make no difference to planning, so what they name is never looked at. -/
theorem unbound_refused (config : Config) (env : List (String × Value)) (c : Case) :
    (c.withoutStrayOrders.Unbound (env.map Prod.fst) →
      (∃ cause, planCase (Matcher.context config env) c = .error cause) ∧
        ∀ cases : List Case, c ∈ cases →
          ∃ d, Matcher.ofNumbered config env cases = .error (.refused d)) ∧
    planCase (Matcher.context config env) c.withoutStrayOrders =
      planCase (Matcher.context config env) c := by
  refine ⟨fun hunbound => ?_, planCase_withoutStrayOrders c⟩
  cases hplan : planCase (Matcher.context config env) c with
  | ok plan => exact absurd hunbound (not_unbound_of_planCase hplan)
  | error cause => exact ⟨⟨cause, rfl⟩, fun cases hc => ofNumbered_refused hc hplan⟩

/-- A field whose length names the environment, and whose check names nothing. -/
def uncheckedCase : Case where
  fieldsText := "a:n, check(a < limit)"
  fields := [
    ⟨.var "a", some (.name "n"),
      some { Spec.default with check := some (.binary .lt (.name "a") (.name "limit")) },
      "a:n, check(a < limit)"⟩]
  body := .expr (.name "a")
  index := 0

/-- A check that names nothing is found, whatever else is bound. -/
theorem unbound_refused_check :
    uncheckedCase.withoutStrayOrders.Unbound ["n"] ∧
      (∃ cause, planCase (Matcher.context {} [("n", .int 8)]) uncheckedCase = .error cause) ∧
      ∃ d, Matcher.ofNumbered {} [("n", .int 8)] [uncheckedCase] = .error (.refused d) := by
  have hunbound : uncheckedCase.withoutStrayOrders.Unbound ["n"] := by decide
  obtain ⟨hplan, hmatcher⟩ := (unbound_refused {} [("n", .int 8)] uncheckedCase).1 hunbound
  exact ⟨hunbound, hplan, hmatcher [uncheckedCase] (List.mem_singleton.mpr rfl)⟩

/-- A string whose byte order names nothing. -/
def strayOrderCase : Case where
  fieldsText := "s:8:string, endian(foo)"
  fields := [
    ⟨.var "s", some (.int 8),
      some { valueType := some .string, endian := some (.computed (.name "foo")) },
      "s:8:string, endian(foo)"⟩]
  body := .expr (.name "s")
  index := 0

/-- The name of the byte order is unbound, and a matcher is made all the same. -/
theorem unbound_order_planned :
    strayOrderCase.Unbound [] ∧
      (∃ plan, planCase (Matcher.context {} []) strayOrderCase = .ok plan) ∧
      ∃ m, Matcher.ofNumbered {} [] [strayOrderCase] = .ok m := by
  obtain ⟨plan, hplan, hplans, hlocals⟩ : ∃ plan,
      planCase (Matcher.context {} []) strayOrderCase = .ok plan ∧
        planCases (Matcher.context {} []) [strayOrderCase] = .ok [plan] ∧
          constantName ∉ plan.locals := ⟨_, rfl, rfl, by decide⟩
  have hm := Matcher.ofNumbered_singleton hplans (by simp)
    (by simp [strayOrderCase, effectiveFields, Field.isRest]) hlocals
  exact ⟨by decide, ⟨plan, hplan⟩, _, hm⟩

end Plan

end BitPattern
