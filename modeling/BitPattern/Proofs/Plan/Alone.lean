import BitPattern.Proofs.Plan.Dispatch
import BitPattern.Proofs.Plan.Framing
import Mathlib.Data.List.TakeWhile

/-!
# One case alone

A matcher may be made of a single case.  If the names that the case binds are their own locals, its
plan is the case as it is written (`planCase_eq_lexical`), so what has to hold for a matcher can be
said of its fields and its expression (`Compiles`), and so can what the matcher makes of a subject
(`runAlone`).  `matches_iff` puts the two together: the case matches a subject with a value exactly
if it compiles and its run gives the value.
-/

namespace BitPattern

open Plan BitPattern.Text

/-- A case makes a matcher of its own, which matches a subject with a value after some calls. -/
def Case.Matches (config : Config) (env : List (String × Value)) (c : Case) (subject v : Value)
    (calls : List Call) : Prop :=
  ∃ m, Matcher.ofCases config env [c] = .ok m ∧
    m.tryMatch subject = ⟨calls, .ok ⟨some (0, v)⟩⟩

/-- A case matches a subject if it is planned and can be loaded, and its plan runs so. -/
lemma Case.matches_of_planCases {config : Config} {env : List (String × Value)} {c : Case}
    {plans : List CasePlan} {subject v : Value} {calls : List Call}
    (hconfig : config.problems = [])
    (hprintable : Matcher.Printable config (Matcher.renumber 0 [c]))
    (hplans : planCases (Matcher.context config env) (Matcher.renumber 0 [c]) = .ok plans)
    (hlocals : ∀ plan ∈ plans, constantName ∉ plan.locals)
    (hrun : ∀ m : Matcher, m.plans = plans → m.globals = Matcher.globalsOf plans env →
      m.tryMatch subject = ⟨calls, .ok ⟨some (0, v)⟩⟩) :
    c.Matches config env subject v calls := by
  obtain ⟨m, hm, -, hmatch⟩ := exists_ofCases hconfig hprintable hplans hlocals hrun
  exact ⟨m, hm, hmatch⟩

namespace Plan

variable {config : Config} {env : List (String × Value)} {ctx : Context} {c : Case}
  {bound : List String}

/-! ## Names that are their own locals -/

lemma localOf_eq_self (h : ∀ x ∈ bound, localName x = x) (x : String) : localOf bound x = x := by
  unfold localOf
  split
  · rename_i hx
    exact h x hx
  · rfl

lemma FieldPlan.resolved_eq_self {plan : FieldPlan} (h : ∀ x ∈ bound, localName x = x)
    (hplan : ∀ x ∈ plan.locals, localName x = x) : plan.resolved bound = plan := by
  have hinner : ∀ x ∈ plan.namesAfter bound, localName x = x := by
    intro x hx
    rw [FieldPlan.namesAfter, List.mem_append, List.mem_reverse] at hx
    exact hx.elim (hplan x) (h x)
  have houterExpr := Expr.rename_eq_self (localOf_eq_self h)
  have hinnerExpr : ∀ e : Option Expr,
      e.map (Expr.rename (localOf (plan.namesAfter bound))) = e := by
    intro e
    cases e with
    | none => rfl
    | some e => exact congrArg some (Expr.rename_eq_self (localOf_eq_self hinner) e)
  have hlength : plan.length.rename (localOf bound) = plan.length := by
    cases plan.length with
    | fixed n => rfl
    | rest => rfl
    | computed e => exact congrArg Length.computed (houterExpr e)
  have horder : plan.order.rename (localOf bound) = plan.order := by
    cases plan.order with
    | named name => rfl
    | computed e native => rw [Order.rename, houterExpr]
  have hlocals : plan.locals.map localName = plan.locals :=
    (List.map_congr_left hplan).trans (List.map_id _)
  unfold FieldPlan.resolved
  dsimp only
  rw [hlength, horder, hlocals, hinnerExpr, hinnerExpr, hinnerExpr]

lemma resolvedFields_eq_self {plans : List FieldPlan} (h : ∀ x ∈ bound, localName x = x)
    (hplans : ∀ x ∈ plans.flatMap FieldPlan.locals, localName x = x) :
    resolvedFields bound plans = plans := by
  induction plans generalizing bound with
  | nil => rfl
  | cons plan plans ih =>
      rw [List.flatMap_cons] at hplans
      obtain ⟨hplan, hplans⟩ := List.forall_mem_append.mp hplans
      rw [resolvedFields, FieldPlan.resolved_eq_self h hplan, ih ?_ hplans]
      intro x hx
      rw [FieldPlan.namesAfter, List.mem_append, List.mem_reverse] at hx
      exact hx.elim (hplan x) (h x)

/-- The plan of a case whose names are their own locals is the case as it is written. -/
lemma planCase_eq_lexical {plan : CasePlan} (h : planCase ctx c = .ok plan)
    (hplain : ∀ x ∈ Field.namesOf (effectiveFields c), localName x = x) {e : Expr}
    (hbody : c.body = .expr e) :
    plan.fields = (effectiveFields c).map (lexicalField ctx) ∧ plan.body = .value e ∧
      plan.locals = Field.namesOf (effectiveFields c) := by
  obtain ⟨rfl, -⟩ := planCase_eq_resolved h
  have hlocals : (lexicalCase ctx c).fields.flatMap FieldPlan.locals =
      Field.namesOf (effectiveFields c) := locals_lexicalFields _
  have hfields : (lexicalCase ctx c).resolved.fields = (lexicalCase ctx c).fields :=
    resolvedFields_eq_self (by simp) (hlocals ▸ hplain)
  refine ⟨hfields, ?_, ?_⟩
  · have hafter : ∀ x ∈ (lexicalCase ctx c).boundAfter, localName x = x := by
      intro x hx
      rw [CasePlan.boundAfter, mem_namesAfter, hlocals] at hx
      exact hplain x (hx.resolve_left (by simp))
    simp only [CasePlan.resolved, lexicalCase, lexicalBody, hbody, BodyPlan.resolved]
    exact congrArg BodyPlan.value (Expr.rename_eq_self (localOf_eq_self hafter) e)
  · rw [CasePlan.locals, hfields, hlocals]

/-! ## Matchers of one case -/

/-- What names stand for that are no locals in the listing of one case. -/
def globalsAlone (env : List (String × Value)) : List (String × Value) :=
  (Matcher.casesName, .tuple [.arm 0]) :: env ++ expressionNames

/-- All that a case of some fields and an expression needs for a matcher of its own. -/
structure Compiles (config : Config) (env : List (String × Value)) (fields : List Field)
    (e : Expr) : Prop where
  configured : config.problems = []
  accepted : checkEnv (env.map Prod.fst) = .ok ()
  filename : NulFree config.filename
  printable : ∀ field ∈ fields, NulFree field.text
  planned : ∃ plans scope, planFields (Matcher.context config env) [] fields = .ok (plans, scope)
  known : ∀ x ∈ e.freeNames, Known (Field.namesOf fields) (env.map Prod.fst) x
  loadable : constantName ∉ Field.namesOf fields

/-- The run of a case of some fields and an expression alone, where names are their own locals. -/
def runAlone (config : Config) (env : List (String × Value)) (fields : List Field) (e : Expr)
    (b : Bitstring) : Run (Option Value) :=
  runOn (Frame.lookup ⟨Field.namesOf fields, globalsAlone env⟩) b (.value e)
    (fields.map (lexicalField (Matcher.context config env))) (.start b)

variable {fields : List Field} {text : String} {index : Int} {e : Expr}

lemma effectiveFields_eq (hrest : ∀ field ∈ fields, field.isRest = false) {body : Body} :
    effectiveFields ⟨text, fields, body, index⟩ = fields :=
  List.takeWhile_eq_self_iff.mpr fun field hfield => by simp [hrest field hfield]

/-- The scope after some fields knows the names that they bind. -/
lemma known_after {scope : Scope} {plans : List FieldPlan}
    (h : planFields ctx [] fields = .ok (plans, scope)) :
    ∃ last, scope.Holds last ∧ ∀ x, x ∈ last ↔ x ∈ Field.namesOf fields := by
  obtain ⟨-, -, -, hholds⟩ := planFields_eq_resolved Scope.holds_nil h
  refine ⟨_, hholds, fun x => ?_⟩
  rw [mem_namesAfter, locals_lexicalFields]
  simp [Field.namesOf]

lemma known_congr {bound bound' env : List String} (h : ∀ x, x ∈ bound ↔ x ∈ bound') (x : String) :
    Known bound env x ↔ Known bound' env x :=
  or_congr_left (h x)

lemma planCase_iff (hrest : ∀ field ∈ fields, field.isRest = false) :
    (∃ plan, planCase ctx ⟨text, fields, .expr e, index⟩ = .ok plan) ↔
      (∃ plans scope, planFields ctx [] fields = .ok (plans, scope)) ∧
        ∀ x ∈ e.freeNames, Known (Field.namesOf fields) ctx.env x := by
  constructor
  · rintro ⟨plan, hplan⟩
    obtain ⟨scope, hfields, hbody, -, -⟩ := planCase_eq_ok hplan
    rw [effectiveFields_eq hrest] at hfields
    obtain ⟨last, hholds, hlast⟩ := known_after hfields
    obtain ⟨e', hresolve, -⟩ := planBody_expr_eq_ok.mp hbody
    obtain ⟨hknown, -⟩ := (resolve_eq_ok hholds).mp hresolve
    exact ⟨⟨_, scope, hfields⟩, fun x hx => (known_congr hlast x).mp (hknown x hx)⟩
  · rintro ⟨⟨plans, scope, hfields⟩, hknown⟩
    obtain ⟨last, hholds, hlast⟩ := known_after hfields
    have hresolve := (@resolve_eq_ok scope last ctx.env text hholds e _).mpr
      ⟨fun x hx => (known_congr hlast x).mpr (hknown x hx), rfl⟩
    refine ⟨⟨index, text, plans, .value (e.rename (localOf last))⟩, ?_⟩
    unfold planCase
    rw [effectiveFields_eq hrest, hfields]
    exact result_bind_eq_ok.mpr ⟨_, rfl, result_bind_eq_ok.mpr
      ⟨_, planBody_expr_eq_ok.mpr ⟨_, hresolve, rfl⟩, rfl⟩⟩

lemma tryMatch_alone {m : Matcher} {plan : CasePlan} (hm : m.plans = [plan]) {subject v : Value}
    {calls : List Call} :
    m.tryMatch subject = ⟨calls, .ok ⟨some (0, v)⟩⟩ ↔
      ∃ b, subject.subject = .ok b ∧ plan.run m.globals b = ⟨calls, .ok (some v)⟩ := by
  -- The dispatch over one function is its run.
  have hdispatch : ∀ b, dispatch m.functions b =
      (plan.run m.globals b >>= fun v => pure ⟨v.map fun v => (0, v)⟩) := by
    intro b
    rw [Matcher.functions, hm]
    refine (dispatchFrom_cons 0 _).trans (congrArg _ (funext fun v => ?_))
    cases v <;> rfl
  unfold Matcher.tryMatch
  constructor
  · intro h
    obtain ⟨b, hb, -⟩ := Run.bind_eq_ok.mp (congrArg Run.result h)
    rw [Run.result_ofExcept] at hb
    rw [hb, Run.ofExcept_ok, Run.pure_bind, hdispatch, Run.bind_pure_comp, Run.mk.injEq,
      result_map_eq_ok] at h
    obtain ⟨rfl, found, hfound, h⟩ := h
    cases found with
    | none => cases h
    | some w =>
        cases h
        exact ⟨b, hb, Run.ext rfl hfound⟩
  · rintro ⟨b, hb, hrun⟩
    rw [hb, Run.ofExcept_ok, Run.pure_bind, hdispatch, hrun, Run.bind_pure_comp]
    rfl

/-- A case alone matches exactly if it compiles and its run gives a value. -/
lemma matches_iff (hrest : ∀ field ∈ fields, field.isRest = false)
    (hplain : ∀ x ∈ Field.namesOf fields, localName x = x) {subject v : Value}
    {calls : List Call} :
    Case.Matches config env ⟨text, fields, .expr e, index⟩ subject v calls ↔
      Compiles config env fields e ∧ ∃ b, subject.subject = .ok b ∧
        runAlone config env fields e b = ⟨calls, .ok (some v)⟩ := by
  set c : Case := ⟨text, fields, .expr e, ((0 : Nat) : Int)⟩ with hc
  have hrenumber : Matcher.renumber 0 [⟨text, fields, .expr e, index⟩] = [c] := rfl
  have heffective : effectiveFields c = fields := effectiveFields_eq hrest
  -- What a plan of the case is like, and how it runs.
  have hrun : ∀ plan, planCase (Matcher.context config env) c = .ok plan →
      plan.locals = Field.namesOf fields ∧ Matcher.globalsOf [plan] env = globalsAlone env ∧
        ∀ b, plan.run (globalsAlone env) b = runAlone config env fields e b := by
    intro plan hplan
    obtain ⟨hfields, hbody, hlocals⟩ :=
      planCase_eq_lexical hplan (by rwa [heffective]) (e := e) rfl
    obtain ⟨-, -, -, hindex, -⟩ := planCase_eq_ok hplan
    rw [heffective] at hfields hlocals
    refine ⟨hlocals, ?_, fun b => ?_⟩
    · rw [Matcher.globalsOf, List.map_singleton, hindex]
      rfl
    · rw [CasePlan.run, CasePlan.runWith_eq_runOn, hfields, hbody, hlocals]
      rfl
  constructor
  · -- A matcher that was made has one plan, and has passed every check on the way.
    rintro ⟨m, hm, hmatch⟩
    obtain ⟨_, hconfig, hm⟩ := result_bind_eq_ok.mp hm
    rw [hrenumber] at hm
    obtain ⟨henv, hplans, hload, hglobals⟩ := Matcher.ofNumbered_eq_ok hm
    obtain ⟨hfilename, htexts⟩ := Matcher.printable_of_ofNumbered hm
    obtain ⟨plan, hsingle, hplan⟩ : ∃ plan, m.plans = [plan] ∧
        planCase (Matcher.context config env) c = .ok plan := by
      generalize m.plans = plans at hplans
      cases hplans with
      | cons hplan hnil =>
          cases hnil
          exact ⟨_, rfl, hplan⟩
    obtain ⟨hlocals, hglobals', hruns⟩ := hrun plan hplan
    obtain ⟨hplanned, hknown⟩ := (planCase_iff hrest).mp ⟨plan, hplan⟩
    obtain ⟨b, hb, hvalue⟩ := (tryMatch_alone hsingle).mp hmatch
    rw [hglobals, hsingle, hglobals', hruns] at hvalue
    refine ⟨⟨?_, henv, hfilename, ?_, hplanned, hknown, ?_⟩, b, hb, hvalue⟩
    · unfold Matcher.checkConfig at hconfig
      split at hconfig
      · rename_i hempty
        exact List.isEmpty_iff.mp hempty
      · cases hconfig
    · intro field hfield
      exact htexts c (List.mem_singleton.mpr rfl) field (by rwa [heffective])
    · rw [← hlocals]
      exact constantName_not_mem hload (by simp [hsingle])
  · -- And a case that passes them is planned and makes a matcher.
    rintro ⟨hcompiles, b, hb, hvalue⟩
    obtain ⟨plan, hplan⟩ := (@planCase_iff (Matcher.context config env) _ _ _ _ hrest).mpr
      ⟨hcompiles.planned, hcompiles.known⟩
    obtain ⟨hlocals, hglobals, hruns⟩ := hrun plan hplan
    have hm := Matcher.ofNumbered_singleton
      (planCases_eq hcompiles.accepted (by simp) (.cons hplan .nil)) hcompiles.filename
      (by rw [heffective]; exact hcompiles.printable) (hlocals ▸ hcompiles.loadable)
    refine ⟨_, (Matcher.ofCases_eq hcompiles.configured env _).trans hm,
      (tryMatch_alone rfl).mpr ⟨b, hb, ?_⟩⟩
    rw [hglobals, hruns, hvalue]

end Plan

end BitPattern
