import BitPattern.Proofs.Plan.Scope

/-!
# Plans with the names as they are written

The plan of a case is made in two steps.  `lexicalCase` is the plan with the names as they are
written, and `CasePlan.resolved` renames it, each expression by the names that are bound where it is
evaluated.  `planCase_eq_resolved` says that a planned case is the renamed one, and that none of its
names is unknown; so what is to be shown of the names of planned cases is a matter of the renaming.
-/

namespace BitPattern.Plan

open BitPattern.Text

variable {scope : Scope} {bound env : List String} {text : String}

/-! ## Plans before resolving -/

/-- The length of a field as it is written. -/
def lexicalLength (length : Expr) : Length :=
  match length.fold? with
  | some n => if n = -1 then .rest else .fixed n
  | none => .computed length

/-- The byte order of a field as it is written. -/
def lexicalOrder (ctx : Context) (type : FieldType) (endian : Option Endianness) : Order :=
  match type, endian with
  | .int, some (.computed e) => .computed e ctx.config.nativeEndian
  | .int, some (.fixed .native) => .named ctx.config.nativeEndian
  | .int, some (.fixed .little) => .named "little"
  | _, _ => .named "big"

/-- The plan of a field with the names as they are written. -/
def lexicalField (ctx : Context) (field : Field) : FieldPlan :=
  let spec := field.spec.getD .empty
  let type := spec.valueType.getD .int
  { text := field.text
    type
    length := lexicalLength (field.length.getD (.int 0))
    signed := spec.isSigned
    order := lexicalOrder ctx type spec.endian
    kept := isRead field spec
    locals := field.pattern.names
    rebind := spec.bind
    test := (planTest type field.text field.pattern).toOption.getD none
    check := spec.check
    jump := spec.offset }

/-- The locals of fields as they are written are the names that the fields bind. -/
lemma locals_lexicalFields {ctx : Context} (fields : List Field) :
    (fields.map (lexicalField ctx)).flatMap FieldPlan.locals =
      fields.flatMap fun field => field.pattern.names := by
  rw [List.flatMap_map]
  rfl

/-- The bound names of a case, in the order in which they were first bound. -/
def boundNames (c : Case) : List String :=
  (Scope.bindAll [] ((effectiveFields c).flatMap fun field => field.pattern.names)).names

/-- The bound names of a case are those that its fields bind. -/
lemma mem_boundNames {c : Case} {x : String} :
    x ∈ boundNames c ↔ x ∈ (effectiveFields c).flatMap fun field => field.pattern.names := by
  rw [boundNames, (Scope.holds_nil.bindAll _).mem_names, List.append_nil, List.mem_reverse]

/-- The plan of a body with the names as they are written. -/
def lexicalBody (c : Case) : BodyPlan :=
  match c.body with
  | .expr e => .value e
  | .callable callable =>
    .call callable (((bodyArguments callable.signature (boundNames c) c.fieldsText).toOption.getD
      []).map fun x => (x, x))

/-- The plan of a case with the names as they are written. -/
def lexicalCase (ctx : Context) (c : Case) : CasePlan :=
  ⟨c.index, c.fieldsText, (effectiveFields c).map (lexicalField ctx), lexicalBody c⟩

/-! ## Renaming plans -/

/-- A length with its names replaced. -/
def Length.rename (f : String → String) : Length → Length
  | fixed n => .fixed n
  | rest => .rest
  | computed e => .computed (e.rename f)

/-- A byte order with its names replaced. -/
def Order.rename (f : String → String) : Order → Order
  | named name => .named name
  | computed e native => .computed (e.rename f) native

/-- The plan of a field with every name called as plans call it, where some names are bound before
the field. -/
def FieldPlan.resolved (before : List String) (plan : FieldPlan) : FieldPlan :=
  let inner := localOf (plan.namesAfter before)
  { plan with
    length := plan.length.rename (localOf before)
    order := plan.order.rename (localOf before)
    locals := plan.locals.map localName
    rebind := plan.rebind.map (Expr.rename inner)
    check := plan.check.map (Expr.rename inner)
    jump := plan.jump.map (Expr.rename inner) }

/-- The plans of several fields with every name called as plans call it. -/
def resolvedFields (before : List String) : List FieldPlan → List FieldPlan
  | [] => []
  | plan :: plans => plan.resolved before :: resolvedFields (plan.namesAfter before) plans

/-- The plan of a body with every name called as plans call it. -/
def BodyPlan.resolved (bound : List String) : BodyPlan → BodyPlan
  | value e => .value (e.rename (localOf bound))
  | call callable args => .call callable (args.map fun arg => (arg.1, localOf bound arg.2))

/-- The names bound after all fields of a case, the latest first. -/
def CasePlan.boundAfter (plan : CasePlan) : List String :=
  namesAfter [] plan.fields

/-- The plan of a case with every name called as plans call it. -/
def CasePlan.resolved (plan : CasePlan) : CasePlan :=
  { plan with fields := resolvedFields [] plan.fields, body := plan.body.resolved plan.boundAfter }

/-- The expressions of a body, each with the names that are bound where it is evaluated. -/
def BodyPlan.uses (bound : List String) : BodyPlan → List (List String × Expr)
  | value e => [(bound, e)]
  | call _ args => args.map fun arg => (bound, .name arg.2)

/-- The expressions of a case, each with the names that are bound where it is evaluated. -/
def CasePlan.uses (plan : CasePlan) : List (List String × Expr) :=
  usesOf [] plan.fields ++ plan.body.uses plan.boundAfter

/-! ## Planning as renaming -/

variable {ctx : Context}

/-- Every name of the expressions is bound where it is evaluated, or known otherwise. -/
def KnownUses (env : List String) (uses : List (List String × Expr)) : Prop :=
  ∀ use ∈ uses, ∀ x ∈ use.2.freeNames, Known use.1 env x

/-- The names of a field are known if those of its length and byte order are known before it and
those of its other expressions behind it. -/
lemma FieldPlan.knownUses_iff {plan : FieldPlan} :
    KnownUses env (plan.uses bound) ↔
      (∀ e, plan.length = .computed e → ∀ x ∈ e.freeNames, Known bound env x) ∧
      (∀ e native, plan.order = .computed e native → ∀ x ∈ e.freeNames, Known bound env x) ∧
      ∀ e, (e ∈ plan.rebind ∨ e ∈ plan.check ∨ e ∈ plan.jump) →
        ∀ x ∈ e.freeNames, Known (plan.namesAfter bound) env x := by
  constructor
  · intro h
    exact ⟨fun e he => h (bound, e) (by simp [FieldPlan.uses, he]),
      fun e native he => h (bound, e) (by simp [FieldPlan.uses, he]),
      fun e he => h _ (FieldPlan.inner_mem_uses he)⟩
  · rintro ⟨hlength, horder, hinner⟩ use huse
    simp only [FieldPlan.uses, List.mem_append, List.mem_map, Option.mem_toList] at huse
    rcases huse with (huse | huse) | ⟨e, he, rfl⟩
    · split at huse
      · rename_i e he
        rw [List.mem_singleton.mp huse]
        exact hlength e he
      · cases huse
      · cases huse
    · split at huse
      · rename_i e native he
        rw [List.mem_singleton.mp huse]
        exact horder e native he
      · cases huse
    · exact hinner e (or_assoc.mp he)

lemma planLength_eq_resolved (hscope : scope.Holds bound) {length : Expr} {planned : Length}
    (h : planLength ctx scope length.fold? length text = .ok planned) :
    planned = (lexicalLength length).rename (localOf bound) ∧
      ∀ e, lexicalLength length = .computed e → ∀ x ∈ e.freeNames, Known bound ctx.env x := by
  unfold planLength at h
  unfold lexicalLength
  cases hfold : length.fold? with
  | some n =>
      rw [hfold] at h
      cases h
      refine ⟨?_, fun e he => ?_⟩
      · dsimp only
        split <;> rfl
      · dsimp only at he
        split at he <;> cases he
  | none =>
      rw [hfold] at h
      obtain ⟨e, he, h⟩ := result_bind_eq_ok.mp h
      cases h
      obtain ⟨hknown, rfl⟩ := (resolve_eq_ok hscope).mp he
      refine ⟨rfl, ?_⟩
      rintro e' he'
      cases he'
      exact hknown

lemma planOrder_eq_resolved (hscope : scope.Holds bound) {type : FieldType}
    {endian : Option Endianness} {order : Order}
    (h : planOrder ctx scope type endian text = .ok order) :
    order = (lexicalOrder ctx type endian).rename (localOf bound) ∧
      ∀ e native, lexicalOrder ctx type endian = .computed e native →
        ∀ x ∈ e.freeNames, Known bound ctx.env x := by
  cases type with
  | int =>
      cases endian with
      | none =>
          cases h
          exact ⟨rfl, nofun⟩
      | some endian =>
          cases endian with
          | fixed endian =>
              cases endian <;>
                · cases h
                  exact ⟨rfl, nofun⟩
          | computed e =>
              obtain ⟨e, he, h⟩ := result_bind_eq_ok.mp h
              cases h
              obtain ⟨hknown, rfl⟩ := (resolve_eq_ok hscope).mp he
              refine ⟨rfl, ?_⟩
              rintro e' native he'
              cases he'
              exact hknown
  | string =>
      cases h
      exact ⟨rfl, nofun⟩
  | bitstring =>
      cases h
      exact ⟨rfl, nofun⟩

lemma resolveOption_eq_resolved (hscope : scope.Holds bound) {e e' : Option Expr}
    (h : resolveOption scope env text e = .ok e') :
    e' = e.map (Expr.rename (localOf bound)) ∧ ∀ d ∈ e, ∀ x ∈ d.freeNames, Known bound env x := by
  cases e with
  | none =>
      cases h
      exact ⟨rfl, nofun⟩
  | some e =>
      obtain ⟨e', he', h⟩ := result_bind_eq_ok.mp h
      cases h
      obtain ⟨hknown, rfl⟩ := (resolve_eq_ok hscope).mp he'
      refine ⟨rfl, ?_⟩
      rintro d hd
      cases hd
      exact hknown

/-- A planned field is the field as it is written with its names replaced, and all of them known. -/
lemma planField_eq_resolved (hscope : scope.Holds bound) {scope' : Scope} {field : Field}
    {plan : FieldPlan} (h : planField ctx scope field = .ok (plan, scope')) :
    scope' = scope.bindAll field.pattern.names ∧
      plan = (lexicalField ctx field).resolved bound ∧
      KnownUses ctx.env ((lexicalField ctx field).uses bound) := by
  obtain ⟨length, spec, type, hlength, hspec, htype, rfl, hplan⟩ := planField_eq_ok h
  -- The new value, the check and the jump see the names of the pattern as well.
  have hinner : (scope.bindAll field.pattern.names).Holds
      ((lexicalField ctx field).namesAfter bound) := hscope.bindAll _
  have hlexical : lexicalField ctx field = {
      text := field.text, type, length := lexicalLength length, signed := spec.isSigned
      order := lexicalOrder ctx type spec.endian, kept := isRead field spec
      locals := field.pattern.names, rebind := spec.bind
      test := (planTest type field.text field.pattern).toOption.getD none
      check := spec.check, jump := spec.offset } := by
    simp [lexicalField, hlength, hspec, htype]
  obtain ⟨hlen, hlenKnown⟩ := planLength_eq_resolved hscope hplan.length_eq
  obtain ⟨horder, horderKnown⟩ := planOrder_eq_resolved hscope hplan.order_eq
  obtain ⟨hrebind, hrebindKnown⟩ := resolveOption_eq_resolved hinner hplan.rebind_eq
  obtain ⟨hcheck, hcheckKnown⟩ := resolveOption_eq_resolved hinner hplan.check_eq
  obtain ⟨hjump, hjumpKnown⟩ := resolveOption_eq_resolved hinner hplan.jump_eq
  refine ⟨rfl, ?_, ?_⟩
  · have htext : plan.text = field.text := hplan.text_eq
    have htest : plan.test = (planTest type field.text field.pattern).toOption.getD none := by
      rw [hplan.test_eq]
      rfl
    obtain ⟨⟩ := plan
    simp only [hlexical, FieldPlan.resolved, FieldPlan.mk.injEq]
    rw [hlexical] at hrebind hcheck hjump
    exact ⟨htext, hplan.type_eq, hlen, hplan.signed_eq, horder, hplan.kept_eq, hplan.locals_eq,
      hrebind, htest, hcheck, hjump⟩
  · rw [FieldPlan.knownUses_iff]
    rw [hlexical] at hrebindKnown hcheckKnown hjumpKnown ⊢
    refine ⟨hlenKnown, horderKnown, ?_⟩
    rintro e (he | he | he)
    · exact hrebindKnown e he
    · exact hcheckKnown e he
    · exact hjumpKnown e he

lemma planFields_eq_resolved (hscope : scope.Holds bound) {scope' : Scope} {fields : List Field}
    {plans : List FieldPlan} (h : planFields ctx scope fields = .ok (plans, scope')) :
    scope' = scope.bindAll (fields.flatMap fun field => field.pattern.names) ∧
      plans = resolvedFields bound (fields.map (lexicalField ctx)) ∧
      KnownUses ctx.env (usesOf bound (fields.map (lexicalField ctx))) ∧
      scope'.Holds (namesAfter bound (fields.map (lexicalField ctx))) := by
  induction fields generalizing scope bound plans with
  | nil =>
      obtain ⟨rfl, rfl⟩ := planFields_nil_eq_ok.mp h
      exact ⟨rfl, rfl, nofun, hscope⟩
  | cons field fields ih =>
      obtain ⟨plan, inner, rest, rfl, hfield, hfields⟩ := planFields_cons_eq_ok.mp h
      obtain ⟨rfl, rfl, hknown⟩ := planField_eq_resolved hscope hfield
      have hinner : (scope.bindAll field.pattern.names).Holds
          ((lexicalField ctx field).namesAfter bound) := hscope.bindAll _
      obtain ⟨rfl, rfl, hrest, hafter⟩ := ih hinner hfields
      refine ⟨?_, rfl, ?_, hafter⟩
      · simp [Scope.bindAll, List.foldl_append]
      · intro use huse
        rcases List.mem_append.mp huse with huse | huse
        · exact hknown use huse
        · exact hrest use huse

lemma mem_of_bodyArguments {signature : Option (List Parameter)} {names args : List String}
    (h : bodyArguments signature names text = .ok args) : ∀ x ∈ args, x ∈ names := by
  unfold bodyArguments at h
  split at h
  · cases h
    exact fun _ hx => hx
  · split at h
    · cases h
      exact fun _ hx => hx
    · obtain ⟨taken, htaken, h⟩ := result_bind_eq_ok.mp h
      cases h
      intro x hx
      obtain ⟨xs, hxs, hx⟩ := List.mem_flatten.mp hx
      obtain ⟨i, hi, rfl⟩ := List.mem_iff_getElem.mp hxs
      -- Every parameter takes its own name or none.
      have hall := result_mapM_eq_ok.mp htaken
      have hp := hall.get (by rwa [hall.length_eq]) hi
      simp only [acceptParameter, List.get_eq_getElem] at hp
      split at hp
      · rename_i htakes
        rw [← Except.ok.inj hp] at hx
        rw [List.mem_singleton.mp hx]
        simp only [Bool.and_eq_true, List.contains_iff_mem] at htakes
        exact htakes.2
      · split at hp
        · cases hp
        · rw [← Except.ok.inj hp] at hx
          cases hx

lemma planBody_eq_resolved (hscope : scope.Holds bound) {c : Case}
    (hnames : scope.names = boundNames c) {body : BodyPlan}
    (h : planBody ctx scope c.fieldsText c.body = .ok body) :
    body = (lexicalBody c).resolved bound ∧ KnownUses ctx.env ((lexicalBody c).uses bound) := by
  cases hbody : c.body with
  | expr e =>
      rw [hbody, planBody_expr_eq_ok] at h
      obtain ⟨e', hresolve, rfl⟩ := h
      obtain ⟨hknown, rfl⟩ := (resolve_eq_ok hscope).mp hresolve
      simp only [lexicalBody, hbody]
      refine ⟨rfl, fun use huse => ?_⟩
      rw [List.mem_singleton.mp huse]
      exact hknown
  | callable callable =>
      rw [hbody] at h
      obtain ⟨args, hargs, h⟩ := result_bind_eq_ok.mp h
      have hmem : ∀ x ∈ args, x ∈ bound := fun x hx =>
        hscope.mem_names.mp (mem_of_bodyArguments hargs x hx)
      simp only [lexicalBody, hbody, ← hnames, hargs, ← Except.ok.inj h, Except.toOption,
        Option.getD_some]
      -- The arguments are locals, so each is what its name stands for.
      constructor
      · simp only [BodyPlan.resolved, List.map_map, BodyPlan.call.injEq, true_and]
        refine List.map_congr_left fun x hx => ?_
        simp [hscope x, hmem x hx, localOf]
      · intro use huse x hx
        obtain ⟨arg, harg, rfl⟩ := List.mem_map.mp huse
        obtain ⟨y, hy, rfl⟩ := List.mem_map.mp harg
        rw [Expr.mem_freeNames_name.mp hx]
        exact .inl (hmem y hy)

/-- **Planning is renaming.** The plan of a case is the case as it is written with every name
replaced by what the plan calls it, and none of its names is unknown. -/
theorem planCase_eq_resolved {c : Case} {plan : CasePlan} (h : planCase ctx c = .ok plan) :
    plan = (lexicalCase ctx c).resolved ∧ KnownUses ctx.env (lexicalCase ctx c).uses := by
  obtain ⟨scope, hfields, hbody, hindex, htext⟩ := planCase_eq_ok h
  obtain ⟨hscope, hplans, hknown, hholds⟩ := planFields_eq_resolved Scope.holds_nil hfields
  have hnames : scope.names = boundNames c := by rw [hscope, boundNames]
  obtain ⟨hresolved, hbodyKnown⟩ := planBody_eq_resolved hholds hnames hbody
  refine ⟨?_, fun use huse => ?_⟩
  · obtain ⟨⟩ := plan
    simp only [CasePlan.resolved, lexicalCase, CasePlan.mk.injEq]
    exact ⟨hindex, htext, hplans, hresolved⟩
  · rcases List.mem_append.mp huse with huse | huse
    · exact hknown use huse
    · exact hbodyKnown use huse

end BitPattern.Plan
