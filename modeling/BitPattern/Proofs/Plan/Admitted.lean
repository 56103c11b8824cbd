import BitPattern.Proofs.Plan.Lexical

/-!
# Which cases are planned

Planning goes through the scopes of a case, but whether it succeeds can be said without them.  Every
field that takes effect has to have a length and a type, a length that obeys the rule of the type
and a pattern that suits it (`Field.Admitted`); a callable for a body has to find what it asks for
(`Case.Served`); and every name has to be known where it is evaluated (`KnownUses`).  Nothing else
stands in the way (`planCase_eq_ok_iff`), and the plan is then the case as it is written with its
names resolved.

So a change to a case can be planned if it leaves these three conditions in place.  The last one
stays in place wherever more is known (`KnownUses.mono`).
-/

namespace BitPattern

open Plan

/-- All that planning asks of a field but for the names of its expressions: it has a length and a
type, the length obeys the rule of the type, and the pattern suits it. -/
def Field.Admitted (field : Field) : Prop :=
  ∃ length spec type, field.length = some length ∧ field.spec = some spec ∧
    spec.valueType = some type ∧ (∀ n, length.fold? = some n → type.admits n = true) ∧
    checkPattern type length.fold? field = .ok () ∧
    ∃ test, planTest type field.text field.pattern = .ok test

/-- A case whose body, if it is a callable, finds what it asks for among the bound names. -/
def Case.Served (c : Case) : Prop :=
  ∀ callable, c.body = .callable callable →
    ∃ args, bodyArguments callable.signature (boundNames c) c.fieldsText = .ok args

namespace Plan

open BitPattern.Text

variable {ctx : Context} {scope scope' : Scope} {text : String}
variable {bound bound' env env' : List String}

/-! ## What is known -/

/-- Whatever is known where some names are bound and others are in the environment is known where
other names are. -/
def MoreKnown (bound env bound' env' : List String) : Prop :=
  ∀ y, Known bound env y → Known bound' env' y

lemma MoreKnown.of_subset (h : ∀ y ∈ bound, y ∈ bound') : MoreKnown bound env bound' env :=
  fun y hy => hy.imp_left (h y)

lemma MoreKnown.append (h : MoreKnown bound env bound' env') (xs : List String) :
    MoreKnown (xs ++ bound) env (xs ++ bound') env' := by
  rintro y (hy | hy)
  · rcases List.mem_append.mp hy with hy | hy
    · exact .inl (List.mem_append_left _ hy)
    · exact (h y (.inl hy)).imp_left (List.mem_append_right _)
  · exact (h y (.inr hy)).imp_left (List.mem_append_right _)

lemma MoreKnown.namesAfterAll (h : MoreKnown bound env bound' env') (plans : List FieldPlan) :
    MoreKnown (namesAfter bound plans) env (namesAfter bound' plans) env' := by
  induction plans generalizing bound bound' with
  | nil => exact h
  | cons plan plans ih => exact ih (h.append _)

/-- The same expressions, each of them evaluated where more is known. -/
abbrev UsesMoreKnown (env env' : List String) (uses uses' : List (List String × Expr)) : Prop :=
  List.Forall₂ (fun use use' => use.2 = use'.2 ∧ MoreKnown use.1 env use'.1 env') uses uses'

/-- Names that are known stay so where more is. -/
lemma KnownUses.mono {uses uses' : List (List String × Expr)}
    (h : UsesMoreKnown env env' uses uses') (hknown : KnownUses env uses) :
    KnownUses env' uses' := by
  intro use' huse' x hx
  obtain ⟨i, hi, rfl⟩ := List.mem_iff_getElem.mp huse'
  have hi' : i < uses.length := by rwa [h.length_eq]
  obtain ⟨hexpr, hmore⟩ := h.get hi' hi
  simp only [List.get_eq_getElem] at hexpr hmore
  rw [← hexpr] at hx
  exact hmore x (hknown uses[i] (List.getElem_mem hi') x hx)

lemma FieldPlan.uses_moreKnown (h : MoreKnown bound env bound' env') (plan : FieldPlan) :
    UsesMoreKnown env env' (plan.uses bound) (plan.uses bound') := by
  refine List.rel_append (List.rel_append ?_ ?_) ?_
  · cases plan.length with
    | fixed n => exact .nil
    | rest => exact .nil
    | computed e => exact .cons ⟨rfl, h⟩ .nil
  · cases plan.order with
    | named name => exact .nil
    | computed e native => exact .cons ⟨rfl, h⟩ .nil
  · rw [List.forall₂_map_left_iff, List.forall₂_map_right_iff]
    exact List.forall₂_same.mpr fun e _ => ⟨rfl, h.append _⟩

lemma usesOf_moreKnown (h : MoreKnown bound env bound' env') (plans : List FieldPlan) :
    UsesMoreKnown env env' (usesOf bound plans) (usesOf bound' plans) := by
  induction plans generalizing bound bound' with
  | nil => exact .nil
  | cons plan plans ih => exact List.rel_append (plan.uses_moreKnown h) (ih (h.append _))

lemma BodyPlan.uses_moreKnown (h : MoreKnown bound env bound' env') (body : BodyPlan) :
    UsesMoreKnown env env' (body.uses bound) (body.uses bound') := by
  cases body with
  | value e => exact .cons ⟨rfl, h⟩ .nil
  | call callable args =>
      simp only [BodyPlan.uses, UsesMoreKnown, List.forall₂_map_left_iff,
        List.forall₂_map_right_iff]
      exact List.forall₂_same.mpr fun arg _ => ⟨rfl, h⟩

/-! ## Fields -/

lemma planLength_of_known (hscope : scope.Holds bound) {length : Expr}
    (hknown : ∀ e, lexicalLength length = .computed e → ∀ x ∈ e.freeNames, Known bound ctx.env x) :
    planLength ctx scope length.fold? length text =
      .ok ((lexicalLength length).rename (localOf bound)) := by
  unfold planLength
  unfold lexicalLength at hknown ⊢
  cases hfold : length.fold? with
  | some n =>
      dsimp only
      split <;> rfl
  | none =>
      rw [hfold] at hknown
      exact result_bind_eq_ok.mpr ⟨_, (resolve_eq_ok hscope).mpr ⟨hknown length rfl, rfl⟩, rfl⟩

lemma planOrder_of_known (hscope : scope.Holds bound) {type : FieldType}
    {endian : Option Endianness}
    (hknown : ∀ e native, lexicalOrder ctx type endian = .computed e native →
      ∀ x ∈ e.freeNames, Known bound ctx.env x) :
    planOrder ctx scope type endian text =
      .ok ((lexicalOrder ctx type endian).rename (localOf bound)) := by
  cases type with
  | string => rfl
  | bitstring => rfl
  | int =>
      cases endian with
      | none => rfl
      | some endian =>
          cases endian with
          | fixed endian => cases endian <;> rfl
          | computed e =>
              exact result_bind_eq_ok.mpr
                ⟨_, (resolve_eq_ok hscope).mpr ⟨hknown e _ rfl, rfl⟩, rfl⟩

lemma resolveOption_of_known (hscope : scope.Holds bound) {e : Option Expr}
    (hknown : ∀ d ∈ e, ∀ x ∈ d.freeNames, Known bound env x) :
    resolveOption scope env text e = .ok (e.map (Expr.rename (localOf bound))) := by
  cases e with
  | none => rfl
  | some e =>
      exact result_bind_eq_ok.mpr ⟨_, (resolve_eq_ok hscope).mpr ⟨hknown e rfl, rfl⟩, rfl⟩

/-- A field that is admitted, with names that are known, is planned. -/
lemma planField_of_admitted (hscope : scope.Holds bound) {field : Field}
    (hadmitted : field.Admitted)
    (hknown : KnownUses ctx.env ((lexicalField ctx field).uses bound)) :
    planField ctx scope field =
      .ok ((lexicalField ctx field).resolved bound, scope.bindAll field.pattern.names) := by
  obtain ⟨length, spec, type, hlength, hspec, htype, hadmits, hsuits, test, htest⟩ := hadmitted
  have hlexical : lexicalField ctx field = {
      text := field.text, type, length := lexicalLength length, signed := spec.isSigned
      order := lexicalOrder ctx type spec.endian, kept := isRead field spec
      locals := field.pattern.names, rebind := spec.bind, test, check := spec.check
      jump := spec.offset } := by
    simp [lexicalField, hlength, hspec, htype, htest, Except.toOption]
  have hinner : (scope.bindAll field.pattern.names).Holds
      ((lexicalField ctx field).namesAfter bound) := hscope.bindAll _
  obtain ⟨hlengthKnown, horderKnown, hinnerKnown⟩ := FieldPlan.knownUses_iff.mp hknown
  rw [hlexical] at hinner hlengthKnown horderKnown hinnerKnown
  have hplanned : Planned ctx scope field length spec type
      ((lexicalField ctx field).resolved bound) := by
    rw [hlexical]
    exact {
      text_eq := rfl
      admits := hadmits
      suits := hsuits
      type_eq := rfl
      length_eq := planLength_of_known hscope hlengthKnown
      signed_eq := rfl
      order_eq := planOrder_of_known hscope horderKnown
      kept_eq := rfl
      locals_eq := rfl
      rebind_eq := resolveOption_of_known hinner fun e he => hinnerKnown e (.inl he)
      test_eq := htest
      check_eq := resolveOption_of_known hinner fun e he => hinnerKnown e (.inr (.inl he))
      jump_eq := resolveOption_of_known hinner fun e he => hinnerKnown e (.inr (.inr he)) }
  exact hplanned.planField_eq hlength hspec htype

lemma admitted_of_planField {field : Field} {plan : FieldPlan}
    (h : planField ctx scope field = .ok (plan, scope')) : field.Admitted := by
  obtain ⟨length, spec, type, hlength, hspec, htype, -, hplan⟩ := planField_eq_ok h
  exact ⟨length, spec, type, hlength, hspec, htype, hplan.admits, hplan.suits, plan.test,
    hplan.test_eq⟩

/-- Fields are planned exactly if each of them is admitted and every name is known. -/
lemma planFields_eq_ok_iff (hscope : scope.Holds bound) {fields : List Field} :
    (∃ plans scope', planFields ctx scope fields = .ok (plans, scope')) ↔
      (∀ field ∈ fields, field.Admitted) ∧
        KnownUses ctx.env (usesOf bound (fields.map (lexicalField ctx))) := by
  induction fields generalizing scope bound with
  | nil => exact iff_of_true ⟨[], scope, rfl⟩ ⟨nofun, nofun⟩
  | cons field fields ih =>
      have hinner : (scope.bindAll field.pattern.names).Holds
          ((lexicalField ctx field).namesAfter bound) := hscope.bindAll _
      rw [List.forall_mem_cons, List.map_cons, usesOf, KnownUses, List.forall_mem_append]
      constructor
      · rintro ⟨plans, scope', h⟩
        obtain ⟨plan, inner, rest, rfl, hfield, hfields⟩ := planFields_cons_eq_ok.mp h
        obtain ⟨rfl, -, hknown⟩ := planField_eq_resolved hscope hfield
        obtain ⟨hadmitted, hrest⟩ := (ih hinner).mp ⟨rest, scope', hfields⟩
        exact ⟨⟨admitted_of_planField hfield, hadmitted⟩, hknown, hrest⟩
      · rintro ⟨⟨hadmitted, hfields⟩, hknown, hrest⟩
        obtain ⟨rest, scope', hplans⟩ := (ih hinner).mpr ⟨hfields, hrest⟩
        exact ⟨_, scope', planFields_cons_eq_ok.mpr
          ⟨_, _, rest, rfl, planField_of_admitted hscope hadmitted hknown, hplans⟩⟩

/-! ## Bodies -/

lemma acceptParameter_congr {p : Parameter} {names names' : List String} {text' : String}
    (h : p.takesName = true → (p.name ∈ names ↔ p.name ∈ names')) :
    (acceptParameter names' text' p).toOption = (acceptParameter names text p).toOption := by
  have htaken : (p.takesName && names'.contains p.name) =
      (p.takesName && names.contains p.name) := by
    cases htakes : p.takesName with
    | false => rfl
    | true => simp [h htakes]
  unfold acceptParameter
  rw [htaken]
  split
  · rfl
  · split <;> rfl

/-- What a callable is given does not depend on the text of the case, and where it takes nothing but
what its parameters ask for, it depends on the names that they ask for alone. -/
lemma bodyArguments_congr {signature : Option (List Parameter)} {names names' : List String}
    {text' : String} (h : names' = names ∨ ∃ parameters, signature = some parameters ∧
      ∀ p ∈ parameters, p.kind ≠ .keywords ∧
        (p.takesName = true → (p.name ∈ names ↔ p.name ∈ names'))) :
    (bodyArguments signature names' text').toOption =
      (bodyArguments signature names text).toOption := by
  unfold bodyArguments
  rcases h with rfl | ⟨parameters, rfl, h⟩
  · split
    · rfl
    · split
      · rfl
      · rw [result_toOption_bind, result_toOption_bind,
          result_toOption_mapM fun p _ => acceptParameter_congr fun _ => Iff.rfl]
  · have hkeywords : ¬parameters.any (·.kind == .keywords) = true := by
      simpa using fun p hp => (h p hp).1
    dsimp only
    rw [if_neg hkeywords, if_neg hkeywords, result_toOption_bind, result_toOption_bind,
      result_toOption_mapM fun p hp => acceptParameter_congr (h p hp).2]

/-- Cases with the same body whose callable is given the same make the same of it. -/
lemma lexicalBody_congr {c c' : Case} (hbody : c'.body = c.body)
    (hargs : ∀ callable, c.body = .callable callable →
      (bodyArguments callable.signature (boundNames c') c'.fieldsText).toOption =
        (bodyArguments callable.signature (boundNames c) c.fieldsText).toOption) :
    lexicalBody c' = lexicalBody c ∧ (c.Served → c'.Served) := by
  constructor
  · unfold lexicalBody
    rw [hbody]
    cases hcallable : c.body with
    | expr e => rfl
    | callable callable => simp only [hargs callable hcallable]
  · intro hserved callable hcallable
    rw [hbody] at hcallable
    obtain ⟨args, hok⟩ := hserved callable hcallable
    have hoption := hargs callable hcallable
    rw [hok] at hoption
    exact ⟨args, result_toOption_eq_some.mp hoption⟩

/-! ## Cases -/

lemma planBody_of_served (hscope : scope.Holds bound) {c : Case}
    (hnames : scope.names = boundNames c) (hserved : c.Served)
    (hknown : KnownUses ctx.env ((lexicalBody c).uses bound)) :
    ∃ body, planBody ctx scope c.fieldsText c.body = .ok body := by
  cases hbody : c.body with
  | expr e =>
      simp only [lexicalBody, hbody] at hknown
      exact ⟨_, planBody_expr_eq_ok.mpr
        ⟨_, (resolve_eq_ok hscope).mpr ⟨hknown (bound, e) (by simp [BodyPlan.uses]), rfl⟩, rfl⟩⟩
  | callable callable =>
      obtain ⟨args, hargs⟩ := hserved callable hbody
      rw [← hnames] at hargs
      exact ⟨_, result_bind_eq_ok.mpr ⟨args, hargs, rfl⟩⟩

lemma served_of_planBody {c : Case} (hnames : scope.names = boundNames c) {body : BodyPlan}
    (h : planBody ctx scope c.fieldsText c.body = .ok body) : c.Served := by
  intro callable hbody
  rw [hbody] at h
  obtain ⟨args, hargs, -⟩ := result_bind_eq_ok.mp h
  exact ⟨args, hnames ▸ hargs⟩

/-- **Which cases are planned.**  A case is planned exactly if the fields that take effect are
admitted, its body is served and every name is known, and then its plan is the case as it is written
with its names resolved. -/
theorem planCase_eq_ok_iff {c : Case} {plan : CasePlan} :
    planCase ctx c = .ok plan ↔
      (∀ field ∈ effectiveFields c, field.Admitted) ∧ c.Served ∧
        KnownUses ctx.env (lexicalCase ctx c).uses ∧ plan = (lexicalCase ctx c).resolved := by
  have hscope := Scope.holds_nil
  constructor
  · intro h
    obtain ⟨scope, hfields, hbody, -, -⟩ := planCase_eq_ok h
    obtain ⟨hplan, hknown⟩ := planCase_eq_resolved h
    obtain ⟨rfl, -, -, -⟩ := planFields_eq_resolved hscope hfields
    exact ⟨((planFields_eq_ok_iff hscope).mp ⟨_, _, hfields⟩).1, served_of_planBody rfl hbody,
      hknown, hplan⟩
  · rintro ⟨hadmitted, hserved, hknown, rfl⟩
    obtain ⟨hfieldsKnown, hbodyKnown⟩ := List.forall_mem_append.mp hknown
    obtain ⟨plans, scope, hfields⟩ :=
      (planFields_eq_ok_iff hscope).mpr ⟨hadmitted, hfieldsKnown⟩
    obtain ⟨rfl, -, -, hholds⟩ := planFields_eq_resolved hscope hfields
    obtain ⟨body, hbody⟩ := planBody_of_served hholds rfl hserved hbodyKnown
    have hplan : planCase ctx c = .ok ⟨c.index, c.fieldsText, plans, body⟩ :=
      result_bind_eq_ok.mpr ⟨_, hfields, result_bind_eq_ok.mpr ⟨body, hbody, rfl⟩⟩
    rw [hplan, (planCase_eq_resolved hplan).1]

end Plan

end BitPattern
