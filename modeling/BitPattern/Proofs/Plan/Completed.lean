import BitPattern.Proofs.Field.Qualifier
import BitPattern.Proofs.Grammar.Field
import BitPattern.Proofs.Plan.Loadable

/-!
# Completed specifications

Qualifiers may be completed to those of an unsigned integer with the most significant byte first, or
be left as they are written.  The texts of a case are read the same in both ways: the fields of the
one are those of the other with their specifications completed (`Case.completed`).  Planning asks a
field that takes effect for its value type and takes what else is unset as the default, so the only
difference that completing makes is in fields whose qualifiers name no value type
(`planField_eq_ok_completed`).  Without it such a field is refused; apart from that both ways lead
to the same plans (`strict_only_rejects`).
-/

namespace BitPattern

open BitPattern.Report BitPattern.Grammar

/-! ## Specifications -/

namespace Spec

lemma isSigned_withDefaults (spec : Spec) :
    (spec.withDefaults .default).isSigned = spec.isSigned := by
  obtain ⟨type, sign⟩ := spec
  cases sign <;> rfl

lemma ofQualifiers_completed (qualifiers : Option Expr) :
    ofQualifiers true qualifiers =
      (fun spec : Spec => spec.withDefaults .default) <$> ofQualifiers false qualifiers := by
  cases qualifiers with
  | none => rfl
  | some q =>
      simp only [ofQualifiers]
      cases Qualifier.resolve .empty q <;> rfl

end Spec

namespace Qualifier

/-- Qualifiers one of which names a value type. -/
def NamesType (q : Expr) : Prop :=
  ∃ leaf ∈ leaves q, ∃ type, Says leaf (.valueType type)

/-- Resolved qualifiers have a value type exactly if they name one. -/
lemma namesType_iff {q : Expr} {spec : Spec} (h : resolve .empty q = .ok spec) :
    NamesType q ↔ spec.valueType.isSome = true := by
  rw [resolve_eq_foldlM, foldlM_write_eq_ok] at h
  obtain ⟨settings, hmeans, hunion⟩ := h
  -- A union of settings has a type if one of them writes it, and each is what a leaf says.
  have hset : spec.valueType.isSome = true ↔
      Attribute.valueType ∈ settings.map Setting.attribute := by
    have hunset : Spec.empty.isSet .valueType = true ↔ False := by decide
    rw [← false_or (_ ∈ _), ← hunset]
    exact hunion.isSet_iff .valueType
  rw [hset, List.mem_map]
  constructor
  · rintro ⟨leaf, hmem, type, hleaf⟩
    obtain ⟨i, hi, rfl⟩ := List.mem_iff_getElem.mp hmem
    have hi' : i < settings.length := by rwa [← hmeans.length_eq]
    have hsame := (setting?_eq_some.mpr (hmeans.get hi hi')).symm.trans
      (setting?_eq_some.mpr hleaf)
    exact ⟨settings[i], List.getElem_mem hi', congrArg Setting.attribute (Option.some.inj hsame)⟩
  · rintro ⟨setting, hsetting, hattribute⟩
    obtain ⟨i, hi, rfl⟩ := List.mem_iff_getElem.mp hsetting
    have hi' : i < (leaves q).length := by rwa [hmeans.length_eq]
    refine ⟨(leaves q)[i], List.getElem_mem hi', ?_⟩
    have hleaf := hmeans.get hi' hi
    simp only [List.get_eq_getElem] at hleaf
    revert hattribute hleaf
    cases settings[i] with
    | valueType type => exact fun _ h => ⟨type, h⟩
    | sign | endian | check | bind | offset => exact fun h => nomatch h

end Qualifier

/-! ## Reading -/

/-- A field whose specification is completed from the default one. -/
def Field.completed (field : Field) : Field :=
  { field with spec := field.spec.map fun spec => spec.withDefaults .default }

/-- A field with a value type. -/
def Field.HasType (field : Field) : Prop :=
  (field.spec.bind Spec.valueType).isSome = true

/-- A case whose fields are completed. -/
def Case.completed (c : Case) : Case :=
  { c with fields := c.fields.map Field.completed }

/-- A written field whose qualifiers name a value type, if it has qualifiers. -/
def Grammar.FieldForm.NamesType (form : FieldForm) : Prop :=
  ∀ pattern length qualifiers, form.description = some (pattern, length, some qualifiers) →
    Qualifier.NamesType qualifiers

/-- A text of fields in which all qualifiers before the first lone wildcard name a value type. -/
def NamesTypes (text : String) : Prop :=
  ∀ forms, readText fieldList "field list" .invalidField (.alone text) text = .ok forms →
    ∀ form ∈ forms.takeWhile (·.description.isSome), form.NamesType

lemma Field.ofForm_completed (origin : Origin) (size : Nat) (form : FieldForm) :
    Field.ofForm true origin size form =
      Field.completed <$> Field.ofForm false origin size form := by
  obtain ⟨start, text, description⟩ := form
  rcases description with _ | ⟨pattern, length, qualifiers⟩
  · rfl
  · simp only [Field.ofForm, Spec.ofQualifiers_completed]
    cases Spec.ofQualifiers false qualifiers <;> rfl

lemma Field.parseList_completed (origin : Origin) (text : String) :
    Field.parseList true origin text = List.map Field.completed <$>
      Field.parseList false origin text := by
  unfold Field.parseList
  cases readText fieldList "field list" .invalidField origin text with
  | error d => rfl
  | ok forms => exact result_mapM_map (Field.ofForm_completed origin text.length) forms

lemma Case.ofTexts_completed (index : Int) (fields : String) (body : BodyInput) :
    Case.ofTexts true index fields body =
      Case.completed <$> Case.ofTexts false index fields body := by
  unfold Case.ofTexts
  rw [Field.parseList_completed]
  cases Body.ofInput body with
  | error d => rfl
  | ok body => cases Field.parseList false (.alone fields) fields <;> rfl

/-- Cases given as pairs of the text of the fields and a body. -/
def casePairs (pairs : List (String × BodyInput)) : List CaseInput :=
  pairs.map fun pair => .pair (.text pair.1) pair.2

lemma Case.ofInputs_completed (index : Nat) (pairs : List (String × BodyInput)) :
    Case.ofInputs true index (casePairs pairs) =
      List.map Case.completed <$> Case.ofInputs false index (casePairs pairs) := by
  induction pairs generalizing index with
  | nil => rfl
  | cons pair pairs ih =>
      have hpairs : casePairs (pair :: pairs) = .pair (.text pair.1) pair.2 :: casePairs pairs :=
        rfl
      rw [hpairs, Case.ofInputs, Case.ofInputs, ih]
      simp only [Case.ofInput, Case.ofPair, Case.ofTexts_completed]
      cases Case.ofTexts false index pair.1 pair.2 with
      | error d => rfl
      | ok c => cases Case.ofInputs false (index + 1) (casePairs pairs) <;> rfl

/-- Only a form without a description is read as a lone wildcard. -/
lemma Field.isRest_ofForm {origin : Origin} {size : Nat} {form : FieldForm} {field : Field}
    (h : Field.ofForm false origin size form = .ok field) :
    form.description.isSome = !field.isRest := by
  obtain ⟨start, text, description⟩ := form
  rcases description with _ | ⟨pattern, length, qualifiers⟩
  · cases h
    rfl
  · simp only [Field.ofForm] at h
    cases hspec : Spec.ofQualifiers false qualifiers with
    | error cause => simp [hspec] at h
    | ok spec =>
        simp only [hspec] at h
        cases h
        simp [Field.isRest]

/-- A field has a type exactly if its qualifiers name one, or if it has none. -/
lemma Field.hasType_ofForm {origin : Origin} {size : Nat} {form : FieldForm} {field : Field}
    (h : Field.ofForm false origin size form = .ok field) (hrest : field.isRest = false) :
    form.NamesType ↔ field.HasType := by
  obtain ⟨start, text, description⟩ := form
  rcases description with _ | ⟨pattern, length, qualifiers⟩
  · cases h
    cases hrest
  · simp only [Field.ofForm] at h
    cases hspec : Spec.ofQualifiers false qualifiers with
    | error cause => simp [hspec] at h
    | ok spec =>
        simp only [hspec] at h
        cases h
        cases qualifiers with
        | none =>
            cases hspec
            simp [FieldForm.NamesType, HasType, Spec.default]
        | some q =>
            -- The default adds no type, so it is there after resolving or not at all.
            obtain ⟨resolved, hresolved, h⟩ := result_bind_eq_ok.mp hspec
            cases h
            have hnames := Qualifier.namesType_iff hresolved
            simp [FieldForm.NamesType, HasType, hnames]

lemma namesType_takeWhile {origin : Origin} {size : Nat} {forms : List FieldForm}
    {fields : List Field}
    (h : List.Forall₂ (fun form field => Field.ofForm false origin size form = .ok field)
      forms fields) :
    (∀ form ∈ forms.takeWhile (·.description.isSome), form.NamesType) ↔
      ∀ field ∈ fields.takeWhile (!·.isRest), field.HasType := by
  induction h with
  | nil => simp
  | @cons form field forms fields hform _ ih =>
      rw [List.takeWhile_cons, List.takeWhile_cons, Field.isRest_ofForm hform]
      cases hrest : field.isRest with
      | true => simp
      | false =>
          simp only [Bool.not_false, if_true, List.forall_mem_cons, ih,
            Field.hasType_ofForm hform hrest]

/-- All qualifiers of a text name a type exactly if all fields of its case that take effect have
one. -/
lemma namesTypes_iff {index : Int} {text : String} {body : BodyInput} {c : Case}
    (h : Case.ofTexts false index text body = .ok c) :
    NamesTypes text ↔ ∀ field ∈ Plan.effectiveFields c, field.HasType := by
  obtain ⟨body, -, h⟩ := result_bind_eq_ok.mp h
  obtain ⟨fields, hfields, h⟩ := result_bind_eq_ok.mp h
  cases h
  obtain ⟨forms, hforms, hfields⟩ := result_bind_eq_ok.mp hfields
  show _ ↔ ∀ field ∈ fields.takeWhile (!·.isRest), field.HasType
  rw [← namesType_takeWhile (result_mapM_eq_ok.mp hfields)]
  constructor
  · exact fun hnames => hnames forms hforms
  · intro hnames forms' hforms'
    cases hforms.symm.trans hforms'
    exact hnames

lemma namesTypes_ofInputs {index : Nat} {pairs : List (String × BodyInput)} {cases : List Case}
    (h : Case.ofInputs false index (casePairs pairs) = .ok cases) :
    (∀ pair ∈ pairs, NamesTypes pair.1) ↔
      ∀ c ∈ cases, ∀ field ∈ Plan.effectiveFields c, field.HasType := by
  induction pairs generalizing index cases with
  | nil =>
      cases h
      simp
  | cons pair pairs ih =>
      obtain ⟨c, hc, h⟩ := result_bind_eq_ok.mp h
      obtain ⟨rest, hrest, h⟩ := result_bind_eq_ok.mp h
      cases h
      have hc' : Case.ofTexts false index pair.1 pair.2 = .ok c := by
        simp only [Case.ofInput, Case.ofPair] at hc
        cases hcase : Case.ofTexts false index pair.1 pair.2 with
        | error d => simp [hcase, Except.mapError] at hc
        | ok c' =>
            rw [hcase] at hc
            exact congrArg Except.ok (Except.ok.inj hc)
      rw [List.forall_mem_cons, List.forall_mem_cons, ih hrest, namesTypes_iff hc']

/-! ## Planning -/

namespace Plan

variable {ctx ctx' : Context} {scope : Scope}

lemma planOrder_completed (h : ctx'.config.nativeEndian = ctx.config.nativeEndian)
    (henv : ctx'.env = ctx.env) (type : FieldType) (spec : Spec) (text : String) :
    planOrder ctx' scope type (spec.withDefaults .default).endian text =
      planOrder ctx scope type spec.endian text := by
  obtain ⟨_, _, endian⟩ := spec
  cases type with
  | string | bitstring => rfl
  | int =>
      cases endian with
      | none => rfl
      | some endian =>
          cases endian with
          | fixed endian => cases endian <;> simp [planOrder, Spec.withDefaults, h]
          | computed e => simp [planOrder, Spec.withDefaults, h, henv]

/-- A completed field that has a type is planned as it is without. -/
lemma planField_completed (h : ctx'.config.nativeEndian = ctx.config.nativeEndian)
    (henv : ctx'.env = ctx.env) {field : Field} (htype : field.HasType) :
    planField ctx' scope field.completed = planField ctx scope field := by
  obtain ⟨pattern, length, spec, text⟩ := field
  cases spec with
  | none => cases htype
  | some spec =>
      obtain ⟨type, htype⟩ := Option.isSome_iff_exists.mp htype
      have hcompleted : (spec.withDefaults .default).valueType = some type := by
        have hspec : spec.valueType = some type := htype
        simp [Spec.withDefaults, hspec]
      cases length with
      | none => rfl
      | some length =>
          have hspec : spec.valueType = some type := htype
          simp only [planField, Field.completed, Option.map_some, Option.bind_some, hcompleted,
            hspec, Option.getD_some]
          unfold planTyped
          simp only [planOrder_completed h henv, Spec.isSigned_withDefaults, planLength, henv]
          rfl

/-- Planning a field is planning the completed one, if the field has a type. -/
lemma planField_eq_ok_completed (h : ctx'.config.nativeEndian = ctx.config.nativeEndian)
    (henv : ctx'.env = ctx.env) {field : Field} {r : FieldPlan × Scope} :
    planField ctx scope field = .ok r ↔
      planField ctx' scope field.completed = .ok r ∧ field.HasType := by
  constructor
  · intro hplan
    obtain ⟨length, spec, type, -, hspec, htype, -⟩ := planField_eq_ok hplan
    have hfield : field.HasType := by simp [Field.HasType, hspec, htype]
    exact ⟨(planField_completed h henv hfield).trans hplan, hfield⟩
  · rintro ⟨hplan, htype⟩
    rw [← planField_completed h henv htype, hplan]

lemma planFields_eq_ok_completed (h : ctx'.config.nativeEndian = ctx.config.nativeEndian)
    (henv : ctx'.env = ctx.env) {fields : List Field} {r : List FieldPlan × Scope} :
    planFields ctx scope fields = .ok r ↔
      planFields ctx' scope (fields.map Field.completed) = .ok r ∧
        ∀ field ∈ fields, field.HasType := by
  obtain ⟨plans, scope'⟩ := r
  induction fields generalizing scope plans with
  | nil => simp [planFields]
  | cons field fields ih =>
      rw [List.map_cons, planFields_cons_eq_ok, planFields_cons_eq_ok, List.forall_mem_cons]
      simp only [planField_eq_ok_completed h henv, ih]
      constructor
      · rintro ⟨plan, inner, rest, rfl, ⟨hfield, htype⟩, hrest, htypes⟩
        exact ⟨⟨plan, inner, rest, rfl, hfield, hrest⟩, htype, htypes⟩
      · rintro ⟨⟨plan, inner, rest, rfl, hfield, hrest⟩, htype, htypes⟩
        exact ⟨plan, inner, rest, rfl, ⟨hfield, htype⟩, hrest, htypes⟩

lemma effectiveFields_completed (c : Case) :
    effectiveFields c.completed = (effectiveFields c).map Field.completed := by
  have hrest : (fun field : Field => !field.completed.isRest) = fun field => !field.isRest := rfl
  rw [effectiveFields, effectiveFields, Case.completed, List.takeWhile_map]
  exact congrArg _ (congrArg (fun p => c.fields.takeWhile p) hrest)

/-- Planning a case is planning the completed one, if the fields that take effect have a type. -/
lemma planCase_eq_ok_completed (h : ctx'.config.nativeEndian = ctx.config.nativeEndian)
    (henv : ctx'.env = ctx.env) {c : Case} {plan : CasePlan} :
    planCase ctx c = .ok plan ↔
      planCase ctx' c.completed = .ok plan ∧ ∀ field ∈ effectiveFields c, field.HasType := by
  have hbody : ∀ scope, planBody ctx' scope c.completed.fieldsText c.completed.body =
      planBody ctx scope c.fieldsText c.body := by
    intro scope
    unfold planBody
    rw [henv]
    rfl
  unfold planCase
  rw [effectiveFields_completed]
  simp only [result_bind_eq_ok, planFields_eq_ok_completed h henv, hbody]
  constructor
  · rintro ⟨r, ⟨hfields, htypes⟩, hplan⟩
    exact ⟨⟨r, hfields, hplan⟩, htypes⟩
  · rintro ⟨⟨r, hfields, hplan⟩, htypes⟩
    exact ⟨r, ⟨hfields, htypes⟩, hplan⟩

lemma planCases_eq_ok_completed (h : ctx'.config.nativeEndian = ctx.config.nativeEndian)
    (henv : ctx'.env = ctx.env) {cases : List Case} {plans : List CasePlan} :
    planCases ctx cases = .ok plans ↔
      planCases ctx' (cases.map Case.completed) = .ok plans ∧
        ∀ c ∈ cases, ∀ field ∈ effectiveFields c, field.HasType := by
  have hplans : List.Forall₂ (fun c plan => planCase ctx c = .ok plan) cases plans ↔
      List.Forall₂ (fun c plan => planCase ctx' c = .ok plan) (cases.map Case.completed) plans ∧
        ∀ c ∈ cases, ∀ field ∈ effectiveFields c, field.HasType := by
    rw [List.forall₂_map_left_iff]
    simp only [planCase_eq_ok_completed h henv, and_comm (b := ∀ _ ∈ _, _)]
    exact List.forall₂_and_left _ _
  constructor
  · intro hcases
    obtain ⟨hchecked, hne, hall⟩ := planCases_eq_ok hcases
    obtain ⟨hall, htypes⟩ := hplans.mp hall
    exact ⟨planCases_eq (henv ▸ hchecked) (by simpa using hne) hall, htypes⟩
  · rintro ⟨hcases, htypes⟩
    obtain ⟨hchecked, hne, hall⟩ := planCases_eq_ok hcases
    exact planCases_eq (henv ▸ hchecked) (by simpa using hne) (hplans.mpr ⟨hall, htypes⟩)

end Plan

namespace Matcher

open Plan

lemma ofNumbered_eq_ok_iff {config : Config} {env : List (String × Value)} {cases : List Case}
    {m : Matcher} : ofNumbered config env cases = .ok m ↔
      ∃ plans, planCases (context config env) cases = .ok plans ∧
        checkLoadable config plans = .ok () ∧ m = ⟨config, cases, plans, globalsOf plans env⟩ := by
  unfold ofNumbered
  cases planCases (context config env) cases with
  | error cause => simp
  | ok plans => cases hload : checkLoadable config plans <;> simp [hload, eq_comm]

/-- What a matcher of pairs is made of. -/
lemma ofInputs_eq_ok {config : Config} {env : List (String × Value)} {inputs : List CaseInput}
    {m : Matcher} : ofInputs config env inputs = .ok m ↔
      checkConfig config = .ok () ∧ ∃ cases plans,
        Case.ofInputs config.implicitInt 0 inputs = .ok cases ∧
          planCases (context config env) cases = .ok plans ∧
            checkLoadable config plans = .ok () ∧
              m = ⟨config, cases, plans, globalsOf plans env⟩ := by
  simp only [ofInputs, result_bind_eq_ok, ofNumbered_eq_ok_iff]
  constructor
  · rintro ⟨_, hconfig, cases, hcases, plans, h⟩
    exact ⟨hconfig, cases, plans, hcases, h⟩
  · rintro ⟨hconfig, cases, plans, hcases, h⟩
    exact ⟨(), hconfig, cases, hcases, plans, h⟩

variable {config : Config} {env : List (String × Value)} {pairs : List (String × BodyInput)}

/-- The plans of cases that are left as they are written are those of the completed ones, if all
qualifiers name a type. -/
lemma plans_strict {plans : List CasePlan} :
    (∃ m, ofInputs { config with implicitInt := false } env (casePairs pairs) = .ok m ∧
      m.plans = plans) ↔
    (∃ m, ofInputs { config with implicitInt := true } env (casePairs pairs) = .ok m ∧
      m.plans = plans) ∧ ∀ pair ∈ pairs, NamesTypes pair.1 := by
  have hplanned (cases : List Case) :=
    @planCases_eq_ok_completed (context { config with implicitInt := false } env)
      (context { config with implicitInt := true } env) rfl rfl cases plans
  simp only [ofInputs_eq_ok, Case.ofInputs_completed, result_map_eq_ok]
  constructor
  · rintro ⟨_, ⟨hconfig, cases, plans, hcases, hplans, hload, rfl⟩, rfl⟩
    obtain ⟨hplans, htypes⟩ := (hplanned cases).mp hplans
    exact ⟨⟨_, ⟨hconfig, _, plans, ⟨cases, hcases, rfl⟩, hplans, hload, rfl⟩, rfl⟩,
      (namesTypes_ofInputs hcases).mpr htypes⟩
  · rintro ⟨⟨_, ⟨hconfig, _, plans, ⟨cases, hcases, rfl⟩, hplans, hload, rfl⟩, rfl⟩, htypes⟩
    have hplans := (hplanned cases).mpr ⟨hplans, (namesTypes_ofInputs hcases).mp htypes⟩
    exact ⟨_, ⟨hconfig, cases, plans, hcases, hplans, hload, rfl⟩, rfl⟩

/-- **Leaving qualifiers as they are written only rejects.**  Pairs have a matcher without completed
qualifiers exactly if they have one with them and all qualifiers before the first lone wildcard of
each text name a value type.  Where there are both matchers, they have the same listing and make the
same of every subject. -/
theorem strict_only_rejects (config : Config) (env : List (String × Value))
    (pairs : List (String × BodyInput)) :
    ((∃ m, ofInputs { config with implicitInt := false } env (casePairs pairs) = .ok m) ↔
      (∃ m, ofInputs { config with implicitInt := true } env (casePairs pairs) = .ok m) ∧
        ∀ pair ∈ pairs, NamesTypes pair.1) ∧
    ∀ m m', ofInputs { config with implicitInt := false } env (casePairs pairs) = .ok m →
      ofInputs { config with implicitInt := true } env (casePairs pairs) = .ok m' →
        m.listing = m'.listing ∧ ∀ v, m.tryMatch v = m'.tryMatch v := by
  constructor
  · constructor
    · rintro ⟨m, hm⟩
      obtain ⟨⟨m', hm', -⟩, hnames⟩ := plans_strict.mp ⟨m, hm, rfl⟩
      exact ⟨⟨m', hm'⟩, hnames⟩
    · rintro ⟨⟨m', hm'⟩, hnames⟩
      obtain ⟨m, hm, -⟩ := plans_strict.mpr ⟨⟨m', hm', rfl⟩, hnames⟩
      exact ⟨m, hm⟩
  · intro m m' hm hm'
    obtain ⟨⟨m'', hm'', hplans⟩, -⟩ := plans_strict.mp ⟨m, hm, rfl⟩
    cases hm'.symm.trans hm''
    have hglobals : m.globals = m'.globals := by
      obtain ⟨-, _, _, -, -, -, rfl⟩ := ofInputs_eq_ok.mp hm
      obtain ⟨-, _, _, -, -, -, rfl⟩ := ofInputs_eq_ok.mp hm'
      exact congrArg (globalsOf · env) hplans.symm
    refine ⟨congrArg moduleText hplans.symm, fun v => ?_⟩
    rw [tryMatch, tryMatch, functions, functions, hplans, hglobals]

/-- A byte behind which a lone wildcard ends the case. -/
def endedCase : Case where
  fieldsText := "n:8:int,_,x:8:signed"
  fields := [
    ⟨.var "n", some (.int 8), some { valueType := some .int }, "n:8:int"⟩,
    ⟨.wildcard, none, none, "_"⟩,
    ⟨.var "x", some (.int 8), some { sign := some .signed }, "x:8:signed"⟩]
  body := .expr (.name "n")
  index := 0

/-- Qualifiers without a type stand in the way of nothing behind a lone wildcard. -/
theorem strict_only_rejects_ended :
    let pairs := [("n:8:int,_,x:8:signed", BodyInput.expr (.name "n"))]
    ∃ m m', ofInputs { implicitInt := false } [] (casePairs pairs) = .ok m ∧
      ofInputs { implicitInt := true } [] (casePairs pairs) = .ok m' ∧
        m.listing = m'.listing ∧ ∀ v, m.tryMatch v = m'.tryMatch v := by
  intro pairs
  have hfields : Field.parseList false (.alone "n:8:int,_,x:8:signed") "n:8:int,_,x:8:signed" =
      .ok [⟨.var "n", some (.int 8), some { valueType := some .int }, "n:8:int"⟩,
        ⟨.wildcard, none, none, "_"⟩,
        ⟨.var "x", some (.int 8), some { sign := some .signed }, "x:8:signed"⟩] := by
    decide +kernel
  have hcase : Case.ofTexts false 0 "n:8:int,_,x:8:signed" (.expr (.name "n")) = .ok endedCase :=
    result_bind_eq_ok.mpr ⟨_, rfl, result_bind_eq_ok.mpr ⟨_, hfields, rfl⟩⟩
  have hcases : Case.ofInputs false 0 (casePairs pairs) = .ok [endedCase] := by
    refine result_bind_eq_ok.mpr ⟨endedCase, ?_, rfl⟩
    rw [Case.ofInput, Case.ofPair]
    exact congrArg (Except.mapError Failure.refused) hcase
  obtain ⟨plan, hplan, hlocals⟩ : ∃ plan,
      planCases (context { implicitInt := false } []) [endedCase] = .ok [plan] ∧
        constantName ∉ plan.locals := ⟨_, rfl, by decide⟩
  have hnumbered := ofNumbered_singleton hplan (by simp)
    (by simp [endedCase, effectiveFields, Field.isRest]) hlocals
  have hstrict : ofInputs { implicitInt := false } [] (casePairs pairs) = .ok _ :=
    result_bind_eq_ok.mpr ⟨(), rfl, result_bind_eq_ok.mpr ⟨_, hcases, hnumbered⟩⟩
  obtain ⟨⟨m', hloose⟩, -⟩ := (strict_only_rejects {} [] pairs).1.mp ⟨_, hstrict⟩
  exact ⟨_, m', hstrict, hloose, (strict_only_rejects {} [] pairs).2 _ m' hstrict hloose⟩

end Matcher

end BitPattern
