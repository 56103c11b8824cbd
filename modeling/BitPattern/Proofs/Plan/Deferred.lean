import BitPattern.Proofs.Plan.Admitted
import BitPattern.Proofs.Plan.Agree

/-!
# Lengths and byte orders that are known before a run

A length that folds to a constant, and a byte order that is named, are settled when a case is
planned; a length or a byte order that depends on names is found out on every run.  The two go
different ways through planning and running.  This file shows that they come to the same: if a name
that the cases do not mention is put in the place of a known length or byte order, and stands for
it in the environment, every match has the same outcome (`tryMatch_deferred`).

The comparison is made where the ways part, in the width of a field (`fit_rest`, `fit_fixed`) and in
its byte order (`eval_computed_name`).  A known width is checked against the rule of its type when
the case is planned, and a computed one when it is used, so the two agree only because planning has
refused all others.  A string that takes the rest of the subject is asked for whole bytes only if it
is read, so what is put in place of its length must belong to a field that is.

That the cases do not mention a name includes the locals of the names that they bind.  A name of the
environment that is such a local does not stand for its value, though it occurs nowhere in the cases
(`captured_length_differs`).
-/

namespace BitPattern

open BitPattern.Text

/-! ## Putting names in the place of what is known -/

variable {new : List (String × Value)}

/-- A length that stays, or a name in the place of a length that folds. -/
inductive LengthDeferred (new : List (String × Value)) : Option Expr → Option Expr → Prop where
  | same (length : Option Expr) : LengthDeferred new length length
  | name {length : Expr} {n : Int} {k : String} (hfold : length.fold? = some n)
      (hk : new.lookup k = some (.int n)) : LengthDeferred new (some length) (some (.name k))

/-- A byte order that stays, or a name in the place of one that is named. -/
inductive EndianDeferred (new : List (String × Value)) :
    Option Endianness → Option Endianness → Prop where
  | same (endian : Option Endianness) : EndianDeferred new endian endian
  | name {endian : Endian} {k : String} (hk : new.lookup k = some (.endian endian)) :
      EndianDeferred new (some (.fixed endian)) (some (.computed (.name k)))

/-- A specification that has another byte order at most. -/
structure Spec.Deferred (new : List (String × Value)) (spec spec' : Spec) : Prop where
  endian : EndianDeferred new spec.endian spec'.endian
  rest : spec' = { spec with endian := spec'.endian }

/-- A field of which length and byte order may be given by name.  If either is, then something reads
the value of the field. -/
structure Field.Deferred (new : List (String × Value)) (field field' : Field) : Prop where
  pattern : field'.pattern = field.pattern
  length : LengthDeferred new field.length field'.length
  spec : Option.Rel (Spec.Deferred new) field.spec field'.spec
  read : field'.length = field.length ∧ field'.spec = field.spec ∨
    Plan.isRead field (field.spec.getD .empty) = true

/-- A case in which lengths and byte orders of fields may be given by name. -/
structure Case.Deferred (new : List (String × Value)) (c c' : Case) : Prop where
  fields : List.Forall₂ (Field.Deferred new) c.fields c'.fields
  body : c'.body = c.body
  index : c'.index = c.index

lemma Field.Deferred.getD {field field' : Field} (h : field.Deferred new field') :
    Spec.Deferred new (field.spec.getD .empty) (field'.spec.getD .empty) := by
  have hspec := h.spec
  generalize field.spec = spec at hspec
  generalize field'.spec = spec' at hspec
  cases hspec with
  | none => exact ⟨.same _, rfl⟩
  | some hspec => exact hspec

namespace Plan

/-! ## Widths and byte orders -/

/-- A computed length of -1 takes what is left, in whole bytes for a string. -/
lemma fit_rest {type : FieldType} (htype : type ≠ .int) {len : Scalar} (hlen : 0 ≤ len.toInt) :
    fit type (.number (-1)) len =
      if type == .string && len.toInt % 8 != 0 then none else some len := by
  cases type with
  | int => exact absurd rfl htype
  | string =>
      have hsign : ¬len.toInt < 0 := by omega
      simp [fit, hsign]
  | bitstring =>
      have hsign : ¬len.toInt < 0 := by omega
      simp [fit, hsign]

/-- A computed length that obeys the rule of the type is refused only if fewer bits are left. -/
lemma fit_fixed {type : FieldType} {n : Int} (hadmits : type.admits n = true) (hrest : n ≠ -1)
    (len : Scalar) :
    fit type (.number n) len = if len.toInt < n then none else some (.number n) := by
  cases type with
  | int =>
      simp only [FieldType.admits, Bool.and_eq_true, decide_eq_true_eq] at hadmits
      have hlow : ¬n < 1 := by omega
      have hhigh : ¬64 < n := by omega
      by_cases hlen : len.toInt < n
      · simp [fit, hlen]
      · simp [fit, hlow, hhigh, hlen]
  | string =>
      obtain ⟨hsign, -, hwhole⟩ := FieldType.admits_measures hadmits hrest
      have hsign : ¬n < 0 := by omega
      simp [fit, hrest, hsign, hwhole rfl]
  | bitstring =>
      obtain ⟨hsign, -, -⟩ := FieldType.admits_measures hadmits hrest
      have hsign : ¬n < 0 := by omega
      simp [fit, hrest, hsign]

variable {names : Names} {lookup lookup' : String → Except Fault Value} {k : String}

/-- A name in the place of a known length makes the same width of what is left. -/
lemma FieldPlan.width_computed_name {plan plan' : FieldPlan} (hmeasured : plan.Measured)
    (htype : plan'.type = plan.type) {n : Int}
    (hlength : plan.length = if n = -1 then .rest else .fixed n)
    (hlength' : plan'.length = .computed (.name k)) (hkept : plan.kept = true)
    (hk : lookup' k = .ok (.int n)) {len : Scalar} (hlen : 0 ≤ len.toInt) :
    plan.width lookup len = plan'.width lookup' len := by
  have hcomputed : plan'.width lookup' len = pure (fit plan.type (.number n) len) := by
    unfold FieldPlan.width
    rw [hlength', htype]
    show (Run.ofExcept (lookup' k) >>= _) = _
    rw [hk]
    rfl
  rw [hcomputed]
  unfold FieldPlan.Measured at hmeasured
  unfold FieldPlan.width
  by_cases hrest : n = -1
  · rw [if_pos hrest] at hlength
    rw [hlength] at hmeasured ⊢
    rw [hrest, fit_rest hmeasured hlen, hkept, Bool.and_true]
  · rw [if_neg hrest] at hlength
    rw [hlength] at hmeasured ⊢
    rw [fit_fixed hmeasured.1 hrest]

/-- A name in the place of a byte order means the same order, the configured one for `native`. -/
lemma eval_computed_name (ctx : Context) {endian : Endian} (hk : lookup' k = .ok (.endian endian)) :
    (lexicalOrder ctx .int (some (.fixed endian))).eval lookup =
      (Order.computed (.name k) ctx.config.nativeEndian).eval lookup' := by
  have hcomputed : (Order.computed (.name k) ctx.config.nativeEndian).eval lookup' =
      .ofExcept (ByteOrder.ofName
        (if endian == .native then ctx.config.nativeEndian else endian.name)) := by
    show (Run.ofExcept (lookup' k) >>= _) = _
    rw [hk]
    rfl
  rw [hcomputed]
  cases endian <;> rfl

/-! ## Planning -/

lemma checkConstant_toOption (type : FieldType) (text text' : String) (c : Constant) :
    (checkConstant type text c).toOption = (checkConstant type text' c).toOption := by
  cases type <;> cases c <;> simp only [checkConstant, Except.toOption]

/-- The text of a field is for messages only. -/
lemma planTest_toOption (type : FieldType) (text text' : String) (p : Pattern) :
    (planTest type text p).toOption = (planTest type text' p).toOption := by
  induction p with
  | wildcard => rfl
  | var x => rfl
  | constant c =>
      rw [planTest, planTest, result_toOption_bind, result_toOption_bind,
        checkConstant_toOption type text text']
  | oneOf c d cs =>
      simp only [planTest, result_toOption_bind, checkConstant_toOption type text text',
        result_toOption_mapM fun c _ => checkConstant_toOption type text text' c]
  | named p x ih => exact ih

variable {ctx ctx' : Context} {field field' : Field}

/-- Only text, length and byte order of a plan change. -/
lemma lexicalField_deferred (h : field.Deferred new field') (hconfig : ctx'.config = ctx.config) :
    lexicalField ctx' field' =
      { lexicalField ctx field with
        text := field'.text
        length := lexicalLength (field'.length.getD (.int 0))
        order := lexicalOrder ctx (lexicalField ctx field).type
          (field'.spec.getD .empty).endian } := by
  have hspec := h.getD.rest
  simp only [lexicalField, FieldPlan.mk.injEq, h.pattern, true_and]
  rw [hspec]
  refine ⟨rfl, rfl, ?_, ?_, rfl, ?_, rfl, rfl⟩
  · unfold lexicalOrder
    rw [hconfig]
  · unfold isRead
    rw [h.pattern]
  · rw [planTest_toOption _ field'.text field.text]

variable {out before : List String} {names' : Names}

/-- A length stays, or it is known and a name stands for it, in a field that is read. -/
lemma length_deferred (h : field.Deferred new field')
    (hnew : ∀ k v, new.lookup k = some v → k ∉ before) :
    let length := (lexicalLength (field.length.getD (.int 0))).rename (localOf before)
    let length' := (lexicalLength (field'.length.getD (.int 0))).rename (localOf before)
    length' = length ∨
      isRead field (field.spec.getD .empty) = true ∧ ∃ (n : Int) (k : String),
        length = (if n = -1 then .rest else .fixed n) ∧ length' = .computed (.name k) ∧
          new.lookup k = some (.int n) := by
  intro length length'
  rcases h.read with ⟨hsame, -⟩ | hread
  · exact .inl (by simp only [length, length', hsame])
  · have hlength := h.length
    simp only [length, length']
    generalize field.length = l at hlength
    generalize field'.length = l' at hlength
    cases hlength with
    | same => exact .inl rfl
    | @name e n k hfold hk =>
        refine .inr ⟨hread, n, k, ?_, ?_, hk⟩
        · show (lexicalLength e).rename (localOf before) = _
          rw [lexicalLength, hfold]
          dsimp only
          split <;> rfl
        · show Length.computed (.name (localOf before k)) = _
          rw [localOf, if_neg (hnew k _ hk)]

/-- A byte order means the same, or a name stands for it. -/
lemma order_deferred (h : field.Deferred new field') (hconfig : ctx'.config = ctx.config)
    (hnames : NamesAgree out names names')
    (hnew : ∀ k v, new.lookup k = some v → k ∉ before ∧ ∀ bound, names' bound k = .ok v)
    (havoids : ((lexicalField ctx field).resolved before).Avoids out)
    {bound bound' : List (String × Value)} (hbound : AgreeOff out bound bound')
    (htype : (lexicalField ctx field).type = .int) :
    ((lexicalField ctx field).resolved before).order.eval (names bound) =
      ((lexicalField ctx' field').resolved before).order.eval (names' bound') := by
  have hsame := havoids.order_eq hnames hbound
  have hendian := h.getD.endian
  have horder : (lexicalField ctx field).order =
      lexicalOrder ctx .int (field.spec.getD .empty).endian := by
    rw [← htype]
    rfl
  rw [lexicalField_deferred h hconfig, htype]
  simp only [FieldPlan.resolved, horder] at hsame ⊢
  generalize (field.spec.getD .empty).endian = endian at hendian hsame ⊢
  generalize (field'.spec.getD .empty).endian = endian' at hendian ⊢
  cases hendian with
  | same => exact hsame
  | @name endian k hk =>
      obtain ⟨hbefore, hvalue⟩ := hnew k _ hk
      have hfixed : (lexicalOrder ctx .int (some (.fixed endian))).rename (localOf before) =
          lexicalOrder ctx .int (some (.fixed endian)) := by
        cases endian <;> rfl
      have hname : (lexicalOrder ctx .int (some (.computed (.name k)))).rename (localOf before) =
          .computed (.name k) ctx.config.nativeEndian := by
        show Order.computed (.name (localOf before k)) _ = _
        rw [localOf, if_neg hbefore]
      rw [hfixed, hname]
      exact eval_computed_name ctx (hvalue bound')

/-- **A field with a name in the place of its length or its byte order** agrees with the field that
it comes from, where the name stands for what it takes the place of. -/
lemma FieldPlan.agree_deferred (h : field.Deferred new field') (hconfig : ctx'.config = ctx.config)
    (hnames : NamesAgree out names names')
    (hnew : ∀ k v, new.lookup k = some v → k ∉ before ∧ ∀ bound, names' bound k = .ok v)
    (hmeasured : ((lexicalField ctx field).resolved before).Measured)
    (havoids : ((lexicalField ctx field).resolved before).Avoids out) :
    ((lexicalField ctx field).resolved before).Agree out names names'
      ((lexicalField ctx' field').resolved before) := by
  have hlength := length_deferred h fun k v hk => (hnew k v hk).1
  have horder := fun htype bound bound' hbound =>
    @order_deferred _ _ _ _ _ _ _ _ _ h hconfig hnames hnew havoids bound bound' hbound htype
  rw [lexicalField_deferred h hconfig] at horder ⊢
  set plan := (lexicalField ctx field).resolved before with hplan
  set plan' := FieldPlan.resolved before { lexicalField ctx field with
    text := field'.text
    length := lexicalLength (field'.length.getD (.int 0))
    order := lexicalOrder ctx (lexicalField ctx field).type (field'.spec.getD .empty).endian }
    with hplan'
  have hlength : plan'.length = plan.length ∨
      plan.kept = true ∧ ∃ (n : Int) (k : String),
        plan.length = (if n = -1 then .rest else .fixed n) ∧ plan'.length = .computed (.name k) ∧
          new.lookup k = some (.int n) := hlength
  -- The value is read in both plans: a length that is known only on a run is deferred where the
  -- value is wanted anyway.
  have hreads : plan.reads = plan'.reads := by
    have htype : plan'.type = plan.type := rfl
    have hkept : plan'.kept = plan.kept := rfl
    unfold FieldPlan.reads
    rw [htype, hkept]
    rcases hlength with hsame | ⟨hread, n, k, hknown, hname, -⟩
    · rw [hsame]
    · rw [hknown, hname, hread]
      cases plan.type <;> split <;> simp_all
  -- Only the width and the byte order can tell the two plans apart.
  refine ⟨rfl, rfl, hreads, fun _ _ => Iff.rfl, rfl, rfl, rfl, rfl, havoids, ?_, horder⟩
  intro bound bound' hbound len hlen
  rcases hlength with hsame | ⟨hread, n, k, hknown, hname, hk⟩
  · rw [havoids.width_eq hnames hbound len]
    unfold FieldPlan.width
    rw [hsame]
    rfl
  · have htype : plan'.type = plan.type := rfl
    exact FieldPlan.width_computed_name hmeasured htype hknown hname hread
      ((hnew k _ hk).2 bound') hlen

/-! ## Cases -/

lemma forall₂_takeWhile {α β : Type} {R : α → β → Prop} {p : α → Bool} {q : β → Bool}
    (hpq : ∀ a b, R a b → p a = q b) {xs : List α} {ys : List β} (h : List.Forall₂ R xs ys) :
    List.Forall₂ R (xs.takeWhile p) (ys.takeWhile q) := by
  induction h with
  | nil => exact .nil
  | @cons a b xs ys hab _ ih =>
      rw [List.takeWhile_cons, List.takeWhile_cons, ← hpq a b hab]
      split
      · exact .cons hab ih
      · exact .nil

variable {c c' : Case}

lemma effectiveFields_deferred (h : c.Deferred new c') :
    List.Forall₂ (Field.Deferred new) (effectiveFields c) (effectiveFields c') := by
  refine forall₂_takeWhile ?_ h.fields
  intro field field' hfield
  have hnone : field'.length.isNone = field.length.isNone := by
    have hlength := hfield.length
    generalize field.length = l at hlength
    generalize field'.length = l' at hlength
    cases hlength <;> rfl
  rw [Field.isRest, Field.isRest, hfield.pattern, hnone]

/-- The names that fields bind stay. -/
lemma patterns_deferred {fields fields' : List Field}
    (h : List.Forall₂ (Field.Deferred new) fields fields') :
    fields'.map Field.pattern = fields.map Field.pattern := by
  induction h with
  | nil => rfl
  | cons hfield _ ih => rw [List.map_cons, List.map_cons, ih, hfield.pattern]

/-- The fields bind the same names. -/
lemma names_deferred {fields fields' : List Field}
    (h : List.Forall₂ (Field.Deferred new) fields fields') :
    (fields'.flatMap fun field => field.pattern.names) =
      fields.flatMap fun field => field.pattern.names := by
  have hpatterns := congrArg (List.flatMap Pattern.names) (patterns_deferred h)
  rwa [List.flatMap_map, List.flatMap_map] at hpatterns

lemma lexicalBody_deferred (h : c.Deferred new c') : lexicalBody c' = lexicalBody c := by
  have hnames : boundNames c' = boundNames c := by
    rw [boundNames, boundNames, names_deferred (effectiveFields_deferred h)]
  exact (lexicalBody_congr h.body fun callable _ => bodyArguments_congr (.inl hnames)).1

lemma resolvedFields_deferred {fields fields' : List Field}
    (h : List.Forall₂ (Field.Deferred new) fields fields') (hconfig : ctx'.config = ctx.config)
    (hnames : NamesAgree out names names')
    (hbefore : ∀ k v, new.lookup k = some v → k ∉ before)
    (hlocals : ∀ k v, new.lookup k = some v →
      k ∉ (fields.map (lexicalField ctx)).flatMap FieldPlan.locals)
    (hvalues : ∀ k v, new.lookup k = some v → ∀ bound, names' bound k = .ok v)
    (hplans : ∀ plan ∈ resolvedFields before (fields.map (lexicalField ctx)),
      plan.Measured ∧ plan.Avoids out) :
    List.Forall₂ (FieldPlan.Agree out names names')
      (resolvedFields before (fields.map (lexicalField ctx)))
      (resolvedFields before (fields'.map (lexicalField ctx'))) := by
  induction h generalizing before with
  | nil => exact .nil
  | @cons field field' fields fields' hfield _ ih =>
      simp only [List.map_cons, resolvedFields, List.forall_mem_cons] at hplans ⊢
      obtain ⟨⟨hmeasured, havoids⟩, hplans⟩ := hplans
      simp only [List.map_cons, List.flatMap_cons, List.mem_append, not_or] at hlocals
      have hafter : (lexicalField ctx' field').namesAfter before =
          (lexicalField ctx field).namesAfter before := by
        show field'.pattern.names.reverse ++ before = field.pattern.names.reverse ++ before
        rw [hfield.pattern]
      rw [hafter]
      refine .cons ?_ (ih ?_ (fun k v hk => (hlocals k v hk).2) hplans)
      · exact FieldPlan.agree_deferred hfield hconfig hnames
          (fun k v hk => ⟨hbefore k v hk, hvalues k v hk⟩) hmeasured havoids
      · intro k v hk
        rw [FieldPlan.namesAfter, List.mem_append, List.mem_reverse, not_or]
        exact ⟨(hlocals k v hk).1, hbefore k v hk⟩

lemma namesAfter_deferred {fields fields' : List Field}
    (h : List.Forall₂ (Field.Deferred new) fields fields') :
    namesAfter before (fields'.map (lexicalField ctx')) =
      namesAfter before (fields.map (lexicalField ctx)) := by
  have hpatterns : ∀ (ctx : Context) (fields : List Field),
      namesAfter before (fields.map (lexicalField ctx)) =
        (fields.map Field.pattern).foldl (fun names p => p.names.reverse ++ names) before := by
    intro ctx fields
    rw [namesAfter, List.foldl_map, List.foldl_map]
    rfl
  rw [hpatterns, hpatterns, patterns_deferred h]

lemma mem_of_lookup {entries : List (String × Value)} {x : String} {v : Value}
    (h : entries.lookup x = some v) : x ∈ entries.map Prod.fst := by
  by_contra hnot
  rw [lookup_eq_none hnot] at h
  cases h

/-- **A case with names in the place of known lengths and byte orders** runs like the case that it
comes from, where the case does not mention the names. -/
lemma CasePlan.run_deferred (h : c.Deferred new c') (hconfig : ctx'.config = ctx.config)
    (hfree : ∀ k ∈ new.map Prod.fst, (lexicalCase ctx c).FreeOf k)
    (hmeasured : ∀ field ∈ (lexicalCase ctx c).resolved.fields, field.Measured)
    {globals globals' : List (String × Value)}
    (hglobals : AgreeOff (new.map Prod.fst) globals globals')
    (hvalues : ∀ k v, new.lookup k = some v → k ≠ constantName ∧ globals'.lookup k = some v)
    (subject : Bitstring) :
    (lexicalCase ctx c).resolved.run globals subject =
      (lexicalCase ctx' c').resolved.run globals' subject := by
  have hfields := effectiveFields_deferred h
  have hlocals : (lexicalCase ctx' c').locals = (lexicalCase ctx c).locals := by
    show List.flatMap FieldPlan.locals _ = List.flatMap FieldPlan.locals _
    rw [lexicalCase, lexicalCase, locals_lexicalFields, locals_lexicalFields,
      names_deferred hfields]
  have hresolved : ∀ lexical : CasePlan, lexical.resolved.locals = lexical.locals.map localName :=
    fun lexical => locals_resolvedFields lexical.fields
  -- Outside the new names the two frames say the same.
  have hnames : NamesAgree (new.map Prod.fst)
      (Frame.lookup ⟨(lexicalCase ctx c).resolved.locals, globals⟩)
      (Frame.lookup ⟨(lexicalCase ctx' c').resolved.locals, globals'⟩) := by
    refine namesAgree_lookup ?_ fun x hx _ => hglobals x hx
    rw [hresolved, hresolved, hlocals]
    exact fun _ _ => Iff.rfl
  -- And the new names stand for what they take the place of, since no local hides them.
  have hlookup : ∀ k v, new.lookup k = some v → ∀ bound,
      Frame.lookup ⟨(lexicalCase ctx' c').resolved.locals, globals'⟩ bound k = .ok v := by
    intro k v hk bound
    obtain ⟨hconstant, hglobal⟩ := hvalues k v hk
    have hlocal : k ∉ (lexicalCase ctx' c').resolved.locals := by
      rw [hresolved, hlocals]
      exact (hfree k (mem_of_lookup hk)).not_local
    rw [lookup_global hconstant hlocal, hglobal]
    rfl
  obtain ⟨havoids, hbody⟩ := avoids_of_free hfree
  refine CasePlan.runWith_agree_of (runFields_agree hnames ?_ hmeasured (State.start_agree subject)
    (State.start_within subject)) ?_
  · refine resolvedFields_deferred hfields hconfig hnames (by simp) ?_ hlookup ?_
    · intro k v hk
      exact (hfree k (mem_of_lookup hk)).not_bound
    · intro plan hplan
      exact ⟨hmeasured plan hplan, havoids plan hplan⟩
  · intro bound bound' hbound
    have hsame : (lexicalCase ctx' c').resolved.body = (lexicalCase ctx c).resolved.body := by
      show (lexicalBody c').resolved _ = (lexicalBody c).resolved _
      rw [lexicalBody_deferred h]
      exact congrArg (fun names => BodyPlan.resolved names (lexicalBody c))
        (namesAfter_deferred hfields)
    rw [hsame]
    exact BodyPlan.run_agree hnames hbody hbound

/-! ## Matchers -/

/-- A name that cases know nothing of: none of them mentions it, and it is neither the name of the
constant nor that of the tuple of cases, which stand for something already. -/
structure Fresh (config : Config) (cases : List Case) (k : String) : Prop where
  not_constant : k ≠ constantName
  not_cases : k ≠ Matcher.casesName
  free : ∀ c ∈ cases, (lexicalCase (Matcher.context config []) c).FreeOf k

/-- The environment of a matcher with more names agrees with that of the matcher on all others. -/
lemma globalsOf_agree {plans plans' : List CasePlan}
    (hindex : plans.map CasePlan.index = plans'.map CasePlan.index)
    (env : List (String × Value)) :
    AgreeOff (new.map Prod.fst) (Matcher.globalsOf plans env)
      (Matcher.globalsOf plans' (new ++ env)) := by
  intro x hx
  rw [Matcher.globalsOf_congr hindex, Matcher.globalsOf, Matcher.globalsOf, List.cons_append,
    List.cons_append, lookup_cons_eq, lookup_cons_eq, List.append_assoc, lookup_append new,
    lookup_eq_none hx, Option.none_or]

lemma lookup_globalsOf_new {plans : List CasePlan} {env : List (String × Value)} {v : Value}
    (hcases : k ≠ Matcher.casesName) (hk : new.lookup k = some v) :
    (Matcher.globalsOf plans (new ++ env)).lookup k = some v := by
  rw [Matcher.globalsOf, List.cons_append, lookup_cons_eq, if_neg hcases, List.append_assoc,
    lookup_append, hk, Option.some_or]

/-- Two matchers of which the second defers what the first knows, plan by plan. -/
lemma planned_deferred {config : Config} {env env' : List (String × Value)}
    {cases cases' : List Case} {m m' : Matcher} (hm : Matcher.ofNumbered config env cases = .ok m)
    (hm' : Matcher.ofNumbered config env' cases' = .ok m')
    (hcases : List.Forall₂ (Case.Deferred new) cases cases') :
    m.plans.length = m'.plans.length ∧
      ∀ i (hi : i < m.plans.length) (hi' : i < m'.plans.length),
        ∃ c ∈ cases, ∃ c', c.Deferred new c' ∧
          planCase (Matcher.context config env) c = .ok m.plans[i] ∧
          planCase (Matcher.context config env') c' = .ok m'.plans[i] := by
  obtain ⟨-, hplans, -, -⟩ := Matcher.ofNumbered_eq_ok hm
  obtain ⟨-, hplans', -, -⟩ := Matcher.ofNumbered_eq_ok hm'
  have hlength := hplans.length_eq
  have hlength' := hplans'.length_eq
  have hcount := hcases.length_eq
  refine ⟨by omega, ?_⟩
  intro i hi hi'
  have hc : i < cases.length := by omega
  have hc' : i < cases'.length := by omega
  exact ⟨cases[i], List.getElem_mem hc, cases'[i], hcases.get hc hc', hplans.get hc hi,
    hplans'.get hc' hi'⟩

lemma index_deferred {config : Config} {env env' : List (String × Value)} {cases cases' : List Case}
    {m m' : Matcher} (hm : Matcher.ofNumbered config env cases = .ok m)
    (hm' : Matcher.ofNumbered config env' cases' = .ok m')
    (hcases : List.Forall₂ (Case.Deferred new) cases cases') :
    m.plans.map CasePlan.index = m'.plans.map CasePlan.index := by
  obtain ⟨hlength, hplanned⟩ := planned_deferred hm hm' hcases
  refine List.ext_getElem (by rwa [List.length_map, List.length_map]) ?_
  intro i hi hi'
  rw [List.length_map] at hi hi'
  obtain ⟨c, -, c', hdeferred, hplan, hplan'⟩ := hplanned i hi hi'
  obtain ⟨-, -, -, hindex, -⟩ := planCase_eq_ok hplan
  obtain ⟨-, -, -, hindex', -⟩ := planCase_eq_ok hplan'
  rw [List.getElem_map, List.getElem_map, hindex, hindex', hdeferred.index]

/-- **What is known before a run and what is found out on it agree.**  In any number of fields of
any number of cases, a known length or byte order may be given by a fresh name of the environment
that stands for it, if the value of the field is read: whenever both lists of cases have a matcher,
the two make the same of every subject, with the same calls, the same case, the same value and the
same faults.  -/
theorem tryMatch_deferred {config : Config} {env : List (String × Value)} {cases cases' : List Case}
    {m m' : Matcher} (hm : Matcher.ofNumbered config env cases = .ok m)
    (hm' : Matcher.ofNumbered config (new ++ env) cases' = .ok m')
    (hcases : List.Forall₂ (Case.Deferred new) cases cases')
    (hfresh : ∀ k ∈ new.map Prod.fst, Fresh config cases k) (v : Value) :
    m'.tryMatch v = m.tryMatch v := by
  obtain ⟨-, -, -, hglobals⟩ := Matcher.ofNumbered_eq_ok hm
  obtain ⟨-, -, -, hglobals'⟩ := Matcher.ofNumbered_eq_ok hm'
  obtain ⟨hlength, hplanned⟩ := planned_deferred hm hm' hcases
  have hindex := index_deferred hm hm' hcases
  -- Case by case the runs are the same.
  have hruns : ∀ i (hi : i < m.plans.length) (hi' : i < m'.plans.length) (subject : Bitstring),
      m.plans[i].run m.globals subject = m'.plans[i].run m'.globals subject := by
    intro i hi hi' subject
    obtain ⟨c, hc, c', hdeferred, hplan, hplan'⟩ := hplanned i hi hi'
    obtain ⟨hresolved, -⟩ := planCase_eq_resolved hplan
    obtain ⟨hresolved', -⟩ := planCase_eq_resolved hplan'
    have hmeasured := measured_of_mem hm (List.getElem_mem hi)
    rw [hresolved] at hmeasured
    rw [hresolved, hresolved', hglobals, hglobals']
    refine CasePlan.run_deferred hdeferred rfl ?_ (fun field hfield => (hmeasured field hfield).1)
      (globalsOf_agree hindex env) ?_ subject
    · intro k hk
      exact (hfresh k hk).free c hc
    · intro k v hk
      have hmem := mem_of_lookup hk
      exact ⟨(hfresh k hmem).not_constant, lookup_globalsOf_new (hfresh k hmem).not_cases hk⟩
  have hfunctions : m'.functions = m.functions := by
    unfold Matcher.functions
    refine List.ext_getElem (by rw [List.length_map, List.length_map, hlength]) ?_
    intro i hi' hi
    rw [List.length_map] at hi hi'
    rw [List.getElem_map, List.getElem_map]
    exact funext fun subject => (hruns i hi hi' subject).symm
  unfold Matcher.tryMatch
  rw [hfunctions]

/-- An integer with the least significant byte first, and a string that takes the rest. -/
def knownCase : Case where
  fieldsText := "n:16:littleendian, s:-1:string"
  fields := [
    ⟨.var "n", some (.int 16),
      some { valueType := some .int, sign := some .unsigned, endian := some (.fixed .little) },
      "n:16:littleendian"⟩,
    ⟨.var "s", some (.int (-1)), some { valueType := some .string }, "s:-1:string"⟩]
  body := .expr (.tuple [.name "n", .name "s"])
  index := 0

/-- The same with both lengths and the byte order given by name. -/
def deferredCase : Case where
  fieldsText := "n:w:endian(k), s:r:string"
  fields := [
    ⟨.var "n", some (.name "w"),
      some { valueType := some .int, sign := some .unsigned,
             endian := some (.computed (.name "k")) },
      "n:w:endian(k)"⟩,
    ⟨.var "s", some (.name "r"), some { valueType := some .string }, "s:r:string"⟩]
  body := .expr (.tuple [.name "n", .name "s"])
  index := 0

/-- What the names of the deferred case stand for. -/
def knownValues : List (String × Value) :=
  [("w", .int 16), ("k", .endian .little), ("r", .int (-1))]

/-- A length of sixteen, a byte order and a length of -1, each known and by name. -/
theorem tryMatch_deferred_known :
    ∃ m m', Matcher.ofNumbered {} [] [knownCase] = .ok m ∧
      Matcher.ofNumbered {} (knownValues ++ []) [deferredCase] = .ok m' ∧
      ∀ v, m'.tryMatch v = m.tryMatch v := by
  obtain ⟨plan, hplan, hlocals⟩ : ∃ plan, planCases (Matcher.context {} []) [knownCase] =
      .ok [plan] ∧ constantName ∉ plan.locals := ⟨_, rfl, by decide⟩
  obtain ⟨plan', hplan', hlocals'⟩ : ∃ plan,
      planCases (Matcher.context {} (knownValues ++ [])) [deferredCase] = .ok [plan] ∧
        constantName ∉ plan.locals := ⟨_, rfl, by decide⟩
  have hm := Matcher.ofNumbered_singleton hplan (by simp)
    (by simp [knownCase, effectiveFields, Field.isRest]) hlocals
  have hm' := Matcher.ofNumbered_singleton hplan' (by simp)
    (by simp [deferredCase, effectiveFields, Field.isRest]) hlocals'
  have hdeferred : knownCase.Deferred knownValues deferredCase := by
    refine ⟨.cons ?_ (.cons ?_ .nil), rfl, rfl⟩
    · exact ⟨rfl, .name rfl rfl, .some ⟨.name rfl, rfl⟩, .inr rfl⟩
    · exact ⟨rfl, .name rfl rfl, .some ⟨.same _, rfl⟩, .inr rfl⟩
  have hfresh : ∀ k ∈ knownValues.map Prod.fst, Fresh {} [knownCase] k := by
    intro k hk
    have hnames : ∀ k ∈ knownValues.map Prod.fst, k ≠ constantName ∧ k ≠ Matcher.casesName ∧
        ∀ c ∈ [knownCase], (lexicalCase (Matcher.context {} []) c).FreeOf k := by
      decide
    exact ⟨(hnames k hk).1, (hnames k hk).2.1, (hnames k hk).2.2⟩
  exact ⟨_, _, hm, hm', tryMatch_deferred hm hm' (.cons hdeferred .nil) hfresh⟩

/-- A byte behind one that is called by a reserved word. -/
def reservedCase : Case where
  fieldsText := "class:8, a:8"
  fields := [
    ⟨.var "class", some (.int 8), some .default, "class:8"⟩,
    ⟨.var "a", some (.int 8), some .default, "a:8"⟩]
  body := .expr (.name "a")
  index := 0

/-- The same with the last length given by the local of the reserved word. -/
def capturedCase : Case where
  fieldsText := "class:8, a:class_"
  fields := [
    ⟨.var "class", some (.int 8), some .default, "class:8"⟩,
    ⟨.var "a", some (.name "class_"), some .default, "a:class_"⟩]
  body := .expr (.name "a")
  index := 0

/-- A name that occurs nowhere in a case may still be the local of one that does.  It does not stand
for its value in the environment then, and the length is another. -/
theorem captured_length_differs :
    ∃ m m', Matcher.ofNumbered {} [] [reservedCase] = .ok m ∧
      Matcher.ofNumbered {} ([("class_", .int 8)] ++ []) [capturedCase] = .ok m' ∧
      reservedCase.Deferred [("class_", .int 8)] capturedCase ∧
      "class_" ∉ (lexicalCase (Matcher.context {} []) reservedCase).locals ∧
      (∀ use ∈ (lexicalCase (Matcher.context {} []) reservedCase).uses,
        "class_" ∉ use.2.freeNames) ∧
      (m.tryMatch (.ofBytes [2, 1])).result = .ok ⟨some (0, .int 1)⟩ ∧
      (m'.tryMatch (.ofBytes [2, 1])).result = .ok ⟨some (0, .int 0)⟩ := by
  -- Both cases are planned and run on the subject as they are.
  obtain ⟨plan, hplan, hlocals, hrun⟩ : ∃ plan,
      planCases (Matcher.context {} []) [reservedCase] = .ok [plan] ∧
        constantName ∉ plan.locals ∧
        ∀ m : Matcher, m.plans = [plan] → m.globals = Matcher.globalsOf [plan] [] →
          (m.tryMatch (.ofBytes [2, 1])).result = .ok ⟨some (0, .int 1)⟩ := by
    refine ⟨_, rfl, by decide, ?_⟩
    rintro ⟨config, cases, plans, globals⟩ rfl rfl
    rfl
  obtain ⟨plan', hplan', hlocals', hrun'⟩ : ∃ plan,
      planCases (Matcher.context {} ([("class_", .int 8)] ++ [])) [capturedCase] = .ok [plan] ∧
        constantName ∉ plan.locals ∧
        ∀ m : Matcher, m.plans = [plan] →
          m.globals = Matcher.globalsOf [plan] ([("class_", .int 8)] ++ []) →
            (m.tryMatch (.ofBytes [2, 1])).result = .ok ⟨some (0, .int 0)⟩ := by
    refine ⟨_, rfl, by decide, ?_⟩
    rintro ⟨config, cases, plans, globals⟩ rfl rfl
    rfl
  have hm := Matcher.ofNumbered_singleton hplan (by simp)
    (by simp [reservedCase, effectiveFields, Field.isRest]) hlocals
  have hm' := Matcher.ofNumbered_singleton hplan' (by simp)
    (by simp [capturedCase, effectiveFields, Field.isRest]) hlocals'
  have hdeferred : reservedCase.Deferred [("class_", .int 8)] capturedCase := by
    refine ⟨.cons ?_ (.cons ?_ .nil), rfl, rfl⟩
    · exact ⟨rfl, .same _, .some ⟨.same _, rfl⟩, .inr rfl⟩
    · exact ⟨rfl, .name rfl rfl, .some ⟨.same _, rfl⟩, .inr rfl⟩
  exact ⟨_, _, hm, hm', hdeferred, by decide, by decide, hrun _ rfl rfl, hrun' _ rfl rfl⟩

end Plan

end BitPattern
