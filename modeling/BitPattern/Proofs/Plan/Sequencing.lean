import BitPattern.Proofs.Plan.Admitted
import BitPattern.Proofs.Plan.Alone
import BitPattern.Proofs.Text.Name

/-!
# Fields one list after the other

Matching two lists of fields one after the other is matching the first list, with one more field
that takes what is left of the subject, and then the second list on what is left.  The second case
knows the names of the first one from its environment (`matches_in_sequence`).

Three things have to hold for this.  The first list must not mention names of the second one, as it
would ask the environment for them if it stood alone.  The names of the first list must be their own
locals, so that an environment can have them, and may not be that of the tuple of functions, which
never comes from the environment.  And the second list must not jump, as offsets are counted from
the start of the subject.

Planning splits at the boundary because what is known there as a bound name is known as a name of
the environment instead (`planned_after`), and running does because the values that are bound
there ride along untouched (`runOn_framed`).
-/

namespace BitPattern

open Plan BitPattern.Text

/-! ## Lists of fields that can be cut -/

namespace Field

/-- Some expression of a field has the name. -/
def Mentions (field : Field) (x : String) : Prop :=
  ∃ e ∈ field.outerExprs ++ field.innerExprs, x ∈ e.freeNames

instance (field : Field) (x : String) : Decidable (field.Mentions x) :=
  inferInstanceAs (Decidable (∃ e ∈ field.outerExprs ++ field.innerExprs, x ∈ e.freeNames))

/-- Two lists of fields of which the second one can be matched on what the first one leaves. -/
structure InSequence (before after : List Field) : Prop where
  no_rest : ∀ field ∈ before ++ after, field.isRest = false
  no_jump : ∀ field ∈ after, field.spec.bind Spec.offset = none
  distinct : (namesOf (before ++ after)).Nodup
  plain : ∀ x ∈ namesOf (before ++ after), localName x = x ∧ x ≠ Matcher.casesName
  /-- No field mentions a name that a later one binds. -/
  ordered : (before ++ after).Pairwise fun field later =>
    ∀ x ∈ later.pattern.names, ¬field.Mentions x

/-- A field that binds all that is left of the subject to a name. -/
structure TakesRest (field : Field) (x : String) : Prop where
  pattern : field.pattern = .var x
  length : ∃ e, field.length = some e ∧ e.fold? = some (-1)
  spec : ∃ spec, field.spec = some spec ∧ spec.valueType = some .bitstring ∧ spec.bind = none ∧
    spec.check = none ∧ spec.offset = none
  printable : NulFree field.text

/-- A name that is its own local, and that no field of a list binds or mentions. -/
structure Fresh (fields : List Field) (x : String) : Prop where
  plain : localName x = x
  not_constant : x ≠ constantName
  not_bound : x ∉ namesOf fields
  not_mentioned : ∀ field ∈ fields, ¬field.Mentions x

end Field

namespace Plan

variable {config : Config} {env : List (String × Value)} {ctx : Context}
  {fields before after : List Field} {bound : List String} {e : Expr}

/-! ## Planning one list after the other -/

lemma planFields_append_eq_ok {scope scope' : Scope} {plans : List FieldPlan} :
    planFields ctx scope (before ++ after) = .ok (plans, scope') ↔
      ∃ first middle last, plans = first ++ last ∧
        planFields ctx scope before = .ok (first, middle) ∧
          planFields ctx middle after = .ok (last, scope') := by
  induction before generalizing scope plans with
  | nil => simp [planFields]
  | cons field before ih =>
      rw [List.cons_append, planFields_cons_eq_ok]
      constructor
      · rintro ⟨plan, inner, _, rfl, hfield, hfields⟩
        obtain ⟨first, middle, last, rfl, hbefore, hafter⟩ := ih.mp hfields
        exact ⟨plan :: first, middle, last, rfl,
          planFields_cons_eq_ok.mpr ⟨plan, inner, first, rfl, hfield, hbefore⟩, hafter⟩
      · rintro ⟨_, middle, last, rfl, hbefore, hafter⟩
        obtain ⟨plan, inner, first, rfl, hfield, hbefore⟩ := planFields_cons_eq_ok.mp hbefore
        exact ⟨plan, inner, first ++ last, rfl, hfield,
          ih.mpr ⟨first, middle, last, rfl, hbefore, hafter⟩⟩

section Rest

variable {rest : Field} {x : String}

lemma takesRest_lexical (h : rest.TakesRest x) : (lexicalField ctx rest).TakesRest x := by
  obtain ⟨hpattern, ⟨length, hlength, hfold⟩, ⟨spec, hspec, htype, hbind, hcheck, hoffset⟩, -⟩ := h
  constructor <;>
    simp [lexicalField, lexicalLength, isRead, planTest, Except.toOption, Pattern.names, hpattern,
      hlength, hfold, hspec, htype, hbind, hcheck, hoffset]

/-- A field that takes the rest is planned in every scope. -/
lemma planFields_takesRest (h : rest.TakesRest x) (scope : Scope) :
    ∃ plans inner, planFields ctx scope [rest] = .ok (plans, inner) := by
  obtain ⟨hpattern, ⟨length, hlength, hfold⟩, ⟨spec, hspec, htype, hbind, hcheck, hoffset⟩, -⟩ := h
  have hplanned : Planned ctx scope rest length spec .bitstring {
      text := rest.text, type := .bitstring, length := .rest, signed := spec.isSigned
      order := .named "big", kept := isRead rest spec
      locals := rest.pattern.names.map localName
      rebind := none, test := none, check := none, jump := none } := by
    refine ⟨rfl, ?_, ?_, rfl, ?_, rfl, rfl, rfl, rfl, ?_, ?_, ?_, ?_⟩
    · intro n hn
      rw [hfold] at hn
      cases hn
      rfl
    · simp [checkPattern, hpattern, bindsOnly]
    · rw [hfold]
      rfl
    · rw [hbind]
      rfl
    · rw [hpattern]
      rfl
    · rw [hcheck]
      rfl
    · rw [hoffset]
      rfl
  exact ⟨_, _, planFields_cons_eq_ok.mpr
    ⟨_, _, _, rfl, hplanned.planField_eq hlength hspec htype, rfl⟩⟩

/-- The same is known where some names are bound as where they are in the environment instead. -/
lemma moreKnown_append {names env : List String} (hbound : ∀ y, y ∈ bound ↔ y ∈ names) :
    MoreKnown bound env [] (names ++ env) ∧ MoreKnown [] (names ++ env) bound env := by
  constructor
  · rintro y (hy | hy | hy)
    · exact .inr (.inl (List.mem_append_left _ ((hbound y).mp hy)))
    · exact .inr (.inl (List.mem_append_right _ hy))
    · exact .inr (.inr hy)
  · rintro y (hy | hy | hy)
    · cases hy
    · rcases List.mem_append.mp hy with hy | hy
      · exact .inl ((hbound y).mpr hy)
      · exact .inr (.inl hy)
    · exact .inr (.inr hy)

/-- The expression that only gives the values of some names. -/
def valuesOf (names : List String) : Expr :=
  .tuple (names.map Expr.name)

lemma mem_freeNames_valuesOf {names : List String} {y : String} :
    y ∈ (valuesOf names).freeNames ↔ y ∈ names := by
  simp [valuesOf]

/-- The second list is planned behind the first one exactly if it is planned alone, where the names
of the first one are in the environment. -/
lemma planned_after {first : List FieldPlan} {middle : Scope} {env : List String}
    (hbefore : planFields ctx [] before = .ok (first, middle))
    (henv : env = Field.namesOf before ++ ctx.env) :
    (∃ plans scope, planFields ctx middle after = .ok (plans, scope)) ↔
      ∃ plans scope, planFields ⟨ctx.config, env⟩ [] after = .ok (plans, scope) := by
  obtain ⟨bound, hholds, hbound⟩ := known_after hbefore
  obtain ⟨hmore, hmore'⟩ := @moreKnown_append bound (Field.namesOf before) ctx.env hbound
  rw [← henv] at hmore hmore'
  rw [planFields_eq_ok_iff hholds, planFields_eq_ok_iff Scope.holds_nil]
  exact and_congr_right fun _ =>
    ⟨.mono (usesOf_moreKnown hmore _), .mono (usesOf_moreKnown hmore' _)⟩

lemma namesOf_append (before after : List Field) :
    Field.namesOf (before ++ after) = Field.namesOf before ++ Field.namesOf after :=
  List.flatMap_append ..

lemma namesOf_takesRest (hrest : rest.TakesRest x) : Field.namesOf [rest] = [x] := by
  simp [Field.namesOf, hrest.pattern, Pattern.names]

lemma namesOf_zip {names : List String} {values : List Value}
    (hvalues : values.length = names.length) (env : List (String × Value)) :
    (names.zip values ++ env).map Prod.fst = names ++ env.map Prod.fst := by
  rw [List.map_append, List.map_fst_zip hvalues.ge]

/-- A name is known behind two lists of fields exactly if it is behind the second one, where the
names of the first one are in the environment. -/
lemma known_append (env : List String) (y : String) :
    Known (Field.namesOf (before ++ after)) env y ↔
      Known (Field.namesOf after) (Field.namesOf before ++ env) y := by
  simp only [namesOf_append, Known, List.mem_append]
  tauto

variable {values : List Value}

lemma measured_of_planned
    (hplanned : ∃ plans scope, planFields ctx [] fields = .ok (plans, scope)) :
    ∀ plan ∈ fields.map (lexicalField ctx), plan.Measured ∧ plan.Binds := by
  obtain ⟨plans, scope, hplans⟩ := hplanned
  obtain ⟨-, rfl, -, -⟩ := planFields_eq_resolved Scope.holds_nil hplans
  refine @of_resolvedFields [] _ fun plan hplan => ?_
  obtain ⟨field, -, before, after, hfield⟩ := mem_planFields hplans hplan
  obtain ⟨length, spec, type, -, -, -, -, hplanned⟩ := planField_eq_ok hfield
  exact ⟨hplanned.measured, hplanned.binds⟩

/-- What the parts of two lists of fields have from a matcher of both. -/
lemma Compiles.parts (h : Compiles config env (before ++ after) e) :
    (∃ plans scope, planFields (Matcher.context config env) [] before = .ok (plans, scope)) ∧
      (∀ plan ∈ after.map (lexicalField (Matcher.context config env)), plan.Binds) ∧
      constantName ∉ Field.namesOf before := by
  obtain ⟨plans, scope, hplans⟩ := h.planned
  obtain ⟨first, middle, last, -, hbefore, -⟩ := planFields_append_eq_ok.mp hplans
  refine ⟨⟨first, middle, hbefore⟩, fun plan hplan => ?_, fun hmem => h.loadable ?_⟩
  · refine (measured_of_planned h.planned plan ?_).2
    rw [List.map_append]
    exact List.mem_append_right _ hplan
  · rw [namesOf_append]
    exact List.mem_append_left _ hmem

/-- A case of two lists of fields makes a matcher only if the first list does, with a field that
takes the rest. -/
lemma Compiles.first (h : Compiles config env (before ++ after) e) (hrest : rest.TakesRest x)
    (hfresh : Field.Fresh before x) :
    Compiles config env (before ++ [rest]) (valuesOf (Field.namesOf before ++ [x])) := by
  obtain ⟨plans, scope, hplans⟩ := h.planned
  obtain ⟨first, middle, last, rfl, hbefore, -⟩ := planFields_append_eq_ok.mp hplans
  obtain ⟨restPlans, inner, hrestPlans⟩ := planFields_takesRest hrest middle
  have hnames : Field.namesOf (before ++ [rest]) = Field.namesOf before ++ [x] := by
    rw [namesOf_append, namesOf_takesRest hrest]
  have hloadable := h.loadable
  rw [namesOf_append, List.mem_append, not_or] at hloadable
  refine ⟨h.configured, h.accepted, h.filename, ?_,
    ⟨_, inner, planFields_append_eq_ok.mpr ⟨first, middle, restPlans, rfl, hbefore, hrestPlans⟩⟩,
    ?_, ?_⟩
  · exact List.forall_mem_append.mpr
      ⟨(List.forall_mem_append.mp h.printable).1, by simpa using hrest.printable⟩
  · intro y hy
    rw [mem_freeNames_valuesOf] at hy
    exact .inl (hnames ▸ hy)
  · rw [hnames, List.mem_append, List.mem_singleton]
    exact not_or.mpr ⟨hloadable.1, hfresh.not_constant.symm⟩

/-- It does so only if the second list does, where the names of the first one have values. -/
lemma Compiles.second (h : Compiles config env (before ++ after) e)
    (hseq : Field.InSequence before after)
    (hvalues : values.length = (Field.namesOf before).length) :
    Compiles config ((Field.namesOf before).zip values ++ env) after e := by
  obtain ⟨plans, scope, hplans⟩ := h.planned
  obtain ⟨first, middle, last, rfl, hbefore, hafter⟩ := planFields_append_eq_ok.mp hplans
  have henv := namesOf_zip hvalues env
  have hloadable := h.loadable
  rw [namesOf_append, List.mem_append, not_or] at hloadable
  refine ⟨h.configured, ?_, h.filename, (List.forall_mem_append.mp h.printable).2,
    (planned_after hbefore henv).mp ⟨last, scope, hafter⟩, ?_, hloadable.2⟩
  · rw [henv, checkEnv_eq_ok]
    refine List.forall_mem_append.mpr ⟨fun y hy => ?_, checkEnv_eq_ok.mp h.accepted⟩
    have hplain := (hseq.plain y (namesOf_append before after ▸ List.mem_append_left _ hy)).1
    exact (localName_eq_self.mp hplain).1
  · intro y hy
    rw [henv]
    exact (known_append _ y).mp (h.known y hy)

/-- If both do then so does the case of two lists. -/
lemma compiles_append (hvalues : values.length = (Field.namesOf before).length)
    (hfirst : Compiles config env (before ++ [rest]) (valuesOf (Field.namesOf before ++ [x])))
    (hsecond : Compiles config ((Field.namesOf before).zip values ++ env) after e) :
    Compiles config env (before ++ after) e := by
  obtain ⟨plans, scope, hplans⟩ := hfirst.planned
  obtain ⟨first, middle, _, rfl, hbefore, -⟩ := planFields_append_eq_ok.mp hplans
  have henv := namesOf_zip hvalues env
  obtain ⟨last, inner, hafter⟩ := (planned_after hbefore henv).mpr hsecond.planned
  have hloadable := hfirst.loadable
  rw [namesOf_append, List.mem_append, not_or] at hloadable
  refine ⟨hfirst.configured, hfirst.accepted, hfirst.filename, List.forall_mem_append.mpr
      ⟨(List.forall_mem_append.mp hfirst.printable).1, hsecond.printable⟩,
    ⟨_, inner, planFields_append_eq_ok.mpr ⟨first, middle, last, rfl, hbefore, hafter⟩⟩, ?_, ?_⟩
  · intro y hy
    exact (known_append _ y).mpr (henv ▸ hsecond.known y hy)
  · rw [namesOf_append, List.mem_append]
    exact not_or.mpr ⟨hloadable.1, hsecond.loadable⟩

/-! ## Running one list after the other -/

/-- The first list runs the same before either rest of the case, but for names that it does not
mention. -/
lemma runFields_before_agree (h : Field.InSequence before after) (hrest : rest.TakesRest x)
    (hfresh : Field.Fresh before x)
    (hmeasured : ∀ plan ∈ before.map (lexicalField ctx), plan.Measured)
    (globals : List (String × Value)) (b : Bitstring) :
    StatesAgree (x :: Field.namesOf after)
      (runFields (Frame.lookup ⟨Field.namesOf (before ++ after), globals⟩) b (.start b)
        (before.map (lexicalField ctx)))
      (runFields (Frame.lookup ⟨Field.namesOf (before ++ [rest]), globals⟩) b (.start b)
        (before.map (lexicalField ctx))) := by
  have hlocals : LocalsAgree (x :: Field.namesOf after) (Field.namesOf (before ++ after))
      (Field.namesOf (before ++ [rest])) := by
    intro y hy
    rw [List.mem_cons, not_or] at hy
    rw [namesOf_append, namesOf_append, namesOf_takesRest hrest, List.mem_append, List.mem_append,
      List.mem_singleton]
    tauto
  have hnames := namesAgree_lookup hlocals fun y _ _ => (rfl : globals.lookup y = globals.lookup y)
  refine runFields_agree hnames (List.forall₂_same.mpr fun plan hplan => ?_) hmeasured
    (State.start_agree b) (State.start_within b)
  obtain ⟨field, hfield, rfl⟩ := List.mem_map.mp hplan
  refine FieldPlan.agree_self hnames fun use huse y hy hout => ?_
  -- A field of the first list mentions neither the new name nor one that is bound later.
  have hmentions : field.Mentions y := by
    have huse := mem_expressions_of_mem_uses huse
    simp only [Field.expressions, List.mem_append, List.mem_map] at huse
    rcases huse with ⟨e, he, rfl⟩ | ⟨e, he, rfl⟩
    · exact ⟨e, List.mem_append_left _ he, hy⟩
    · exact ⟨e, List.mem_append_right _ he, hy⟩
  rcases List.mem_cons.mp hout with rfl | hout
  · exact hfresh.not_mentioned field hfield hmentions
  · obtain ⟨later, hlater, hy⟩ := List.mem_flatMap.mp hout
    exact (List.pairwise_append.mp h.ordered).2.2 field hfield later hlater y hy hmentions

/-- The values of some names, where they have any. -/
def boundValues (names : List String) (bound : List (String × Value)) : List Value :=
  names.map fun y => (bound.lookup y).getD .none

lemma lookup_boundValues {names : List String} {bound : List (String × Value)}
    (h : ∀ y, y ∈ bound.map Prod.fst ↔ y ∈ names) (y : String) :
    (names.zip (boundValues names bound)).lookup y = bound.lookup y := by
  rw [boundValues, ← List.map_prod_left_eq_zip, lookup_map]
  split
  · rename_i hy
    obtain ⟨v, hv⟩ := lookup_isSome ((h y).mpr hy)
    rw [hv]
    rfl
  · rename_i hy
    exact (lookup_eq_none fun hmem => hy ((h y).mp hmem)).symm

/-- Behind the first list, names stand for the same as in the second case, which has the values of
the first list in its environment. -/
lemma framed_after (h : Field.InSequence before after) {base entries : List (String × Value)}
    (hbase : ∀ y, y ∈ base.map Prod.fst ↔ y ∈ Field.namesOf before)
    (hentries : ∀ y, entries.lookup y = base.lookup y) :
    Framed (Field.namesOf after) base
      (Frame.lookup ⟨Field.namesOf (before ++ after), globalsAlone env⟩)
      (Frame.lookup ⟨Field.namesOf after, globalsAlone (entries ++ env)⟩) := by
  have hdistinct := h.distinct
  rw [namesOf_append] at hdistinct
  have hdisjoint := List.disjoint_of_nodup_append hdistinct
  intro bound hbound
  funext y
  by_cases hconstant : y = constantName
  · rw [hconstant, lookup_constant, lookup_constant]
  -- The second list binds the name itself, in both cases.
  by_cases hafter : y ∈ Field.namesOf after
  · have hbefore : y ∉ base.map Prod.fst := fun hy => hdisjoint ((hbase y).mp hy) hafter
    rw [lookup_local hconstant (namesOf_append before after ▸ List.mem_append_right _ hafter),
      lookup_local hconstant hafter, lookup_append, lookup_eq_none hbefore, Option.or_none]
  have hnone : bound.lookup y = none := lookup_eq_none fun hy => hafter (hbound y hy)
  rw [lookup_global hconstant hafter]
  -- A name of the first list is a local of one case and in the environment of the other.
  by_cases hbefore : y ∈ Field.namesOf before
  · have hmem : y ∈ Field.namesOf (before ++ after) :=
      namesOf_append before after ▸ List.mem_append_left _ hbefore
    obtain ⟨v, hv⟩ := lookup_isSome ((hbase y).mpr hbefore)
    rw [lookup_local hconstant hmem, lookup_append, hnone, Option.none_or, globalsAlone,
      List.cons_append, lookup_cons_eq, if_neg (h.plain y hmem).2, lookup_append, lookup_append,
      hentries, hv]
    rfl
  · have hmem : y ∉ Field.namesOf (before ++ after) := by
      rw [namesOf_append, List.mem_append]
      tauto
    have hentry : entries.lookup y = none := by
      rw [hentries, lookup_eq_none fun hy => hbefore ((hbase y).mp hy)]
    rw [lookup_global hconstant hmem, globalsAlone, globalsAlone, List.cons_append,
      List.cons_append, lookup_cons_eq, lookup_cons_eq, lookup_append, lookup_append,
      lookup_append, hentry, Option.none_or]

/-- What a field that takes the rest and an expression of all values make of the boundary: the
values of the first list, and a bitstring on which a run starts there. -/
lemma runOn_takesRest (hrest : rest.TakesRest x) (hfresh : Field.Fresh before x)
    (hconstant : constantName ∉ Field.namesOf before) (globals : List (String × Value))
    {b : Bitstring} {s : State} (hwithin : s.Within b)
    (hbound : ∀ y, y ∈ s.bound.map Prod.fst ↔ y ∈ Field.namesOf before) :
    ∃ left, left.data = b.data ∧ State.start left = { s with bound := [] } ∧
      runOn (Frame.lookup ⟨Field.namesOf (before ++ [rest]), globals⟩) b
          (.value (valuesOf (Field.namesOf before ++ [x]))) ([rest].map (lexicalField ctx)) s =
        pure (some (.tuple (boundValues (Field.namesOf before) s.bound ++ [.bits left]))) := by
  set names := Frame.lookup ⟨Field.namesOf (before ++ [rest]), globals⟩ with hnames
  obtain ⟨left, last, hdata, hstart, hlast, hrun⟩ :=
    @FieldPlan.TakesRest.run names b _ x (@takesRest_lexical ctx _ _ hrest) s hwithin
  have hlocals : Field.namesOf (before ++ [rest]) = Field.namesOf before ++ [x] := by
    rw [namesOf_append, namesOf_takesRest hrest]
  -- The locals of the first list keep their values, and the last one is what is left.
  have hvalues : List.Forall₂ (fun y v => names last.bound y = .ok v)
      (Field.namesOf before ++ [x])
      (boundValues (Field.namesOf before) s.bound ++ [.bits left]) := by
    refine List.rel_append (List.forall₂_map_right_iff.mpr (List.forall₂_same.mpr fun y hy => ?_))
      (.cons ?_ .nil)
    · have hmem : y ∈ Field.namesOf (before ++ [rest]) := hlocals ▸ List.mem_append_left _ hy
      have hne : y ≠ x := fun hyx => hfresh.not_bound (hyx ▸ hy)
      obtain ⟨v, hv⟩ := lookup_isSome ((hbound y).mpr hy)
      rw [hnames, lookup_local (fun hyc => hconstant (hyc ▸ hy)) hmem, hlast, lookup_cons_eq,
        if_neg hne, hv]
      rfl
    · rw [hnames, lookup_local hfresh.not_constant (hlocals ▸ by simp), hlast, lookup_cons_eq,
        if_pos rfl]
      rfl
  refine ⟨left, hdata, hstart, ?_⟩
  unfold runOn
  rw [List.map_singleton, runFields_cons, hrun, Run.pure_bind]
  dsimp only [runFields]
  rw [Run.pure_bind]
  dsimp only [BodyPlan.run, valuesOf]
  rw [Expr.eval_tuple, Expr.evalAll_names hvalues, Run.pure_bind, Run.pure_bind]

/-- Behind the first list the second one runs as it does alone on what is left, where the names of
the first list have their values. -/
lemma runOn_after (h : Field.InSequence before after) {b left : Bitstring} {s : State}
    (hmeasured : ∀ plan ∈ after.map (lexicalField (Matcher.context config env)), plan.Binds)
    (hbound : ∀ y, y ∈ s.bound.map Prod.fst ↔ y ∈ Field.namesOf before)
    (hdata : b.data = left.data) (hstart : State.start left = { s with bound := [] })
    {entries : List (String × Value)} (hentries : ∀ y, entries.lookup y = s.bound.lookup y) :
    runOn (Frame.lookup ⟨Field.namesOf (before ++ after), globalsAlone env⟩) b (.value e)
        (after.map (lexicalField (Matcher.context config env))) s =
      runAlone config (entries ++ env) after e left := by
  have hplans : ∀ plan ∈ after.map (lexicalField (Matcher.context config env)), plan.Binds ∧
      plan.jump = none ∧ ∀ y ∈ plan.locals, y ∈ Field.namesOf after := by
    intro plan hplan
    obtain ⟨field, hfield, rfl⟩ := List.mem_map.mp hplan
    refine ⟨hmeasured _ hplan, ?_, fun y hy => List.mem_flatMap.mpr ⟨field, hfield, hy⟩⟩
    have hjump := h.no_jump field hfield
    show (field.spec.getD .empty).offset = none
    cases hspec : field.spec with
    | none => rfl
    | some spec =>
        rw [hspec] at hjump
        exact hjump
  have hframed : Framed (Field.namesOf after) s.bound
      (Frame.lookup ⟨Field.namesOf (before ++ after), globalsAlone env⟩)
      (Frame.lookup ⟨Field.namesOf after, globalsAlone (entries ++ env)⟩) :=
    framed_after h hbound hentries
  rw [runAlone, hstart]
  exact runOn_framed hframed hdata hplans (.value e) (s := { s with bound := [] }) (by simp)

/-- A run of the first list that accepts has bound its names and stands inside the subject. -/
lemma accepted_before {names : Names} {b : Bitstring} {s : State}
    (hplanned : ∃ plans scope, planFields ctx [] before = .ok (plans, scope))
    (hrun : (runFields names b (.start b) (before.map (lexicalField ctx))).result = .ok (some s)) :
    s.Within b ∧ ∀ y, y ∈ s.bound.map Prod.fst ↔ y ∈ Field.namesOf before := by
  have hplans := measured_of_planned hplanned
  refine ⟨runFields_within (fun plan hplan => (hplans plan hplan).1) (State.start_within b) hrun,
    ?_⟩
  intro y
  rw [names_of_runFields (fun plan hplan => (hplans plan hplan).2) hrun, mem_namesAfter,
    locals_lexicalFields]
  simp [State.start, Field.namesOf]

/-- Where two runs agree behind the first list they stand at one place with the same values. -/
lemma values_of_agree (h : Field.InSequence before after) (hfresh : Field.Fresh before x)
    {s s' : State} (hagree : State.Agree (x :: Field.namesOf after) s s') :
    ({ s with bound := [] } : State) = { s' with bound := [] } ∧
      boundValues (Field.namesOf before) s.bound = boundValues (Field.namesOf before) s'.bound := by
  have hdistinct := h.distinct
  rw [namesOf_append] at hdistinct
  constructor
  · rw [hagree.off, hagree.len]
  · refine List.map_congr_left fun y hy => ?_
    have hout : y ∉ x :: Field.namesOf after := by
      rw [List.mem_cons, not_or]
      exact ⟨fun hyx => hfresh.not_bound (hyx ▸ hy), List.disjoint_of_nodup_append hdistinct hy⟩
    rw [hagree.bound y hout]

/-- A run of two lists of fields that gives a value is cut where the first list has accepted. -/
lemma runAlone_append {b : Bitstring} {v : Value} {calls : List Call} :
    runAlone config env (before ++ after) e b = ⟨calls, .ok (some v)⟩ ↔
      ∃ s calls₁ calls₂,
        runFields (Frame.lookup ⟨Field.namesOf (before ++ after), globalsAlone env⟩) b (.start b)
            (before.map (lexicalField (Matcher.context config env))) = ⟨calls₁, .ok (some s)⟩ ∧
        runOn (Frame.lookup ⟨Field.namesOf (before ++ after), globalsAlone env⟩) b (.value e)
            (after.map (lexicalField (Matcher.context config env))) s = ⟨calls₂, .ok (some v)⟩ ∧
        calls = calls₁ ++ calls₂ := by
  rw [runAlone, List.map_append, runOn_append, Run.bind_eq_mk]
  constructor
  · rintro ⟨found, calls₁, calls₂, hfirst, hsecond, rfl⟩
    cases found with
    | none => exact absurd (congrArg Run.result hsecond) (by simp)
    | some s => exact ⟨s, calls₁, calls₂, hfirst, hsecond, rfl⟩
  · rintro ⟨s, calls₁, calls₂, hfirst, hsecond, rfl⟩
    exact ⟨some s, calls₁, calls₂, hfirst, hsecond, rfl⟩

/-- Behind the first list, the case of that list gives its values and what is left, and the case of
two lists runs as the second one does alone on that. -/
lemma runOn_boundary (h : Field.InSequence before after) (hrest : rest.TakesRest x)
    (hfresh : Field.Fresh before x) (hconstant : constantName ∉ Field.namesOf before)
    (hplanned : ∃ plans scope,
      planFields (Matcher.context config env) [] before = .ok (plans, scope))
    (hbinds : ∀ plan ∈ after.map (lexicalField (Matcher.context config env)), plan.Binds)
    {names names' : Names} {b : Bitstring} {s s' : State}
    (hrun : (runFields names b (.start b)
      (before.map (lexicalField (Matcher.context config env)))).result = .ok (some s))
    (hrun' : (runFields names' b (.start b)
      (before.map (lexicalField (Matcher.context config env)))).result = .ok (some s'))
    (hagree : State.Agree (x :: Field.namesOf after) s s') :
    ∃ left,
      runOn (Frame.lookup ⟨Field.namesOf (before ++ [rest]), globalsAlone env⟩) b
          (.value (valuesOf (Field.namesOf before ++ [x])))
          ([rest].map (lexicalField (Matcher.context config env))) s' =
        pure (some (.tuple (boundValues (Field.namesOf before) s.bound ++ [.bits left]))) ∧
      runOn (Frame.lookup ⟨Field.namesOf (before ++ after), globalsAlone env⟩) b (.value e)
          (after.map (lexicalField (Matcher.context config env))) s =
        runAlone config
          ((Field.namesOf before).zip (boundValues (Field.namesOf before) s.bound) ++ env) after e
          left := by
  obtain ⟨-, hbound⟩ := accepted_before hplanned hrun
  obtain ⟨hwithin', hbound'⟩ := accepted_before hplanned hrun'
  obtain ⟨hplace, hvalues⟩ := values_of_agree h hfresh hagree
  obtain ⟨left, hdata, hstart, htuple⟩ := @runOn_takesRest (Matcher.context config env) _ _ _ hrest
    hfresh hconstant (globalsAlone env) b s' hwithin' hbound'
  refine ⟨left, by rw [hvalues, htuple], ?_⟩
  exact runOn_after h hbinds hbound hdata.symm (hstart.trans hplace.symm)
    (lookup_boundValues hbound)

end Rest

/-- A case of two lists of fields matches with a value exactly if the case of the first list and a
field that takes the rest matches with the values of its names, and the case of the second list then
matches that rest with the value, knowing those names from its environment; the calls of the case
are those of the two, in order. -/
theorem matches_in_sequence (config : Config) (env : List (String × Value))
    (h : Field.InSequence before after) {rest : Field} {x : String} (hrest : rest.TakesRest x)
    (hfresh : Field.Fresh before x) (e : Expr) (text text₁ text₂ : String)
    (index index₁ index₂ : Int) (subject v : Value) (calls : List Call) :
    Case.Matches config env ⟨text, before ++ after, .expr e, index⟩ subject v calls ↔
      ∃ values left calls₁ calls₂,
        Case.Matches config env
          ⟨text₁, before ++ [rest], .expr (valuesOf (Field.namesOf before ++ [x])), index₁⟩ subject
          (.tuple (values ++ [.bits left])) calls₁ ∧
        Case.Matches config ((Field.namesOf before).zip values ++ env)
          ⟨text₂, after, .expr e, index₂⟩ (.bits left) v calls₂ ∧
        calls = calls₁ ++ calls₂ := by
  -- Each of the three cases is of the kind that `matches_iff` is about.
  obtain ⟨hrestBefore, hrestAfter⟩ := List.forall_mem_append.mp h.no_rest
  have hplain := fun y hy => (h.plain y hy).1
  rw [namesOf_append] at hplain
  obtain ⟨hplainBefore, hplainAfter⟩ := List.forall_mem_append.mp hplain
  have hrestFirst : ∀ field ∈ before ++ [rest], field.isRest = false :=
    List.forall_mem_append.mpr ⟨hrestBefore, by simp [Field.isRest, hrest.pattern]⟩
  have hplainFirst : ∀ y ∈ Field.namesOf (before ++ [rest]), localName y = y := by
    rw [namesOf_append, namesOf_takesRest hrest]
    exact List.forall_mem_append.mpr ⟨hplainBefore, by simpa using hfresh.plain⟩
  have hlength : ∀ bound, (boundValues (Field.namesOf before) bound).length =
      (Field.namesOf before).length := fun bound => List.length_map _
  rw [matches_iff h.no_rest fun y hy => (h.plain y hy).1]
  constructor
  · -- The run of the whole case, cut where the fields before end.
    rintro ⟨hcompiles, b, hb, hrun⟩
    obtain ⟨s, calls₁, calls₂, hbefore, hafter, rfl⟩ := runAlone_append.mp hrun
    have hfirst := hcompiles.first hrest hfresh
    obtain ⟨hplanned, hbinds, hconstant⟩ := hcompiles.parts
    -- The fields before it run to a state that agrees but for the name of the rest.
    obtain ⟨_, hbefore', hfound⟩ := (runFields_before_agree h hrest hfresh
      (fun plan hplan => (measured_of_planned hplanned plan hplan).1) _ b).exists_right hbefore
    cases hfound with
    | @some _ s' hagree =>
        -- What is left is the same bits for the field that takes them and for the fields after.
        obtain ⟨left, htuple, hleft⟩ := runOn_boundary (e := e) h hrest hfresh hconstant hplanned
          hbinds (congrArg Run.result hbefore) (congrArg Run.result hbefore') hagree
        refine ⟨boundValues (Field.namesOf before) s.bound, left, calls₁, calls₂, ?_, ?_, rfl⟩
        · refine (matches_iff hrestFirst hplainFirst).mpr ⟨hfirst, b, hb, ?_⟩
          exact runAlone_append.mpr ⟨s', calls₁, [], hbefore', htuple, by simp⟩
        · refine (matches_iff hrestAfter hplainAfter).mpr
            ⟨hcompiles.second h (hlength s.bound), left, rfl, ?_⟩
          rw [← hleft, hafter]
  · -- The two runs put together, the first one cut before the field that takes the rest.
    rintro ⟨values, left, calls₁, calls₂, hfirst, hsecond, rfl⟩
    obtain ⟨hcompiles, b, hb, hrun⟩ := (matches_iff hrestFirst hplainFirst).mp hfirst
    obtain ⟨hcompiles', _, hleft, hrun'⟩ := (matches_iff hrestAfter hplainAfter).mp hsecond
    cases hleft
    obtain ⟨s', calls₁, calls₃, hbefore', htuple', rfl⟩ := runAlone_append.mp hrun
    obtain ⟨hplanned, -, hconstant⟩ := hcompiles.parts
    have hbinds := fun plan hplan => (measured_of_planned hcompiles'.planned plan hplan).2
    obtain ⟨_, hbefore, hfound⟩ := (runFields_before_agree h hrest hfresh
      (fun plan hplan => (measured_of_planned hplanned plan hplan).1) _ b).exists_left hbefore'
    cases hfound with
    | @some s _ hagree =>
        obtain ⟨left', htuple, hleft⟩ := runOn_boundary (e := e) h hrest hfresh hconstant hplanned
          hbinds (congrArg Run.result hbefore) (congrArg Run.result hbefore') hagree
        -- That field has one run only, so the values and the bits left are those of the hypothesis.
        have hsame := htuple.symm.trans htuple'
        have hcalls : calls₃ = [] := (congrArg Run.calls hsame).symm
        have htuples :=
          Value.tuple.inj (Option.some.inj (Except.ok.inj (congrArg Run.result hsame)))
        obtain ⟨rfl, hbits⟩ := List.append_inj' htuples rfl
        cases hbits
        refine ⟨compiles_append (hlength s.bound) hcompiles hcompiles', b, hb, ?_⟩
        refine runAlone_append.mpr ⟨s, calls₁, calls₂, hbefore, ?_, by rw [hcalls, List.append_nil]⟩
        rw [hleft, hrun']

/-- A byte that a function of the caller's has to accept. -/
def countField : Field :=
  ⟨.var "n", some (.int 8), some { Spec.default with check := some (.call "f" [.name "n"]) },
    "n:8, check(f(n))"⟩

/-- A number of as many bits. -/
def countedField : Field :=
  ⟨.var "m", some (.name "n"), some .default, "m:n"⟩

/-- Whatever is left of the subject. -/
def leftField : Field :=
  ⟨.var "left", some (.int (-1)), some { valueType := some .bitstring }, "left:-1:bitstring"⟩

/-- Two fields that are matched one after the other, each with a call of the caller's function. -/
theorem matches_in_sequence_counted :
    Field.InSequence [countField] [countedField] ∧ leftField.TakesRest "left" ∧
      Field.Fresh [countField] "left" ∧
      Case.Matches {} [("f", .probe "f")]
        ⟨"n:8, check(f(n)); m:n", [countField] ++ [countedField], .expr (.call "f" [.name "m"]), 0⟩
        (.ofBytes [8, 5]) (.int 5) [⟨"f", [.int 8]⟩, ⟨"f", [.int 5]⟩] ∧
      ∃ values left calls₁ calls₂,
        Case.Matches {} [("f", .probe "f")]
          ⟨"n:8, check(f(n)); left:-1:bitstring", [countField] ++ [leftField],
            .expr (valuesOf (Field.namesOf [countField] ++ ["left"])), 0⟩ (.ofBytes [8, 5])
          (.tuple (values ++ [.bits left])) calls₁ ∧
        Case.Matches {} ((Field.namesOf [countField]).zip values ++ [("f", .probe "f")])
          ⟨"m:n", [countedField], .expr (.call "f" [.name "m"]), 0⟩ (.bits left) (.int 5) calls₂ ∧
        [⟨"f", [.int 8]⟩, ⟨"f", [.int 5]⟩] = calls₁ ++ calls₂ := by
  have hsequence : Field.InSequence [countField] [countedField] :=
    ⟨by decide, by simp [countedField, Spec.default], by decide, by decide, by decide⟩
  have hrest : leftField.TakesRest "left" :=
    ⟨rfl, ⟨_, rfl, rfl⟩, ⟨_, rfl, rfl, rfl, rfl, rfl⟩, by decide⟩
  have hfresh : Field.Fresh [countField] "left" :=
    ⟨by decide, by decide, by decide, by decide⟩
  have hmatch : Case.Matches {} [("f", .probe "f")]
      ⟨"n:8, check(f(n)); m:n", [countField] ++ [countedField], .expr (.call "f" [.name "m"]), 0⟩
      (.ofBytes [8, 5]) (.int 5) [⟨"f", [.int 8]⟩, ⟨"f", [.int 5]⟩] := by
    refine Case.matches_of_planCases rfl (by decide) rfl (by decide) ?_
    rintro ⟨config, cases, plans, globals⟩ rfl rfl
    rfl
  exact ⟨hsequence, hrest, hfresh, hmatch, (matches_in_sequence {} [("f", .probe "f")] hsequence
    hrest hfresh (.call "f" [.name "m"]) _ _ _ 0 0 0 (.ofBytes [8, 5]) (.int 5) _).mp hmatch⟩

end Plan

end BitPattern
