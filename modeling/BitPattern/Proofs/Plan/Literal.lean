import BitPattern.Proofs.Plan.Replace

/-!
# Literals as checks

A field whose pattern is a constant, or one of several, does what a field does that binds its value
to a variable and checks that it is one of them.  The test of a literal is made on the value that
counts, after it is bound and replaced, and before the check of the field; so the two are joined in
that order by `and` (`Expr.withCheck`), and whatever the type of the value, comparing it with a
constant is evaluating `==` (`Expr.eval_oneOf`).

The variable is the one that the pattern itself binds, if it does, and then it may be any name.
Else it has to be one that the case knows nothing of (`CasePlan.FreshVariable`), and that the body
is not given (`Body.Ignores`): a callable that takes any name is given the variable as well, and
`check_for_literal_taken` is a case that shows it.
-/

namespace BitPattern

open BitPattern.Text Plan Plan.Test.accepts

/-! ## Checks that a value is one of some constants -/

/-- A constant as an expression. -/
def Constant.expr : Constant → Expr
  | .int n => .int n
  | .bytes b => .bytes b

namespace Expr

/-- The check that a name stands for one of some constants: it is compared with one after the other,
and the answers are joined by `or`. -/
def oneOf (x : String) (c : Constant) (cs : List Constant) : Expr :=
  cs.foldl (fun e d => .binary .or e (.binary .eq (.name x) d.expr)) (.binary .eq (.name x) c.expr)

/-- An expression and then the check of a field, if there is one. -/
def withCheck (e : Expr) (check : Option Expr) : Expr :=
  check.elim e (.binary .and e)

lemma mem_freeNames_withCheck {e : Expr} {check : Option Expr} {y : String} :
    y ∈ (e.withCheck check).freeNames ↔ y ∈ e.freeNames ∨ ∃ d ∈ check, y ∈ d.freeNames := by
  cases check <;> simp [withCheck]

lemma rename_withCheck (f : String → String) (e : Expr) (check : Option Expr) :
    (e.withCheck check).rename f = (e.rename f).withCheck (check.map (rename f)) := by
  cases check <;> rfl

lemma mem_freeNames_constant {c : Constant} {y : String} : y ∉ c.expr.freeNames := by
  cases c <;> simp [Constant.expr, freeNames, collectNames]

lemma mem_freeNames_oneOf {x : String} {c : Constant} {cs : List Constant} {y : String} :
    y ∈ (oneOf x c cs).freeNames ↔ y = x := by
  have hfold : ∀ e : Expr, (y ∈ e.freeNames ↔ y = x) →
      (y ∈ (cs.foldl (fun e d => .binary .or e (.binary .eq (.name x) d.expr)) e).freeNames ↔
        y = x) := by
    induction cs with
    | nil => exact fun e he => he
    | cons d cs ih =>
        intro e he
        refine ih _ ?_
        simp [he, mem_freeNames_constant]
  exact hfold _ (by simp [mem_freeNames_constant])

lemma rename_oneOf (f : String → String) (x : String) (c : Constant) (cs : List Constant) :
    (oneOf x c cs).rename f = oneOf (f x) c cs := by
  have hconstant : ∀ d : Constant, d.expr.rename f = d.expr := by
    intro d
    cases d <;> rfl
  have hfold : ∀ e : Expr,
      (cs.foldl (fun e d => .binary .or e (.binary .eq (.name x) d.expr)) e).rename f =
        cs.foldl (fun e d => .binary .or e (.binary .eq (.name (f x)) d.expr)) (e.rename f) := by
    induction cs with
    | nil => exact fun e => rfl
    | cons d cs ih =>
        intro e
        rw [List.foldl_cons, ih]
        simp only [rename, hconstant, List.foldl_cons]
  rw [oneOf, hfold]
  simp only [rename, hconstant]
  rfl

variable {lookup : String → Except Fault Value}

lemma eval_constant (c : Constant) : c.expr.eval lookup = pure (constantValue c) := by
  cases c <;> rfl

/-- Comparing a name with a constant is comparing what it stands for. -/
lemma eval_eq_constant {x : String} {v : Value} (hx : lookup x = .ok v) (c : Constant) :
    (binary .eq (name x) c.expr).eval lookup = pure (.bool (v.same (constantValue c))) := by
  have hname : (name x).eval lookup = pure v := by
    rw [eval, hx]
    rfl
  rw [eval_binary, hname, Run.pure_bind, eval_constant]
  rfl

/-- The check that a name stands for one of some constants compares its value with each of them. -/
lemma eval_oneOf {x : String} {v : Value} (hx : lookup x = .ok v) (c : Constant)
    (cs : List Constant) :
    (oneOf x c cs).eval lookup =
      pure (.bool ((c :: cs).any fun d => v.same (constantValue d))) := by
  have hfold : ∀ (e : Expr) (b : Bool), e.eval lookup = pure (.bool b) →
      (cs.foldl (fun e d => .binary .or e (.binary .eq (.name x) d.expr)) e).eval lookup =
        pure (.bool (b || cs.any fun d => v.same (constantValue d))) := by
    induction cs with
    | nil =>
        intro e b he
        rw [List.foldl_nil, he, List.any_nil, Bool.or_false]
    | cons d cs ih =>
        intro e b he
        have hor : (binary .or e (.binary .eq (.name x) d.expr)).eval lookup =
            pure (.bool (b || v.same (constantValue d))) := by
          rw [eval, he, Run.pure_bind, eval_eq_constant hx]
          cases b <;> rfl
        rw [List.foldl_cons, ih _ _ hor, List.any_cons, Bool.or_assoc]
  exact hfold _ _ (eval_eq_constant hx c)

end Expr

/-! ## Fields with a check for a literal -/

/-- A pattern that is a constant, or one of several. -/
inductive Pattern.Literal : Pattern → Constant → List Constant → Prop where
  | constant (c : Constant) : Literal (.constant c) c []
  | oneOf (c d : Constant) (cs : List Constant) : Literal (.oneOf c d cs) c (d :: cs)

/-- A field with a variable for its pattern, that checks an expression before its own check. -/
def Field.checking (field : Field) (text x : String) (e : Expr) : Field :=
  { field with
    pattern := .var x
    text
    spec := field.spec.map fun spec => { spec with check := some (e.withCheck spec.check) } }

/-- A case with a variable for the pattern of one of its fields, and with a check that its value is
one of some constants. -/
def Case.checking (c : Case) (before after : List Field) (field : Field)
    (fieldsText text x : String) (d : Constant) (ds : List Constant) : Case :=
  { c with fieldsText, fields := before ++ field.checking text x (.oneOf x d ds) :: after }

namespace Plan

open Run

variable {ctx : Context} {text x : String} {d : Constant} {ds : List Constant}

/-- The plan of a field with a variable for its pattern, that checks an expression before its own
check. -/
def FieldPlan.checking (plan : FieldPlan) (text x : String) (e : Expr) : FieldPlan :=
  { plan with
    text, kept := true, locals := [x], test := none, check := some (e.withCheck plan.check) }

/-- The plan of a field that keeps its value and tests whether it is one of some constants. -/
structure FieldPlan.Tests (plan : FieldPlan) (d : Constant) (ds : List Constant) : Prop where
  kept : plan.kept = true
  test : ∀ v, plan.test.all (·.accepts v) = (d :: ds).any fun c => v.same (constantValue c)

/-! ## Running -/

section Runs

variable {out : List String} {names names' : Names} {subject : Bitstring}
variable {plan : FieldPlan} {s s' : State}

lemma FieldPlan.Tests.reads_checking (h : plan.Tests d ds) (e : Expr) :
    (plan.checking text x e).reads = plan.reads := by
  unfold FieldPlan.reads FieldPlan.checking
  rw [h.kept]

lemma FieldPlan.Tests.width_checking (h : plan.Tests d ds) (e : Expr)
    (lookup : String → Except Fault Value) (len : Scalar) :
    (plan.checking text x e).width lookup len = plan.width lookup len := by
  unfold FieldPlan.width FieldPlan.checking
  rw [h.kept]

/-- A value passes the check for a literal exactly if it passes the test. -/
lemma FieldPlan.Tests.passes_checking (h : plan.Tests d ds) {bound : List (String × Value)}
    {v : Value} (hx : names bound x = .ok v) :
    (plan.checking text x (.oneOf x d ds)).passes names bound v = plan.passes names bound v := by
  have hone := Expr.eval_oneOf hx d ds
  rw [← h.test v] at hone
  unfold FieldPlan.passes FieldPlan.checking
  simp only [Option.all_none, if_true]
  cases hcheck : plan.check with
  | none =>
      rw [Expr.withCheck, Option.elim_none, hone]
      cases plan.test.all (·.accepts v) <;> rfl
  | some e =>
      rw [Expr.withCheck, Option.elim_some, Expr.eval, hone, pure_bind]
      cases plan.test.all (·.accepts v) <;> rfl

/-- **A literal and a check.**  From states that agree but for new names, a field runs to such
states whether it tests its value or binds and checks it. -/
lemma FieldPlan.Tests.run_agree (h : plan.Tests d ds) (hlocals : LocalsAgree out plan.locals [x])
    (havoids : plan.Avoids out) (hnames : NamesAgree out names names')
    (hx : ∀ bound v, names' ((x, v) :: bound) x = .ok v) (hs : State.Agree out s s') :
    StatesAgree out (plan.run names subject s)
      ((plan.checking text x (.oneOf x d ds)).run names' subject s') := by
  refine FieldPlan.run_agree_of hnames hs ?_ ?_ rfl havoids
  · rw [h.width_checking, havoids.width_eq hnames hs.bound, hs.len]
  · intro width _
    unfold FieldPlan.consume
    rw [h.reads_checking, ← hs.off]
    split
    · refine .bind (related_eq_iff.mpr (havoids.read_eq hnames hs.bound _ _ _)) ?_
      rintro v _ - - rfl
      have hrebind : plan.rebind = (plan.checking text x (.oneOf x d ds)).rebind := rfl
      refine FieldPlan.accept_agree_of hnames hs.bound hlocals hrebind havoids (fun w => ?_) v
      rw [havoids.passes_eq hnames (hs.bound.bindLocals hlocals w)]
      exact (h.passes_checking (hx s'.bound w)).symm
    · exact .pure (.some hs.bound)

/-- A case in whose plan a variable and a check take the place of a literal runs as before. -/
lemma CasePlan.run_checking {whole whole' : CasePlan} {first last : List FieldPlan}
    (hfields : whole.fields = first ++ plan :: last)
    (hfields' : whole'.fields = first ++ plan.checking text x (.oneOf x d ds) :: last)
    (hbody' : whole'.body = whole.body) (h : plan.Tests d ds)
    (hlocals : LocalsAgree out plan.locals [x])
    (hplans : ∀ field ∈ whole.fields, field.Measured ∧ field.Avoids out)
    (hbody : ∀ use ∈ whole.body.uses [], ∀ y ∈ use.2.freeNames, y ∉ out)
    (hx : x ≠ constantName) (globals : List (String × Value)) :
    whole'.run globals = whole.run globals := by
  have hlocal : x ∈ whole'.locals := by
    rw [CasePlan.locals, hfields']
    simp [FieldPlan.checking]
  funext subject
  refine CasePlan.run_replace hfields hfields' hbody' hlocals hplans hbody ?_
  intro s s' hnames hs _
  refine h.run_agree hlocals (hplans plan (by simp [hfields])).2 hnames ?_ hs
  intro bound v
  rw [lookup_local hx hlocal, lookup_cons_eq, if_pos rfl]
  rfl

end Runs

/-! ## Planning -/

section Plans

variable {field : Field} {pattern : Pattern}

lemma eq_of_checkConstant {type : FieldType} {c c' : Constant}
    (h : checkConstant type text c = .ok c') : c' = c := by
  unfold checkConstant at h
  split at h <;> cases h <;> rfl

/-- A literal pattern tests for its constants. -/
lemma literal_test (hliteral : pattern.Literal d ds) {type : FieldType} {test : Option Test}
    (h : planTest type text pattern = .ok test) (v : Value) :
    test.all (·.accepts v) = (d :: ds).any fun c => v.same (constantValue c) := by
  cases hliteral with
  | constant =>
      obtain ⟨c, hc, h⟩ := result_bind_eq_ok.mp h
      cases h
      rw [eq_of_checkConstant hc]
      simp [Test.accepts]
  | oneOf =>
      obtain ⟨c, hc, h⟩ := result_bind_eq_ok.mp h
      obtain ⟨d, hd, h⟩ := result_bind_eq_ok.mp h
      obtain ⟨cs, hcs, h⟩ := result_bind_eq_ok.mp h
      cases h
      have hsame : List.Forall₂ Eq _ cs :=
        (result_mapM_eq_ok.mp hcs).imp fun _ _ hc => (eq_of_checkConstant hc).symm
      rw [List.forall₂_eq_eq_eq] at hsame
      rw [eq_of_checkConstant hc, eq_of_checkConstant hd, ← hsame]
      rfl

lemma not_wildcard_of_literal (hliteral : pattern.Literal d ds)
    (hpattern : field.pattern = .named pattern x ∨ field.pattern = pattern) :
    field.pattern ≠ .wildcard := by
  rcases hpattern with hpattern | hpattern
  · rw [hpattern]
    exact nofun
  · rw [hpattern]
    cases hliteral <;> exact nofun

lemma lexicalField_tests (hliteral : pattern.Literal d ds)
    (hpattern : field.pattern = .named pattern x ∨ field.pattern = pattern)
    (hadmitted : field.Admitted) : (lexicalField ctx field).Tests d ds := by
  obtain ⟨length, spec, type, hlength, hspec, htype, -, -, test, htest⟩ := hadmitted
  have hpatternTest : planTest type field.text pattern = .ok test := by
    rcases hpattern with hpattern | hpattern <;> rwa [hpattern] at htest
  constructor
  · simp [lexicalField, isRead, not_wildcard_of_literal hliteral hpattern]
  · intro v
    have hplan : (lexicalField ctx field).test = test := by
      simp [lexicalField, hspec, htype, htest, Except.toOption]
    rw [hplan]
    exact literal_test hliteral hpatternTest v

lemma lexicalField_checking {spec : Spec} (hspec : field.spec = some spec) (e : Expr) :
    lexicalField ctx (field.checking text x e) = (lexicalField ctx field).checking text x e := by
  simp [lexicalField, FieldPlan.checking, Field.checking, hspec, isRead, planTest, Pattern.names,
    Except.toOption, Spec.isSigned]

lemma FieldPlan.Tests.resolved {plan : FieldPlan} (h : plan.Tests d ds) (bound : List String) :
    (plan.resolved bound).Tests d ds :=
  ⟨h.kept, h.test⟩

/-- The check for a literal names nothing but the variable. -/
lemma FieldPlan.knownUses_checking {plan : FieldPlan} {env bound : List String}
    (hlocals : ∀ y ∈ plan.locals, y = x) (h : KnownUses env (plan.uses bound)) :
    KnownUses env ((plan.checking text x (.oneOf x d ds)).uses bound) := by
  obtain ⟨hlength, horder, hinner⟩ := FieldPlan.knownUses_iff.mp h
  have hbound : x ∈ (plan.checking text x (.oneOf x d ds)).namesAfter bound :=
    List.mem_append_left _ (by simp [FieldPlan.checking])
  have hmore : MoreKnown (plan.namesAfter bound) env
      ((plan.checking text x (.oneOf x d ds)).namesAfter bound) env := by
    refine .of_subset fun y hy => ?_
    rcases List.mem_append.mp hy with hy | hy
    · rw [hlocals y (List.mem_reverse.mp hy)]
      exact hbound
    · exact List.mem_append_right _ hy
  refine FieldPlan.knownUses_iff.mpr ⟨hlength, horder, ?_⟩
  rintro e (he | he | he) y hy
  · exact hmore y (hinner e (.inl he) y hy)
  · cases he
    rcases Expr.mem_freeNames_withCheck.mp hy with hy | ⟨check, hcheck, hy⟩
    · rw [Expr.mem_freeNames_oneOf.mp hy]
      exact .inl hbound
    · exact hmore y (hinner check (.inr (.inl hcheck)) y hy)
  · exact hmore y (hinner e (.inr (.inr he)) y hy)

/-- With a variable and a check in the place of a literal, what is resolved stays as it is but for
the check, where the variable is called by its local. -/
lemma FieldPlan.resolved_checking {plan : FieldPlan} {out bound : List String}
    (hlocals : LocalsAgree out plan.locals [x])
    (hfree : ∀ use ∈ plan.uses bound, ∀ y ∈ use.2.freeNames, y ∉ out) :
    (plan.checking text x (.oneOf x d ds)).resolved bound =
      (plan.resolved bound).checking text (localName x) (.oneOf (localName x) d ds) := by
  have hagree : LocalsAgree out (plan.namesAfter bound)
      ((plan.checking text x (.oneOf x d ds)).namesAfter bound) := by
    intro y hy
    simp only [FieldPlan.namesAfter, FieldPlan.checking, List.mem_append, List.mem_reverse,
      hlocals y hy]
  obtain ⟨hrebind, hcheck, hjump⟩ := FieldPlan.inner_resolved_congr hagree hfree
  have hlocal : localOf ((plan.checking text x (.oneOf x d ds)).namesAfter bound) x =
      localName x := by
    simp [localOf, FieldPlan.namesAfter, FieldPlan.checking]
  have hcheck' : ((Expr.oneOf x d ds).withCheck plan.check).rename
        (localOf ((plan.checking text x (.oneOf x d ds)).namesAfter bound)) =
      (Expr.oneOf (localName x) d ds).withCheck
        (plan.check.map (Expr.rename (localOf (plan.namesAfter bound)))) := by
    rw [Expr.rename_withCheck, Expr.rename_oneOf, hlocal, hcheck]
  generalize hinner : (plan.checking text x (.oneOf x d ds)).namesAfter bound = inner
    at hrebind hjump hcheck'
  simp only [FieldPlan.resolved, hinner]
  simp only [FieldPlan.checking, Option.map_some, List.map_cons, List.map_nil, hrebind, hjump,
    hcheck']

end Plans

section Cases

variable {c : Case} {before after : List Field} {field : Field} {pattern : Pattern}
variable {fieldsText : String} {out : List String}

/-- A literal binds no other name than the one that stands for its value. -/
lemma names_of_literal (hliteral : pattern.Literal d ds)
    (hpattern : field.pattern = .named pattern x ∨ field.pattern = pattern) :
    ∀ y ∈ field.pattern.names, y = x := by
  have hnone : pattern.names = [] := by
    cases hliteral <;> rfl
  rcases hpattern with hpattern | hpattern <;> simp [hpattern, Pattern.names, hnone]

/-- A variable with a check may stand in the place of a literal. -/
lemma replaces_checking (hliteral : pattern.Literal d ds)
    (hpattern : field.pattern = .named pattern x ∨ field.pattern = pattern)
    (hx : x ∈ field.pattern.names ∨ x ∈ out) :
    field.Replaces ctx out (field.checking text x (.oneOf x d ds)) where
  not_rest := by
    simp [Field.isRest, not_wildcard_of_literal hliteral hpattern]
  not_rest' := rfl
  admitted := by
    rintro ⟨length, spec, type, hlength, hspec, htype, hadmits, -, -⟩
    exact ⟨length, { spec with check := some ((Expr.oneOf x d ds).withCheck spec.check) }, type,
      hlength, by simp [Field.checking, hspec], htype, hadmits,
      by simp [checkPattern, Field.checking, bindsOnly], none, rfl⟩
  names y hy := List.mem_singleton.mpr (names_of_literal hliteral hpattern y hy)
  new y hy := by
    rw [List.mem_singleton.mp hy]
    exact hx
  known := by
    rintro ⟨length, spec, type, -, hspec, -, -, -, -⟩ bound hknown
    rw [lexicalField_checking hspec]
    exact FieldPlan.knownUses_checking (names_of_literal hliteral hpattern) hknown

/-- The two plans of a case, with a literal and with a variable and a check in its place, side by
side.  The new names, if there are any, are variables that the case knows nothing of. -/
lemma planCase_checking {plan : CasePlan} (h : planCase ctx c = .ok plan)
    (hfields : c.fields = before ++ field :: after) (hliteral : pattern.Literal d ds)
    (hpattern : field.pattern = .named pattern x ∨ field.pattern = pattern)
    (hx : x ∈ field.pattern.names ∨ x ∈ out)
    (hout : ∀ y ∈ out, (lexicalCase ctx c).FreshVariable y)
    (hignores : [x] = field.pattern.names ∨ c.body.Ignores out)
    (hmeasured : ∀ field ∈ plan.fields, field.Measured) (hconstant : constantName ∉ plan.locals) :
    ∃ plan', planCase ctx (c.checking before after field fieldsText text x d ds) = .ok plan' ∧
      plan'.index = plan.index ∧ constantName ∉ plan'.locals ∧
      ∀ globals, plan'.run globals = plan.run globals := by
  have hreplaces := @replaces_checking ctx text x d ds field pattern out hliteral hpattern hx
  obtain ⟨plan', hplan', hindex, hbody', hplans⟩ :=
    @planCase_replace ctx c (c.checking before after field fieldsText text x d ds) _ _ _ _ _ _ h
      hfields rfl hreplaces rfl rfl hignores
      fun use huse y hy hmem => (hout y hmem).free.not_used use huse hy
  refine ⟨plan', hplan', hindex, ?_⟩
  rcases hplans with ⟨bound, first, last, -, hadmitted, huses, hplan, hplan'⟩ | ⟨-, hplans⟩
  · -- The field is planned: the new plan is the old one with the check in place of the test.
    obtain ⟨-, spec, -, -, hspec, -⟩ := id hadmitted
    have hlocals : LocalsAgree out (lexicalField ctx field).locals [x] :=
      locals_of_replaces hreplaces
    rw [lexicalField_checking hspec, FieldPlan.resolved_checking hlocals fun use huse y hy hmem =>
      (hout y hmem).free.not_used use (huses use huse) hy] at hplan'
    have hlocals' : LocalsAgree (out.map localName)
        ((lexicalField ctx field).resolved bound).locals [localName x] := hlocals.map localName
    have hnotConstant : constantName ∉ out.map localName := by
      intro hmem
      obtain ⟨y, hy, heq⟩ := List.mem_map.mp hmem
      exact (hout y hy).not_constant heq
    -- The constant of the listing is no local of either case.
    have hkept : constantName ∉ plan'.locals := fun hmem =>
      hconstant ((CasePlan.locals_replace hplan hplan' hlocals' _ hnotConstant).mpr hmem)
    have hne : localName x ≠ constantName := by
      refine fun heq => hkept ?_
      rw [CasePlan.locals, hplan', ← heq]
      simp [FieldPlan.checking]
    obtain ⟨havoids, hbody⟩ := @avoids_of_free (out.map localName) (lexicalCase ctx c) (by
      intro y hy
      obtain ⟨z, hz, rfl⟩ := List.mem_map.mp hy
      exact (hout z hz).local_free)
    rw [← (planCase_eq_resolved h).1] at havoids hbody
    exact ⟨hkept, CasePlan.run_checking hplan hplan' hbody'
      ((lexicalField_tests hliteral hpattern hadmitted).resolved bound) hlocals'
      (fun field hfield => ⟨hmeasured field hfield, havoids field hfield⟩) hbody hne⟩
  · -- The field stands behind the end of the case, so the plans are the same.
    have hlocals : plan'.locals = plan.locals := congrArg (List.flatMap FieldPlan.locals) hplans
    exact ⟨hlocals ▸ hconstant, CasePlan.run_congr hplans hbody'⟩

end Cases

section Matchers

variable {config : Config} {env : List (String × Value)} {cases : List Case} {m : Matcher}
variable {i : Nat} {c : Case} {fieldsText : String} {before after : List Field} {field : Field}
variable {pattern : Pattern}

/-- **Literal patterns are checks.**  In a field whose pattern is a constant or one of several, a
variable may take the place of the pattern, with a check that it is one of the constants before the
check of the field.  The variable is the one that the pattern itself binds; if it binds none, it is
one that the case knows nothing of and its body is not given.  The cases have a matcher as before,
and the two make the same of every subject, with the same calls, the same case, the same value and
the same faults. -/
theorem check_for_literal (hm : Matcher.ofNumbered config env cases = .ok m)
    (hc : cases[i]? = some c) (hfields : c.fields = before ++ field :: after)
    (hliteral : pattern.Literal d ds)
    (hpattern : field.pattern = .named pattern x ∨
      field.pattern = pattern ∧ (lexicalCase (Matcher.context config env) c).FreshVariable x ∧
        c.body.Ignores [x])
    (htext : NulFree text) :
    ∃ m', Matcher.ofNumbered config env
        (cases.set i (c.checking before after field fieldsText text x d ds)) = .ok m' ∧
      ∀ v, m'.tryMatch v = m.tryMatch v := by
  obtain ⟨-, hplans, hload, -⟩ := Matcher.ofNumbered_eq_ok hm
  obtain ⟨hi, rfl⟩ := List.getElem?_eq_some_iff.mp hc
  have hi' : i < m.plans.length := by rwa [← hplans.length_eq]
  have hplan : m.plans[i]? = some m.plans[i] := List.getElem?_eq_getElem hi'
  have hmeasured := fun field hfield =>
    (measured_of_mem hm (List.getElem_mem hi') field hfield).1
  have hconstant := constantName_not_mem hload (List.getElem_mem hi')
  obtain ⟨hpattern, out, hx, hout, hignores⟩ :
      (field.pattern = .named pattern x ∨ field.pattern = pattern) ∧
        ∃ out, (x ∈ field.pattern.names ∨ x ∈ out) ∧
          (∀ y ∈ out, (lexicalCase (Matcher.context config env) cases[i]).FreshVariable y) ∧
          ([x] = field.pattern.names ∨ cases[i].body.Ignores out) := by
    rcases hpattern with hnamed | ⟨hpattern, hfresh, hignores⟩
    · have hnames : field.pattern.names = [x] := by
        rw [hnamed]
        cases hliteral <;> rfl
      exact ⟨.inl hnamed, [], .inl (by simp [hnames]), nofun, .inl hnames.symm⟩
    · exact ⟨.inr hpattern, [x], .inr (by simp), by simpa using hfresh, .inr hignores⟩
  obtain ⟨plan', hplan', hindex, hconstant', hruns⟩ :=
    @planCase_checking _ text x d ds cases[i] before after field pattern fieldsText out _
      (hplans.get hi hi') hfields hliteral hpattern hx hout hignores hmeasured hconstant
  refine ⟨_, ofNumbered_set hm hplan hplan' hindex ?_ hconstant',
    Matcher.tryMatch_set hplan (hruns m.globals) _⟩
  intro other hother
  have hreplaces := @replaces_checking (Matcher.context config env) text x d ds field pattern out
    hliteral hpattern hx
  rcases @mem_effectiveFields_replace cases[i]
      (cases[i].checking before after field fieldsText text x d ds) _ _ _ _ hfields rfl
      hreplaces.not_rest hreplaces.not_rest' _ hother with hother | rfl
  · exact (Matcher.printable_of_ofNumbered hm).2 _ (List.getElem_mem hi) other hother
  · exact htext

end Matchers

/-- A byte. -/
def anyByte : Field :=
  ⟨.var "a", some (.int 8), some .default, "a:8"⟩

/-- A byte that is one of two, if the byte `a` is small. -/
def eitherByte : Field :=
  ⟨.oneOf (.int 1) (.int 2) [], some (.int 8),
    some { Spec.default with check := some (.binary .lt (.name "a") (.int 5)) },
    "1 | 2:8:check(a < 5)"⟩

/-- A case of both. -/
def eitherCase : Case where
  fieldsText := "a:8, 1 | 2:8:check(a < 5)"
  fields := [anyByte, eitherByte]
  body := .expr (.name "a")
  index := 0

/-- A variable and a check in the place of one of two constants. -/
theorem check_for_literal_either :
    ∃ m m', Matcher.ofNumbered {} [] [eitherCase] = .ok m ∧
      Matcher.ofNumbered {} [] [eitherCase.checking [anyByte] [] eitherByte
        "a:8, t:8:check((t == 1 || t == 2) && a < 5)" "t:8:check((t == 1 || t == 2) && a < 5)" "t"
        (.int 1) [.int 2]] = .ok m' ∧
      ∀ v, m'.tryMatch v = m.tryMatch v := by
  obtain ⟨plan, hplan, hlocals⟩ : ∃ plan,
      planCases (Matcher.context {} []) [eitherCase] = .ok [plan] ∧
        constantName ∉ plan.locals := ⟨_, rfl, by decide⟩
  have hm := Matcher.ofNumbered_singleton hplan (by simp)
    (by simp [eitherCase, anyByte, eitherByte, effectiveFields, Field.isRest]) hlocals
  have hfresh : (lexicalCase (Matcher.context {} []) eitherCase).FreshVariable "t" :=
    ⟨by decide, by decide, by decide⟩
  obtain ⟨m', hm', hsame⟩ := @check_for_literal "t:8:check((t == 1 || t == 2) && a < 5)" "t"
    (.int 1) [.int 2] {} [] [eitherCase] _ 0 eitherCase
    "a:8, t:8:check((t == 1 || t == 2) && a < 5)" [anyByte] [] eitherByte
    (.oneOf (.int 1) (.int 2) []) hm rfl rfl (.oneOf _ _ _) (.inr ⟨rfl, hfresh, trivial⟩) (by simp)
  exact ⟨_, m', hm, hm', hsame⟩

/-- A byte that is one. -/
def oneByte : Field :=
  ⟨.constant (.int 1), some (.int 8), some .default, "1:8"⟩

/-- A case of that byte, with a callable that takes any name. -/
def takingCase : Case where
  fieldsText := "1:8"
  fields := [oneByte]
  body := .callable (.collect [⟨"kw", .keywords, none⟩])
  index := 0

/-- The callable is given nothing by the literal.  It is given the variable in its place, though the
case knows nothing of it, so the two values differ. -/
theorem check_for_literal_taken :
    ∃ m m', Matcher.ofNumbered {} [] [takingCase] = .ok m ∧
      Matcher.ofNumbered {} [] [takingCase.checking [] [] oneByte "t:8:check(t == 1)"
        "t:8:check(t == 1)" "t" (.int 1) []] = .ok m' ∧
      (lexicalCase (Matcher.context {} []) takingCase).FreshVariable "t" ∧
      (m.tryMatch (.ofBytes [1])).result = .ok ⟨some (0, .dict [("kw", .dict [])])⟩ ∧
      (m'.tryMatch (.ofBytes [1])).result =
        .ok ⟨some (0, .dict [("kw", .dict [("t", .int 1)])])⟩ := by
  obtain ⟨plan, hplan, hlocals, hrun⟩ : ∃ plan,
      planCases (Matcher.context {} []) [takingCase] = .ok [plan] ∧
        constantName ∉ plan.locals ∧
        ∀ m : Matcher, m.plans = [plan] → m.globals = Matcher.globalsOf [plan] [] →
          (m.tryMatch (.ofBytes [1])).result = .ok ⟨some (0, .dict [("kw", .dict [])])⟩ := by
    refine ⟨_, rfl, by decide, ?_⟩
    rintro ⟨config, cases, plans, globals⟩ rfl rfl
    rfl
  obtain ⟨plan', hplan', hlocals', hrun'⟩ : ∃ plan,
      planCases (Matcher.context {} []) [takingCase.checking [] [] oneByte "t:8:check(t == 1)"
        "t:8:check(t == 1)" "t" (.int 1) []] = .ok [plan] ∧
        constantName ∉ plan.locals ∧
        ∀ m : Matcher, m.plans = [plan] → m.globals = Matcher.globalsOf [plan] [] →
          (m.tryMatch (.ofBytes [1])).result =
            .ok ⟨some (0, .dict [("kw", .dict [("t", .int 1)])])⟩ := by
    refine ⟨_, rfl, by decide, ?_⟩
    rintro ⟨config, cases, plans, globals⟩ rfl rfl
    rfl
  have hm := Matcher.ofNumbered_singleton hplan (by simp)
    (by simp [takingCase, oneByte, effectiveFields, Field.isRest]) hlocals
  have hm' := Matcher.ofNumbered_singleton hplan' (by simp)
    (by simp [Case.checking, Field.checking, oneByte, effectiveFields, Field.isRest]) hlocals'
  have hfresh : (lexicalCase (Matcher.context {} []) takingCase).FreshVariable "t" :=
    ⟨by decide, by decide, by decide⟩
  exact ⟨_, _, hm, hm', hfresh, hrun _ rfl rfl, hrun' _ rfl rfl⟩

end Plan

end BitPattern
