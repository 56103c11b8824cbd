import BitPattern.Proofs.Plan.Agree
import BitPattern.Proofs.Plan.Unbound

/-!
# Lists of cases one after the other

A matcher tries its cases in order.  `Course` is the course that a match takes: cases whose fields
refuse are passed over, the first one whose fields do not decides, and its body is evaluated once,
when all of its fields have accepted.  `course_dispatchFrom` says that trying cases takes such a
course.

The cases of a longer list run as those of a shorter one, but for one name: the listing keeps the
tuple of its functions under it, and so hides what an environment has there.  A case asks for the
tuple if an expression has the name and no field binds it (`Case.AsksForCases`).  If no case does,
then trying one list after the other is trying both as one list (`first_match_wins`): the first list
decides unless it is exhausted, and then the second one does.  `longer_list_changes_value` is a case
that asks, and gives another value in a longer list.
-/

namespace BitPattern

/-- The same outcome of cases whose places are counted from further ahead. -/
def MatchResult.shift {α : Type} (n : Nat) (r : MatchResult α) : MatchResult α :=
  ⟨r.found.map fun p => (n + p.1, p.2)⟩

/-- What the cases of a list make of a subject, and then, if none of them matches, those of another
one whose places are counted on. -/
def Run.orElse {α : Type} (first : Run (MatchResult α)) (n : Nat) (second : Run (MatchResult α)) :
    Run (MatchResult α) :=
  first >>= fun r =>
    match r.found with
    | some _ => pure r
    | none => second >>= fun r => pure (r.shift n)

namespace Plan

open BitPattern.Text Run

/-! ## Trying cases -/

section Dispatch

variable {α : Type} {subject : Bitstring} {functions : List (Bitstring → Run (Option α))}

lemma dispatchFrom_cons (index : Nat) (f : Bitstring → Run (Option α)) :
    dispatchFrom index subject (f :: functions) =
      (f subject >>= fun
        | some v => pure ⟨some (index, v)⟩
        | none => dispatchFrom (index + 1) subject functions) := by
  change (f subject >>= _) = _
  refine congrArg _ (funext fun v => ?_)
  cases v <;> rfl

/-- Counting from further ahead shifts the outcome. -/
lemma dispatchFrom_add (n index : Nat) :
    (dispatchFrom (n + index) subject functions : Run (MatchResult α)) =
      (dispatchFrom index subject functions >>= fun r => pure (r.shift n)) := by
  induction functions generalizing index with
  | nil => rfl
  | cons f functions ih =>
      rw [dispatchFrom_cons, dispatchFrom_cons, Run.bind_assoc]
      refine congrArg _ (funext fun v => ?_)
      cases v with
      | some v => rfl
      | none => exact ih (index + 1)

/-- The functions of a list are tried after those before them. -/
lemma dispatchFrom_append (index : Nat) (more : List (Bitstring → Run (Option α))) :
    dispatchFrom index subject (functions ++ more) =
      (dispatchFrom index subject functions >>= fun r =>
        match r.found with
        | some _ => pure r
        | none => dispatchFrom (index + functions.length) subject more) := by
  induction functions generalizing index with
  | nil =>
      rw [List.nil_append]
      show _ = ((pure ⟨none⟩ : Run (MatchResult α)) >>= _)
      rw [Run.pure_bind]
      rfl
  | cons f functions ih =>
      rw [List.cons_append, dispatchFrom_cons, dispatchFrom_cons, Run.bind_assoc]
      refine congrArg _ (funext fun v => ?_)
      cases v with
      | some v =>
          show _ = ((pure ⟨some (index, v)⟩ : Run (MatchResult α)) >>= _)
          rw [Run.pure_bind]
      | none =>
          -- The first function has been passed, so the others count from one more.
          have hlength : index + (f :: functions).length = index + 1 + functions.length := by
            rw [List.length_cons]
            omega
          rw [hlength]
          exact ih (index + 1)

/-- Trying both lists is trying the first one and then the second one. -/
lemma dispatch_append (more : List (Bitstring → Run (Option α))) :
    dispatch (functions ++ more) subject =
      (dispatch functions subject).orElse functions.length (dispatch more subject) := by
  unfold dispatch Run.orElse
  rw [dispatchFrom_append]
  refine congrArg _ (funext fun r => ?_)
  cases r.found with
  | some p => rfl
  | none => rw [← dispatchFrom_add, Nat.zero_add, Nat.add_zero]

end Dispatch

/-! ## The course of a match -/

/-- The run of the fields of a case, up to the body. -/
def CasePlan.tryFields (plan : CasePlan) (globals : List (String × Value)) (subject : Bitstring) :
    Run (Option State) :=
  runFields (Frame.lookup ⟨plan.locals, globals⟩) subject (.start subject) plan.fields

/-- The run of the body of a case where its fields have accepted. -/
def CasePlan.runBody (plan : CasePlan) (globals : List (String × Value)) (s : State) : Run Value :=
  plan.body.run (Frame.lookup ⟨plan.locals, globals⟩ s.bound)

/-- The courses that trying cases can take, numbered on from an index. -/
inductive Course (globals : List (String × Value)) (subject : Bitstring) :
    Nat → List CasePlan → Run (MatchResult Value) → Prop where
  /-- No case is left. -/
  | exhausted (index : Nat) : Course globals subject index [] (pure ⟨none⟩)
  /-- The fields of a case refuse, its body is not evaluated, and the next case is tried. -/
  | refused {index : Nat} {plan : CasePlan} {plans : List CasePlan} {run : Run (MatchResult Value)}
      (h : (plan.tryFields globals subject).result = .ok none)
      (hrest : Course globals subject (index + 1) plans run) :
      Course globals subject index (plan :: plans)
        ⟨(plan.tryFields globals subject).calls ++ run.calls, run.result⟩
  /-- A field of a case fails.  No body is evaluated and no further case is tried. -/
  | failed {index : Nat} {plan : CasePlan} {plans : List CasePlan} {f : Fault}
      (h : (plan.tryFields globals subject).result = .error f) :
      Course globals subject index (plan :: plans)
        ⟨(plan.tryFields globals subject).calls, .error f⟩
  /-- All fields of a case accept.  Its body is evaluated once, and no further case is tried. -/
  | decided {index : Nat} {plan : CasePlan} {plans : List CasePlan} {s : State}
      (h : (plan.tryFields globals subject).result = .ok (some s)) :
      Course globals subject index (plan :: plans)
        ⟨(plan.tryFields globals subject).calls ++ (plan.runBody globals s).calls,
          (fun v => ⟨some (index, v)⟩) <$> (plan.runBody globals s).result⟩

lemma CasePlan.run_eq (plan : CasePlan) (globals : List (String × Value)) (subject : Bitstring) :
    plan.run globals subject = (plan.tryFields globals subject >>= fun
      | none => pure none
      | some s => plan.runBody globals s >>= fun v => pure (some v)) := by
  change (plan.tryFields globals subject >>= _) = _
  refine congrArg _ (funext fun s => ?_)
  cases s <;> rfl

/-- Trying cases takes one of the courses. -/
lemma course_dispatchFrom (globals : List (String × Value)) (subject : Bitstring) (index : Nat)
    (plans : List CasePlan) :
    Course globals subject index plans
      (dispatchFrom index subject (plans.map fun plan => plan.run globals)) := by
  induction plans generalizing index with
  | nil => exact .exhausted index
  | cons plan plans ih =>
      rw [List.map_cons, dispatchFrom_cons, CasePlan.run_eq, Run.bind_assoc]
      cases hfields : (plan.tryFields globals subject).result with
      | error f =>
          rw [bind_of_error hfields]
          exact .failed hfields
      | ok accepted =>
          cases accepted with
          | none =>
              rw [bind_of_ok hfields]
              exact .refused hfields (ih (index + 1))
          | some s =>
              -- Behind the body nothing more is tried, whatever it ends in.
              have hbody : ∀ k : Option Value → Run (MatchResult Value),
                  (∀ v, k (some v) = pure ⟨some (index, v)⟩) →
                    ((plan.runBody globals s >>= fun v => pure (some v)) >>= k) =
                      ⟨(plan.runBody globals s).calls,
                        (fun v => ⟨some (index, v)⟩) <$> (plan.runBody globals s).result⟩ := by
                intro k hk
                rw [Run.bind_assoc]
                simp only [Run.pure_bind, hk]
                exact Run.bind_pure_comp _ _
              rw [bind_of_ok hfields]
              dsimp only
              rw [hbody _ fun v => rfl]
              exact .decided hfields

/-! ## Cases in a longer list -/

end Plan

/-- A case asks for the name under which a listing keeps the tuple of its functions: some expression
has the name, and it is no local of the case. -/
def Case.AsksForCases (c : Case) : Prop :=
  Matcher.casesName ∉ (Field.namesOf (Plan.effectiveFields c)).map Text.localName ∧
    ∃ use ∈ c.expressions, Matcher.casesName ∈ use.2.freeNames

instance (c : Case) : Decidable c.AsksForCases :=
  inferInstanceAs (Decidable (_ ∧ ∃ use ∈ c.expressions, Matcher.casesName ∈ use.2.freeNames))

namespace Plan

open BitPattern.Text

variable {ctx : Context} {c : Case}

lemma eq_of_lexicalLength {length e : Expr} (h : lexicalLength length = .computed e) :
    e = length := by
  unfold lexicalLength at h
  cases hfold : length.fold? with
  | some n =>
      rw [hfold] at h
      dsimp only at h
      split at h <;> cases h
  | none =>
      rw [hfold] at h
      cases h
      rfl

lemma eq_of_lexicalOrder {type : FieldType} {endian : Option Endianness} {e : Expr}
    {native : String} (h : lexicalOrder ctx type endian = .computed e native) :
    endian = some (.computed e) := by
  unfold lexicalOrder at h
  split at h
  · cases h
    rfl
  · cases h
  · cases h
  · cases h

/-- The expressions of the plan of a field are expressions of the field. -/
lemma mem_expressions_of_mem_uses {field : Field} {before : List String}
    {use : List String × Expr} (h : use ∈ (lexicalField ctx field).uses before) :
    use ∈ field.expressions before := by
  -- The empty specification holds no setting, so what a plan holds comes from the field.
  have hspec : ∀ {α : Type} (get : Spec → Option α) {a : α}, get .empty = none →
      get (field.spec.getD .empty) = some a → field.spec.bind get = some a := by
    intro α get a hempty hget
    cases hspec : field.spec with
    | none =>
        rw [hspec, Option.getD_none, hempty] at hget
        cases hget
    | some spec =>
        rw [hspec] at hget
        exact hget
  simp only [FieldPlan.uses, List.mem_append] at h
  simp only [Field.expressions, List.mem_append, List.mem_map]
  -- The length, the byte order, and what is evaluated with the names of the pattern bound.
  rcases h with (h | h) | h
  · split at h
    · rename_i e he
      have hlength : field.length = some e := by
        change lexicalLength (field.length.getD (.int 0)) = .computed e at he
        cases hlength : field.length with
        | none =>
            rw [hlength] at he
            cases he
        | some length =>
            rw [hlength] at he
            rw [eq_of_lexicalLength he, Option.getD_some]
      rw [List.mem_singleton.mp h]
      exact .inl ⟨e, by simp [Field.outerExprs, hlength], rfl⟩
    · cases h
    · cases h
  · split at h
    · rename_i e native he
      have hendian := hspec Spec.endian rfl (eq_of_lexicalOrder he)
      rw [List.mem_singleton.mp h]
      exact .inl ⟨e, by simp [Field.outerExprs, hendian, Endianness.expr?], rfl⟩
    · cases h
  · obtain ⟨e, he, rfl⟩ := List.mem_map.mp h
    refine .inr ⟨e, ?_, rfl⟩
    simp only [List.mem_append, Option.mem_toList] at he
    simp only [Field.innerExprs, List.mem_append, Option.mem_toList]
    rcases he with (he | he) | he
    · exact .inl (.inl (hspec Spec.bind rfl he))
    · exact .inl (.inr (hspec Spec.check rfl he))
    · exact .inr (hspec Spec.offset rfl he)

lemma mem_expressionsOf_of_mem_usesOf {fields : List Field} {before : List String}
    {use : List String × Expr} (h : use ∈ usesOf before (fields.map (lexicalField ctx))) :
    use ∈ Field.expressionsOf before fields := by
  induction fields generalizing before with
  | nil => cases h
  | cons field fields ih =>
      rcases List.mem_append.mp h with h | h
      · exact List.mem_append_left _ (mem_expressions_of_mem_uses h)
      · exact List.mem_append_right _ (ih h)

/-- An expression of the plan of a case is one of the case, or a bound name that its body takes. -/
lemma mem_expressions_of_mem_lexicalCase {use : List String × Expr}
    (h : use ∈ (lexicalCase ctx c).uses) :
    (∃ use' ∈ c.expressions, use'.2 = use.2) ∨
      ∃ x ∈ Field.namesOf (effectiveFields c), use.2 = .name x := by
  rcases List.mem_append.mp h with h | h
  · exact .inl ⟨use, List.mem_append_left _ (mem_expressionsOf_of_mem_usesOf h), rfl⟩
  · have hbody : (lexicalCase ctx c).body = lexicalBody c := rfl
    rw [hbody] at h
    unfold lexicalBody at h
    cases hexpr : c.body with
    | expr e =>
        simp only [hexpr, BodyPlan.uses, List.mem_singleton] at h
        refine .inl ⟨(Field.namesOf (effectiveFields c), e), ?_, by rw [h]⟩
        exact List.mem_append_right _ (by simp [hexpr])
    | callable callable =>
        simp only [hexpr, BodyPlan.uses, List.map_map, List.mem_map, Function.comp_apply] at h
        obtain ⟨x, hx, rfl⟩ := h
        refine .inr ⟨x, ?_, rfl⟩
        cases hargs : bodyArguments callable.signature (boundNames c) c.fieldsText with
        | error cause =>
            rw [hargs] at hx
            cases hx
        | ok args =>
            rw [hargs] at hx
            exact mem_boundNames.mp (mem_of_bodyArguments hargs x hx)

/-- A case that does not ask for the tuple of functions, and has no local of its name, does not
mention it. -/
lemma free_of_not_asks (h : ¬c.AsksForCases)
    (hlocal : Matcher.casesName ∉ (lexicalCase ctx c).locals.map localName) :
    (lexicalCase ctx c).FreeOf Matcher.casesName := by
  have hlocals : (lexicalCase ctx c).locals = Field.namesOf (effectiveFields c) :=
    locals_lexicalFields (effectiveFields c)
  have hself : localName Matcher.casesName = Matcher.casesName := by decide
  have hbound : Matcher.casesName ∉ (lexicalCase ctx c).locals := by
    intro hmem
    refine hlocal ?_
    rw [← hself]
    exact List.mem_map_of_mem hmem
  refine ⟨hbound, hlocal, ?_⟩
  intro use huse hname
  rcases mem_expressions_of_mem_lexicalCase huse with ⟨use', huse', heq⟩ | ⟨x, hx, heq⟩
  · refine h ⟨hlocals ▸ hlocal, use', huse', ?_⟩
    rw [heq]
    exact hname
  · rw [heq, Expr.mem_freeNames_name] at hname
    rw [hlocals, hname] at hbound
    exact hbound hx

/-- A case that does not ask for the tuple of functions runs the same whatever the tuple is. -/
lemma CasePlan.run_congr_cases {plan : CasePlan} (hplan : planCase ctx c = .ok plan)
    (hmeasured : ∀ field ∈ plan.fields, field.Measured) (h : ¬c.AsksForCases)
    {globals globals' : List (String × Value)}
    (hglobals : AgreeOff [Matcher.casesName] globals globals') (subject : Bitstring) :
    plan.run globals subject = plan.run globals' subject := by
  obtain ⟨rfl, -⟩ := planCase_eq_resolved hplan
  set lexical := lexicalCase ctx c with hlexical
  have hlocals : lexical.resolved.locals = lexical.locals.map localName :=
    locals_resolvedFields lexical.fields
  by_cases hlocal : Matcher.casesName ∈ lexical.locals.map localName
  · -- A local hides the tuple.
    have hnames : NamesAgree [] (Frame.lookup ⟨lexical.resolved.locals, globals⟩)
        (Frame.lookup ⟨lexical.resolved.locals, globals'⟩) := by
      refine namesAgree_lookup (fun _ _ => Iff.rfl) fun x _ hx => hglobals x ?_
      intro hcases
      rw [hlocals, List.mem_singleton.mp hcases] at hx
      exact hx hlocal
    exact CasePlan.runWith_agree hnames hmeasured (fun _ _ _ _ _ _ => List.not_mem_nil)
      fun _ _ _ _ => List.not_mem_nil
  · have hfree := free_of_not_asks h hlocal
    obtain ⟨hfields, hbody⟩ := @avoids_of_free [Matcher.casesName] lexical
      fun x hx => List.mem_singleton.mp hx ▸ hfree
    exact CasePlan.runWith_agree (namesAgree_lookup (fun _ _ => Iff.rfl) fun x hx _ =>
      hglobals x hx) hmeasured hfields hbody

/-! ## Lists of cases -/

/-- The plan of a case with another index is its plan with that index. -/
lemma planCase_index {plan : CasePlan} (h : planCase ctx c = .ok plan) (index : Int) :
    planCase ctx { c with index } = .ok { plan with index } := by
  unfold planCase at h ⊢
  obtain ⟨⟨fields, scope⟩, hfields, h⟩ := result_bind_eq_ok.mp h
  obtain ⟨body, hbody, h⟩ := result_bind_eq_ok.mp h
  cases h
  refine result_bind_eq_ok.mpr ⟨(fields, scope), hfields, ?_⟩
  exact result_bind_eq_ok.mpr ⟨body, hbody, rfl⟩

/-- Cases that are the same but for their indices. -/
abbrev SameCases : List Case → List Case → Prop :=
  List.Forall₂ fun c c' => ∃ index, c' = { c with index }

lemma sameCases_renumber (i j : Nat) (cases : List Case) :
    SameCases (Matcher.renumber i cases) (Matcher.renumber j cases) := by
  induction cases generalizing i j with
  | nil => exact .nil
  | cons c cases ih => exact .cons ⟨j, rfl⟩ (ih (i + 1) (j + 1))

lemma renumber_append (index : Nat) (cases more : List Case) :
    Matcher.renumber index (cases ++ more) =
      Matcher.renumber index cases ++ Matcher.renumber (index + cases.length) more := by
  induction cases generalizing index with
  | nil => rfl
  | cons c cases ih =>
      have hlength : index + (c :: cases).length = index + 1 + cases.length := by
        rw [List.length_cons]
        omega
      rw [List.cons_append, Matcher.renumber, Matcher.renumber, ih, hlength, List.cons_append]

/-- The same cases have plans with the same locals that run the same. -/
lemma planned_of_sameCases {cases cases' : List Case} {plans : List CasePlan}
    (hsame : SameCases cases cases')
    (hplans : List.Forall₂ (fun c plan => planCase ctx c = .ok plan) cases plans) :
    ∃ plans', List.Forall₂ (fun c plan => planCase ctx c = .ok plan) cases' plans' ∧
      plans'.map CasePlan.locals = plans.map CasePlan.locals ∧
      ∀ globals, plans'.map (fun plan => plan.run globals) =
        plans.map fun plan => plan.run globals := by
  induction hsame generalizing plans with
  | nil =>
      cases hplans
      exact ⟨[], .nil, rfl, fun _ => rfl⟩
  | @cons c c' cases cases' hc _ ih =>
      obtain ⟨index, rfl⟩ := hc
      cases hplans with
      | @cons _ plan _ plans hplan hplans =>
          obtain ⟨plans', hplans', hlocals, hruns⟩ := ih hplans
          refine ⟨{ plan with index } :: plans', .cons (planCase_index hplan index) hplans', ?_, ?_⟩
          · rw [List.map_cons, List.map_cons, hlocals]
            rfl
          · intro globals
            rw [List.map_cons, List.map_cons, hruns]
            rfl

/-- One list of cases tried after another, as one list: the first one decides unless it is
exhausted, and then the second one does, with its places counted on. -/
structure Sequence (first second both : Matcher) : Prop where
  /-- A match of the first list is the match of both. -/
  matched : ∀ v calls found, first.tryMatch v = ⟨calls, .ok ⟨some found⟩⟩ →
    both.tryMatch v = ⟨calls, .ok ⟨some found⟩⟩
  /-- A fault of the first list is the fault of both. -/
  failed : ∀ v calls f, first.tryMatch v = ⟨calls, .error f⟩ →
    both.tryMatch v = ⟨calls, .error f⟩
  /-- Where the first list is exhausted the second one decides. -/
  exhausted : ∀ v calls, first.tryMatch v = ⟨calls, .ok ⟨none⟩⟩ →
    both.tryMatch v = ⟨calls ++ (second.tryMatch v).calls,
      (MatchResult.shift first.size) <$> (second.tryMatch v).result⟩
  /-- A match of both lists takes one of the courses, in which a body is evaluated only where all
  fields of its case have accepted, and no case after it is tried. -/
  course : ∀ v subject, v.subject = .ok subject →
    Course both.globals subject 0 both.plans (both.tryMatch v)

/-- What is made of a subject by one list of cases and then by another one is a sequence. -/
lemma sequence_of_orElse {first second both : Matcher}
    (h : ∀ v, both.tryMatch v = (first.tryMatch v).orElse first.size (second.tryMatch v)) :
    Sequence first second both where
  matched v calls found hfirst := by
    rw [h, hfirst, Run.orElse, Run.bind_of_ok rfl]
    exact Run.ext (List.append_nil calls) rfl
  failed v calls f hfirst := by
    rw [h, hfirst, Run.orElse, Run.bind_of_error rfl]
  exhausted v calls hfirst := by
    rw [h, hfirst, Run.orElse, Run.bind_of_ok rfl]
    dsimp only
    rw [Run.bind_pure_comp]
  course v subject hv := by
    unfold Matcher.tryMatch
    rw [hv, Run.ofExcept_ok, Run.pure_bind]
    exact course_dispatchFrom both.globals subject 0 both.plans

/-- Environments of two listings differ in the tuple of functions only. -/
lemma globalsOf_agreeOff_cases (plans plans' : List CasePlan) (env : List (String × Value)) :
    AgreeOff [Matcher.casesName] (Matcher.globalsOf plans env) (Matcher.globalsOf plans' env) := by
  intro x hx
  rw [Matcher.globalsOf, Matcher.globalsOf, List.cons_append, List.cons_append, lookup_cons_eq,
    lookup_cons_eq, if_neg (by simpa using hx), if_neg (by simpa using hx)]

section Matchers

variable {config : Config} {env : List (String × Value)} {cases more more' : List Case}
  {first second : Matcher}

/-- A matcher has the plans of its cases, of which there is at least one. -/
lemma planCases_of_ofNumbered {m : Matcher} (h : Matcher.ofNumbered config env cases = .ok m) :
    planCases (Matcher.context config env) cases = .ok m.plans ∧ m.cases = cases := by
  unfold Matcher.ofNumbered at h
  cases hplans : planCases (Matcher.context config env) cases with
  | error cause => rw [hplans] at h; cases h
  | ok plans =>
      rw [hplans] at h
      dsimp only at h
      split at h
      · cases h
      · cases h
        exact ⟨rfl, rfl⟩

lemma printable_append (hfirst : Matcher.Printable config cases)
    (hsecond : Matcher.Printable config more) (hsame : SameCases more more') :
    Matcher.Printable config (cases ++ more') := by
  refine ⟨hfirst.1, fun c hc => ?_⟩
  rcases List.mem_append.mp hc with hc | hc
  · exact hfirst.2 c hc
  · obtain ⟨i, hi, rfl⟩ := List.mem_iff_getElem.mp hc
    have hi' : i < more.length := by rwa [hsame.length_eq]
    obtain ⟨index, hindex⟩ := hsame.get hi' hi
    simp only [List.get_eq_getElem] at hindex
    rw [hindex]
    exact hsecond.2 more[i] (List.getElem_mem hi')

/-- The cases of a matcher run the same beside others, if none asks for the tuple of functions. -/
lemma functions_congr {m : Matcher} (hm : Matcher.ofNumbered config env cases = .ok m)
    (hasks : ∀ c ∈ cases, ¬c.AsksForCases) (plans : List CasePlan) :
    m.plans.map (fun plan => plan.run (Matcher.globalsOf plans env)) = m.functions := by
  obtain ⟨-, -, -, hglobals⟩ := Matcher.ofNumbered_eq_ok hm
  refine List.map_congr_left fun plan hplan => funext fun subject => ?_
  obtain ⟨c, hc, hplanned⟩ := Matcher.planCase_of_mem hm hplan
  rw [hglobals]
  exact CasePlan.run_congr_cases hplanned
    (fun field hfield => (measured_of_mem hm hplan field hfield).1) (hasks c hc)
    (globalsOf_agreeOff_cases _ _ env) subject

/-- **Two lists of cases as one list.** If each of them makes a matcher, and no case asks for the
tuple of functions, both make one, which tries the first list and then the second one. -/
lemma sequence_ofNumbered (hfirst : Matcher.ofNumbered config env cases = .ok first)
    (hsecond : Matcher.ofNumbered config env more = .ok second) (hsame : SameCases more more')
    (hasks : ∀ c ∈ cases ++ more, ¬c.AsksForCases) :
    ∃ both, Matcher.ofNumbered config env (cases ++ more') = .ok both ∧
      Sequence first second both := by
  obtain ⟨henv, hplans, hload, -⟩ := Matcher.ofNumbered_eq_ok hfirst
  obtain ⟨-, hplans₂, hload₂, -⟩ := Matcher.ofNumbered_eq_ok hsecond
  obtain ⟨plans', hplans', hlocals, hruns⟩ := planned_of_sameCases hsame hplans₂
  obtain ⟨hplanned, hcases⟩ := planCases_of_ofNumbered hfirst
  have hne : cases ++ more' ≠ [] := by
    obtain ⟨-, hne, -⟩ := planCases_eq_ok hplanned
    simp [hne]
  -- What is checked when a matcher is made holds of both lists together, as it does of each.
  have hprintable := printable_append (Matcher.printable_of_ofNumbered hfirst)
    (Matcher.printable_of_ofNumbered hsecond) hsame
  have hloadable : ¬(first.plans ++ plans').any (·.locals.contains constantName) = true := by
    simp only [List.any_eq_true, List.contains_iff_mem, not_exists, not_and, List.mem_append]
    rintro plan (hplan | hplan)
    · exact constantName_not_mem hload hplan
    · obtain ⟨plan₂, hplan₂, heq⟩ := List.mem_map.mp (hlocals ▸ List.mem_map_of_mem hplan)
      rw [← heq]
      exact constantName_not_mem hload₂ hplan₂
  refine ⟨⟨config, cases ++ more', first.plans ++ plans',
    Matcher.globalsOf (first.plans ++ plans') env⟩, ?_, sequence_of_orElse fun v => ?_⟩
  · rw [Matcher.ofNumbered_eq (planCases_eq henv hne (List.rel_append hplans hplans')),
      if_neg (not_not.mpr hprintable), if_neg hloadable]
  · -- No function sees the longer tuple, so each does in the list what it does alone.
    have hfunctions : (Matcher.mk config (cases ++ more') (first.plans ++ plans')
        (Matcher.globalsOf (first.plans ++ plans') env)).functions =
          first.functions ++ second.functions := by
      obtain ⟨hasks, hasks₂⟩ := List.forall_mem_append.mp hasks
      show (first.plans ++ plans').map (fun plan =>
        plan.run (Matcher.globalsOf (first.plans ++ plans') env)) = _
      rw [List.map_append, hruns, functions_congr hfirst hasks, functions_congr hsecond hasks₂]
    have hsize : first.size = first.functions.length := by
      rw [Matcher.size, hcases, hplans.length_eq, Matcher.functions, List.length_map]
    unfold Matcher.tryMatch
    rw [hfunctions, hsize]
    cases v.subject with
    | error f => rfl
    | ok subject =>
        simp only [Run.ofExcept_ok, Run.pure_bind]
        exact dispatch_append second.functions

end Matchers

/-! ## Cases as callers give them -/

/-- The place of a case decides nothing but its index. -/
lemma ofTexts_index {implicitInt : Bool} {index : Int} {fields : String} {body : BodyInput}
    (h : Case.ofTexts implicitInt index fields body = .ok c) (index' : Int) :
    Case.ofTexts implicitInt index' fields body = .ok { c with index := index' } := by
  unfold Case.ofTexts at h ⊢
  obtain ⟨parsedBody, hbody, h⟩ := result_bind_eq_ok.mp h
  obtain ⟨parsed, hparsed, h⟩ := result_bind_eq_ok.mp h
  cases h
  refine result_bind_eq_ok.mpr ⟨parsedBody, hbody, ?_⟩
  exact result_bind_eq_ok.mpr ⟨parsed, hparsed, rfl⟩

lemma ofPair_index {implicitInt : Bool} {index : Int} {fields : Value} {body : BodyInput}
    (h : Case.ofPair implicitInt index fields body = .ok c) (index' : Int) :
    Case.ofPair implicitInt index' fields body = .ok { c with index := index' } := by
  unfold Case.ofPair at h ⊢
  split at h
  · rename_i text
    cases htexts : Case.ofTexts implicitInt index text body with
    | error d =>
        rw [htexts] at h
        cases h
    | ok c' =>
        rw [htexts] at h
        cases h
        rw [ofTexts_index htexts index']
        rfl
  · split at h <;> cases h

lemma ofInput_index {implicitInt : Bool} {index : Nat} {input : CaseInput}
    (h : Case.ofInput implicitInt index input = .ok c) (index' : Nat) :
    Case.ofInput implicitInt index' input = .ok { c with index := index' } := by
  unfold Case.ofInput at h ⊢
  split at h
  · exact ofPair_index h index'
  · exact ofPair_index h index'
  · cases h

lemma ofInputs_index {implicitInt : Bool} {index : Nat} {inputs : List CaseInput}
    {cases : List Case} (h : Case.ofInputs implicitInt index inputs = .ok cases) (index' : Nat) :
    ∃ cases', Case.ofInputs implicitInt index' inputs = .ok cases' ∧ SameCases cases cases' := by
  induction inputs generalizing index index' cases with
  | nil =>
      cases h
      exact ⟨[], rfl, .nil⟩
  | cons input inputs ih =>
      rw [Case.ofInputs] at h
      obtain ⟨c, hc, h⟩ := result_bind_eq_ok.mp h
      obtain ⟨rest, hrest, h⟩ := result_bind_eq_ok.mp h
      cases h
      obtain ⟨rest', hrest', hsame⟩ := ih hrest (index' + 1)
      refine ⟨_, ?_, .cons ⟨index', rfl⟩ hsame⟩
      rw [Case.ofInputs]
      refine result_bind_eq_ok.mpr ⟨_, ofInput_index hc index', ?_⟩
      exact result_bind_eq_ok.mpr ⟨rest', hrest', rfl⟩

lemma ofInputs_append {implicitInt : Bool} {index : Nat} {inputs more : List CaseInput}
    {cases rest : List Case} (h : Case.ofInputs implicitInt index inputs = .ok cases)
    (hmore : Case.ofInputs implicitInt (index + inputs.length) more = .ok rest) :
    Case.ofInputs implicitInt index (inputs ++ more) = .ok (cases ++ rest) := by
  induction inputs generalizing index cases with
  | nil =>
      cases h
      exact hmore
  | cons input inputs ih =>
      rw [Case.ofInputs] at h
      obtain ⟨c, hc, h⟩ := result_bind_eq_ok.mp h
      obtain ⟨cases, hcases, h⟩ := result_bind_eq_ok.mp h
      cases h
      have hlength : index + (input :: inputs).length = index + 1 + inputs.length := by
        rw [List.length_cons]
        omega
      rw [hlength] at hmore
      rw [List.cons_append, Case.ofInputs]
      refine result_bind_eq_ok.mpr ⟨c, hc, ?_⟩
      exact result_bind_eq_ok.mpr ⟨cases ++ rest, ih hcases hmore, rfl⟩

/-- **The first match wins.**  If two lists of cases make matchers under one configuration and
environment, and no case asks for the tuple of functions, then both lists make a matcher as one, and
it tries the first list and then the second one.  So it is with cases that are parsed and with cases
as a caller gives them. -/
theorem first_match_wins (config : Config) (env : List (String × Value)) (first second : Matcher)
    (hasks : ∀ c ∈ first.cases ++ second.cases, ¬c.AsksForCases) :
    (∀ cases more : List Case, Matcher.ofCases config env cases = .ok first →
      Matcher.ofCases config env more = .ok second →
        ∃ both, Matcher.ofCases config env (cases ++ more) = .ok both ∧
          Sequence first second both) ∧
    ∀ cases more : List CaseInput, Matcher.ofInputs config env cases = .ok first →
      Matcher.ofInputs config env more = .ok second →
        ∃ both, Matcher.ofInputs config env (cases ++ more) = .ok both ∧
          Sequence first second both := by
  constructor
  · intro cases more hfirst hsecond
    obtain ⟨_, hconfig, hfirst⟩ := result_bind_eq_ok.mp hfirst
    obtain ⟨_, -, hsecond⟩ := result_bind_eq_ok.mp hsecond
    rw [(planCases_of_ofNumbered hfirst).2, (planCases_of_ofNumbered hsecond).2] at hasks
    obtain ⟨both, hboth, hsequence⟩ := sequence_ofNumbered hfirst hsecond
      (sameCases_renumber 0 (0 + cases.length) more) hasks
    refine ⟨both, result_bind_eq_ok.mpr ⟨_, hconfig, ?_⟩, hsequence⟩
    rw [renumber_append]
    exact hboth
  · intro cases more hfirst hsecond
    obtain ⟨_, hconfig, hfirst⟩ := result_bind_eq_ok.mp hfirst
    obtain ⟨_, -, hsecond⟩ := result_bind_eq_ok.mp hsecond
    obtain ⟨parsed, hparsed, hfirst⟩ := result_bind_eq_ok.mp hfirst
    obtain ⟨rest, hrest, hsecond⟩ := result_bind_eq_ok.mp hsecond
    rw [(planCases_of_ofNumbered hfirst).2, (planCases_of_ofNumbered hsecond).2] at hasks
    obtain ⟨rest', hrest', hsame⟩ := ofInputs_index hrest (0 + cases.length)
    obtain ⟨both, hboth, hsequence⟩ := sequence_ofNumbered hfirst hsecond hsame hasks
    refine ⟨both, result_bind_eq_ok.mpr ⟨_, hconfig, ?_⟩, hsequence⟩
    exact result_bind_eq_ok.mpr ⟨_, ofInputs_append hparsed hrest', hboth⟩

/-- Cases that are planned and can be loaded make a matcher, of which holds what holds of every one
with such plans and what names stand for beside them. -/
lemma exists_ofCases {config : Config} {env : List (String × Value)} {cases : List Case}
    {plans : List CasePlan} {P : Matcher → Prop} (hconfig : config.problems = [])
    (hprintable : Matcher.Printable config (Matcher.renumber 0 cases))
    (hplans : planCases (Matcher.context config env) (Matcher.renumber 0 cases) = .ok plans)
    (hlocals : ∀ plan ∈ plans, constantName ∉ plan.locals)
    (hmatcher : ∀ m : Matcher, m.plans = plans → m.globals = Matcher.globalsOf plans env → P m) :
    ∃ m, Matcher.ofCases config env cases = .ok m ∧ m.cases = Matcher.renumber 0 cases ∧ P m := by
  have hloadable : ¬plans.any (·.locals.contains constantName) = true := by
    simpa using hlocals
  refine ⟨⟨config, Matcher.renumber 0 cases, plans, Matcher.globalsOf plans env⟩, ?_, rfl,
    hmatcher _ rfl rfl⟩
  rw [Matcher.ofCases_eq hconfig, Matcher.ofNumbered_eq hplans, if_neg (not_not.mpr hprintable),
    if_neg hloadable]

/-- A case that accepts a byte of one value only. -/
def oneCase : Case where
  fieldsText := "1:8"
  fields := [⟨.constant (.int 1), some (.int 8), some .default, "1:8"⟩]
  body := .expr (.name "n")
  index := 0

/-- A case that accepts whatever is left. -/
def otherCase : Case where
  fieldsText := "_"
  fields := [⟨.wildcard, none, none, "_"⟩]
  body := .expr (.int 2)
  index := 0

/-- A byte that the first list refuses is left to the second one, whose case is counted on. -/
theorem first_match_wins_other :
    ∃ first second both, (∀ c ∈ first.cases ++ second.cases, ¬c.AsksForCases) ∧
      Matcher.ofCases {} [("n", .int 7)] [oneCase] = .ok first ∧
      Matcher.ofCases {} [("n", .int 7)] [otherCase] = .ok second ∧
      Matcher.ofCases {} [("n", .int 7)] ([oneCase] ++ [otherCase]) = .ok both ∧
      (both.tryMatch (.ofBytes [1])).result = .ok ⟨some (0, .int 7)⟩ ∧
      (both.tryMatch (.ofBytes [3])).result = .ok ⟨some (1, .int 2)⟩ := by
  obtain ⟨first, hfirst, hcases, hone, hother⟩ : ∃ m,
      Matcher.ofCases {} [("n", .int 7)] [oneCase] = .ok m ∧
        m.cases = Matcher.renumber 0 [oneCase] ∧
        m.tryMatch (.ofBytes [1]) = ⟨[], .ok ⟨some (0, .int 7)⟩⟩ ∧
        m.tryMatch (.ofBytes [3]) = ⟨[], .ok ⟨none⟩⟩ := by
    refine exists_ofCases rfl (by decide) rfl (by decide) ?_
    rintro ⟨config, cases, plans, globals⟩ rfl rfl
    exact ⟨rfl, rfl⟩
  obtain ⟨second, hsecond, hcases', hleft⟩ : ∃ m,
      Matcher.ofCases {} [("n", .int 7)] [otherCase] = .ok m ∧
        m.cases = Matcher.renumber 0 [otherCase] ∧
        m.tryMatch (.ofBytes [3]) = ⟨[], .ok ⟨some (0, .int 2)⟩⟩ := by
    refine exists_ofCases rfl (by decide) rfl (by decide) ?_
    rintro ⟨config, cases, plans, globals⟩ rfl rfl
    rfl
  have hasks : ∀ c ∈ first.cases ++ second.cases, ¬c.AsksForCases := by
    rw [hcases, hcases']
    decide
  obtain ⟨both, hboth, hsequence⟩ :=
    (first_match_wins {} [("n", .int 7)] first second hasks).1 [oneCase] [otherCase] hfirst hsecond
  refine ⟨first, second, both, hasks, hfirst, hsecond, hboth, ?_, ?_⟩
  · rw [hsequence.matched _ _ _ hone]
  · rw [hsequence.exhausted _ _ hother, hleft, Matcher.size, hcases]
    rfl

/-- A case that asks how many functions the listing has. -/
def countingCase : Case where
  fieldsText := "_"
  fields := [⟨.wildcard, none, none, "_"⟩]
  body := .expr (.call "len" [.name "_BM_CASES"])
  index := 0

/-- The name is accepted in an environment, and stands for the tuple of functions all the same.
With another case behind it, the first case still matches, with another value. -/
theorem longer_list_changes_value :
    ∃ first second both,
      Matcher.ofCases {} [("_BM_CASES", .int 5)] [countingCase] = .ok first ∧
      Matcher.ofCases {} [("_BM_CASES", .int 5)] [otherCase] = .ok second ∧
      Matcher.ofCases {} [("_BM_CASES", .int 5)] ([countingCase] ++ [otherCase]) = .ok both ∧
      first.tryMatch (.ofBytes []) = ⟨[], .ok ⟨some (0, .int 1)⟩⟩ ∧
      both.tryMatch (.ofBytes []) = ⟨[], .ok ⟨some (0, .int 2)⟩⟩ := by
  obtain ⟨first, hfirst, -, hcounted⟩ : ∃ m,
      Matcher.ofCases {} [("_BM_CASES", .int 5)] [countingCase] = .ok m ∧
        m.cases = Matcher.renumber 0 [countingCase] ∧
        m.tryMatch (.ofBytes []) = ⟨[], .ok ⟨some (0, .int 1)⟩⟩ := by
    refine exists_ofCases rfl (by decide) rfl (by decide) ?_
    rintro ⟨config, cases, plans, globals⟩ rfl rfl
    rfl
  obtain ⟨second, hsecond, -⟩ : ∃ m,
      Matcher.ofCases {} [("_BM_CASES", .int 5)] [otherCase] = .ok m ∧
        m.cases = Matcher.renumber 0 [otherCase] ∧ True :=
    exists_ofCases rfl (by decide) rfl (by decide) fun _ _ _ => trivial
  obtain ⟨both, hboth, -, hlonger⟩ : ∃ m,
      Matcher.ofCases {} [("_BM_CASES", .int 5)] ([countingCase] ++ [otherCase]) = .ok m ∧
        m.cases = Matcher.renumber 0 ([countingCase] ++ [otherCase]) ∧
        m.tryMatch (.ofBytes []) = ⟨[], .ok ⟨some (0, .int 2)⟩⟩ := by
    refine exists_ofCases rfl (by decide) rfl (by decide) ?_
    rintro ⟨config, cases, plans, globals⟩ rfl rfl
    rfl
  exact ⟨first, second, both, hfirst, hsecond, hboth, hcounted, hlonger⟩

end Plan

end BitPattern
