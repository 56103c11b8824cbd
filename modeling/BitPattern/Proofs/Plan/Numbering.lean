import BitPattern.Proofs.Plan.Emission
import Mathlib.Tactic.FunProp

/-!
# Cases are planned and listed one by one

The cases of a list share nothing but the environment and the count of the names that their listings
make up.  Planning a list is planning each case alone and putting the plans together, so the first
case that fails alone decides how the list fails (`planCases_eq_flatten`).  The listing of a case
depends on the names made up before it in one way only: the numbers of its own made-up names are
counted on from there.  An `Outline` is a line with such numbers left open, and every case has the
same outlines wherever it stands (`cases_independent`).
-/

namespace BitPattern.Plan

open BitPattern.Text

/-! ## Outlines -/

/-- A piece of a line: a text, or a name that is made up so many names after the listing starts. -/
inductive Piece where
  | text (s : String)
  | made (kind : String) (i : Nat)
  deriving DecidableEq, Repr

/-- The text of a piece where that many names are made up before the listing. -/
def Piece.render (number : Nat) : Piece → String
  | text s => s
  | made kind i => fresh kind (number + i)

/-- A line in which the numbers of the made-up names are left open. -/
abbrev Outline := List Piece

/-- The line where that many names are made up before the listing. -/
def Outline.render (number : Nat) (o : Outline) : String :=
  String.join (o.map (Piece.render number))

/-! ## What depends on the count of names

The texts, the lines and the numbers that a listing is made of are functions of how many names are
made up before it.  Those that depend on it as an outline does are closed under all that a listing
is made with. -/

/-- A text with an outline. -/
@[fun_prop] def Outlined (text : Nat → String) : Prop :=
  ∃ o : Outline, ∀ number, text number = o.render number

/-- Lines with outlines. -/
@[fun_prop] def OutlinedLines (lines : Nat → List String) : Prop :=
  ∃ os : List Outline, ∀ number, lines number = os.map (Outline.render number)

/-- A number that is so many more than the one it starts from. -/
@[fun_prop] def Counted (count : Nat → Nat) : Prop :=
  ∃ i, ∀ number, count number = number + i

@[fun_prop] lemma Counted.start : Counted fun number => number :=
  ⟨0, fun _ => rfl⟩

@[fun_prop] lemma Counted.add {count : Nat → Nat} (h : Counted count) (j : Nat) :
    Counted fun number => count number + j := by
  obtain ⟨i, hi⟩ := h
  exact ⟨i + j, fun number => (congrArg (· + j) (hi number)).trans (Nat.add_assoc ..)⟩

@[fun_prop] lemma Outlined.const (s : String) : Outlined fun _ => s :=
  ⟨[.text s], fun _ => by simp [Outline.render, Piece.render]⟩

@[fun_prop] lemma Outlined.fresh (kind : String) {count : Nat → Nat} (h : Counted count) :
    Outlined fun number => fresh kind (count number) := by
  obtain ⟨i, hi⟩ := h
  exact ⟨[.made kind i], fun number => by simp [Outline.render, Piece.render, hi]⟩

@[fun_prop] lemma Outlined.append {f g : Nat → String} (hf : Outlined f) (hg : Outlined g) :
    Outlined fun number => f number ++ g number := by
  obtain ⟨o, ho⟩ := hf
  obtain ⟨o', ho'⟩ := hg
  exact ⟨o ++ o', fun number => by simp [ho, ho', Outline.render]⟩

namespace OutlinedLines

@[fun_prop] lemma const (lines : List String) : OutlinedLines fun _ => lines :=
  ⟨lines.map fun line => [.text line], fun number => by
    simp [Outline.render, Piece.render, Function.comp_def]⟩

@[fun_prop] lemma cons {f : Nat → String} {lines : Nat → List String} (hf : Outlined f)
    (hlines : OutlinedLines lines) : OutlinedLines fun number => f number :: lines number := by
  obtain ⟨o, ho⟩ := hf
  obtain ⟨os, hos⟩ := hlines
  exact ⟨o :: os, fun number => by simp [ho, hos]⟩

@[fun_prop] lemma append {lines more : Nat → List String} (hlines : OutlinedLines lines)
    (hmore : OutlinedLines more) : OutlinedLines fun number => lines number ++ more number := by
  obtain ⟨os, hos⟩ := hlines
  obtain ⟨os', hos'⟩ := hmore
  exact ⟨os ++ os', fun number => by simp [hos, hos']⟩

lemma map {α : Type} (xs : List α) {f : α → Nat → String} (h : ∀ x, Outlined (f x)) :
    OutlinedLines fun number => xs.map fun x => f x number := by
  induction xs with
  | nil => exact const []
  | cons x xs ih => exact cons (h x) ih

lemma indent {lines : Nat → List String} (h : OutlinedLines lines) :
    OutlinedLines fun number => (lines number).map ("    " ++ ·) := by
  obtain ⟨os, hos⟩ := h
  refine ⟨os.map (.text "    " :: ·), fun number => ?_⟩
  simp [hos, Outline.render, Piece.render, Function.comp_def]

end OutlinedLines

/-! ## Listings -/

section Walk

variable {cursor : Nat → Cursor} {count : Nat → Nat}

lemma FieldPlan.widthLines_outlined (plan : FieldPlan)
    (hlen : Outlined fun number => (cursor number).len) (hcount : Counted count) :
    OutlinedLines (fun number => (plan.widthLines (cursor number) (count number)).1) ∧
      Outlined (fun number => (plan.widthLines (cursor number) (count number)).2.1) ∧
      Counted fun number => (plan.widthLines (cursor number) (count number)).2.2 := by
  unfold FieldPlan.widthLines
  cases plan.length with
  | fixed n =>
      dsimp only
      exact ⟨by fun_prop, by fun_prop, by fun_prop⟩
  | rest =>
      dsimp only
      refine ⟨?_, by fun_prop, by fun_prop⟩
      split <;> fun_prop
  | computed e =>
      dsimp only
      refine ⟨?_, by fun_prop, by fun_prop⟩
      cases plan.type <;>
        · dsimp only
          fun_prop

lemma Test.code_outlined {value : Nat → String} (hvalue : Outlined value) (test : Test) :
    Outlined fun number => test.code (value number) := by
  cases test with
  | equal c =>
      change Outlined fun number => value number ++ " == " ++ c.display
      fun_prop
  | among c d cs =>
      change Outlined fun number =>
        value number ++ " in (" ++ ", ".intercalate ((c :: d :: cs).map Constant.display) ++ ")"
      fun_prop

lemma FieldPlan.readCode_outlined (plan : FieldPlan) {width : Nat → String}
    (hoff : Outlined fun number => (cursor number).off) (hwidth : Outlined width) :
    Outlined fun number => plan.readCode (cursor number) (width number) := by
  have hbytes : Outlined fun number => plan.bytesCode (width number) := by
    unfold FieldPlan.bytesCode
    cases plan.length <;> dsimp only <;> fun_prop
  unfold FieldPlan.readCode
  cases plan.type <;> dsimp only <;> fun_prop

lemma FieldPlan.valueLines_outlined (plan : FieldPlan) {value : Nat → String}
    (hvalue : Outlined value) : OutlinedLines fun number => plan.valueLines (value number) := by
  have hbind : OutlinedLines fun number => plan.bindLines (value number) :=
    .map plan.locals fun x => by fun_prop
  have htest : ∀ test : Test, Outlined fun number => test.code (value number) :=
    Test.code_outlined hvalue
  unfold FieldPlan.valueLines
  cases plan.rebind <;> cases plan.test <;> cases plan.check <;>
    · simp only [Option.map_none, Option.map_some, Option.toList_none, Option.toList_some,
        List.nil_append, List.cons_append, List.isEmpty_nil, List.isEmpty_cons, if_true,
        Bool.false_eq_true, if_false, String.intercalate_singleton, String.intercalate_cons_cons]
      fun_prop

lemma FieldPlan.advanceLines_outlined (plan : FieldPlan) {width : Nat → String}
    (hoff : Outlined fun number => (cursor number).off)
    (hlen : Outlined fun number => (cursor number).len) (hwidth : Outlined width)
    (hcount : Counted count) :
    OutlinedLines (fun number =>
        (plan.advanceLines (cursor number) (width number) (count number)).1) ∧
      Outlined (fun number =>
        (plan.advanceLines (cursor number) (width number) (count number)).2.off) ∧
      Outlined fun number =>
        (plan.advanceLines (cursor number) (width number) (count number)).2.len := by
  unfold FieldPlan.advanceLines
  cases plan.length <;>
    · dsimp only
      exact ⟨by fun_prop, by fun_prop, by fun_prop⟩

lemma jumpLines_outlined (e : Expr) (hcount : Counted count) :
    OutlinedLines (fun number => (jumpLines e (count number)).1) ∧
      Outlined (fun number => (jumpLines e (count number)).2.off) ∧
      Outlined fun number => (jumpLines e (count number)).2.len := by
  unfold jumpLines
  dsimp only
  exact ⟨by fun_prop, by fun_prop, by fun_prop⟩

lemma FieldPlan.listing_outlined (plan : FieldPlan)
    (hoff : Outlined fun number => (cursor number).off)
    (hlen : Outlined fun number => (cursor number).len) (hcount : Counted count) :
    OutlinedLines (fun number => (plan.listing (cursor number) (count number)).1) ∧
      Outlined (fun number => (plan.listing (cursor number) (count number)).2.1.off) ∧
      Outlined (fun number => (plan.listing (cursor number) (count number)).2.1.len) ∧
      Counted fun number => (plan.listing (cursor number) (count number)).2.2 := by
  -- The parts of a listing hand the running number on, so each is a function of the first one.
  obtain ⟨lines, width, count', hwidth, hlines, hwidth', hcount'⟩ :
      ∃ lines width count', (∀ number, plan.widthLines (cursor number) (count number) =
        (lines number, width number, count' number)) ∧ OutlinedLines lines ∧ Outlined width ∧
          Counted count' :=
    ⟨_, _, _, fun _ => rfl, plan.widthLines_outlined hlen hcount⟩
  have hread := plan.readCode_outlined hoff hwidth'
  have hvalue := plan.valueLines_outlined
    (Outlined.fresh "v" (hcount'.add 1))
  obtain ⟨readLines, valueLines, count'', hreads, hreadLines, hvalueLines, hcount''⟩ :
      ∃ readLines valueLines count'', (∀ number, (if plan.reads then
          ([fresh "v" (count' number + 1) ++ " = "
              ++ plan.readCode (cursor number) (width number)],
            plan.valueLines (fresh "v" (count' number + 1)), count' number + 1)
          else ([], [], count' number)) =
        (readLines number, valueLines number, count'' number)) ∧ OutlinedLines readLines ∧
          OutlinedLines valueLines ∧ Counted count'' := by
    cases plan.reads
    · exact ⟨_, _, _, fun _ => rfl, .const [], .const [], hcount'⟩
    · exact ⟨_, _, _, fun _ => rfl, by fun_prop, hvalue, hcount'.add 1⟩
  obtain ⟨hadvance, hnextOff, hnextLen⟩ :=
    plan.advanceLines_outlined hoff hlen hwidth' hcount''
  unfold FieldPlan.listing
  simp only [hwidth, hreads]
  -- Two numbers are used up for the cursor, and two more for a jump.
  cases plan.jump with
  | none =>
      dsimp only
      exact ⟨by fun_prop, hnextOff, hnextLen, hcount''.add 2⟩
  | some e =>
      obtain ⟨hjump, hjumpOff, hjumpLen⟩ := jumpLines_outlined e (hcount''.add 2)
      dsimp only
      exact ⟨by fun_prop, hjumpOff, hjumpLen, (hcount''.add 2).add 2⟩

lemma fieldsListing_outlined (plans : List FieldPlan)
    (hoff : Outlined fun number => (cursor number).off)
    (hlen : Outlined fun number => (cursor number).len) (hcount : Counted count) :
    OutlinedLines (fun number => (fieldsListing (cursor number) (count number) plans).1) ∧
      Counted fun number => (fieldsListing (cursor number) (count number) plans).2.2 := by
  induction plans generalizing cursor count with
  | nil => exact ⟨.const [], hcount⟩
  | cons plan plans ih =>
      obtain ⟨hlines, hnextOff, hnextLen, hnext⟩ := plan.listing_outlined hoff hlen hcount
      obtain ⟨hmore, hlast⟩ := ih hnextOff hnextLen hnext
      unfold fieldsListing
      exact ⟨hlines.append hmore, hlast⟩

end Walk

/-- The function of a planned case has outlines, and makes up the same number of names wherever it
stands. -/
lemma listing_outlined {ctx : Context} {c : Case} {plan : CasePlan}
    (henv : checkEnv ctx.env = .ok ()) (h : planCase ctx c = .ok plan) :
    OutlinedLines (fun number => (plan.listing number).1) ∧
      Counted fun number => (plan.listing number).2 := by
  obtain ⟨hfields, hcount⟩ := @fieldsListing_outlined (fun _ => .start) _ plan.fields
    (.const _) (.const _) .start
  have hbody : OutlinedLines fun number => (plan.bodyListing .start number).1 :=
    hfields.append (.const _)
  simp only [listing_planned henv h]
  exact ⟨.cons (.const _) ((OutlinedLines.const _).append hbody).indent, hcount⟩

/-! ## Lists of cases -/

/-- What a case is listed as: its lines, and how many names they make up. -/
structure Part where
  lines : List Outline
  made : Nat
  deriving DecidableEq, Repr

/-- The plan is listed as the part says, wherever it stands. -/
def Part.Lists (part : Part) (plan : CasePlan) : Prop :=
  ∀ number, plan.listing number =
    (part.lines.map (Outline.render number), number + part.made)

/-- The lines of parts, each with an empty line after it, where the numbers of the names are counted
on from part to part. -/
def partsLines (number : Nat) : List Part → List String
  | [] => []
  | part :: parts =>
    part.lines.map (Outline.render number) ++ [""] ++ partsLines (number + part.made) parts

/-- The text of the module of parts for the cases of those indices. -/
def partsText (indices : List Int) (parts : List Part) : String :=
  linesText (["# Generated by bitmatch", ""] ++ partsLines 0 parts
    ++ ["_BM_CASES = (" ++ ", ".intercalate (indices.map caseName) ++ ",)"])

lemma functionsLines_eq {plans : List CasePlan} {parts : List Part}
    (h : List.Forall₂ (fun plan part => part.Lists plan) plans parts) (number : Nat) :
    functionsLines number plans = partsLines number parts := by
  induction h generalizing number with
  | nil => rfl
  | cons hplan _ ih => rw [functionsLines, partsLines, hplan number, ih]

section Cases

variable {ctx : Context}

lemma exists_part (henv : checkEnv ctx.env = .ok ()) {c : Case} {plan : CasePlan}
    (h : planCase ctx c = .ok plan) : ∃ part : Part, part.Lists plan := by
  obtain ⟨⟨os, hos⟩, made, hmade⟩ := listing_outlined henv h
  exact ⟨⟨os, made⟩, fun number => Prod.ext (hos number) (hmade number)⟩

lemma exists_parts (henv : checkEnv ctx.env = .ok ()) {cases : List Case} {plans : List CasePlan}
    (hplans : List.Forall₂ (fun c plan => planCase ctx c = .ok plan) cases plans) :
    ∃ parts, List.Forall₂ (fun plan part => Part.Lists part plan) plans parts := by
  induction hplans with
  | nil => exact ⟨[], .nil⟩
  | cons hplan _ ih =>
      obtain ⟨part, hpart⟩ := exists_part henv hplan
      obtain ⟨parts, hparts⟩ := ih
      exact ⟨part :: parts, .cons hpart hparts⟩

/-- The module of planned cases is that of their parts. -/
lemma moduleText_eq_partsText (henv : checkEnv ctx.env = .ok ()) {cases : List Case}
    {plans : List CasePlan} {parts : List Part}
    (hplans : List.Forall₂ (fun c plan => planCase ctx c = .ok plan) cases plans)
    (hparts : List.Forall₂ (fun plan part => part.Lists plan) plans parts) :
    moduleText plans = partsText (cases.map Case.index) parts := by
  have hindices : plans.map CasePlan.index = cases.map Case.index := by
    clear hparts
    induction hplans with
    | nil => rfl
    | cons hplan _ ih =>
        obtain ⟨rfl, -⟩ := planCase_eq_resolved hplan
        rw [List.map_cons, List.map_cons, ih]
        rfl
  have hnames : caseNames plans = (cases.map Case.index).map caseName := by
    rw [← hindices, List.map_map]
    rfl
  rw [moduleText_eq henv hplans, moduleLines, functionsLines_eq hparts, hnames, partsText]

lemma planCases_singleton (henv : checkEnv ctx.env = .ok ()) (c : Case) :
    planCases ctx [c] = (fun plan => [plan]) <$> planCase ctx c := by
  unfold planCases
  rw [henv]
  cases hplan : planCase ctx c <;> simp [hplan, bind, Except.bind, pure, Except.pure]

/-- Planning a list of cases is planning each of them alone. -/
lemma planCases_eq_flatten {cases : List Case} (hne : cases ≠ []) :
    planCases ctx cases = List.flatten <$> cases.mapM fun c => planCases ctx [c] := by
  cases henv : checkEnv ctx.env with
  | error cause =>
      obtain ⟨c, cases, rfl⟩ := List.exists_cons_of_ne_nil hne
      unfold planCases
      rw [henv]
      rfl
  | ok =>
      have hlist : planCases ctx cases = cases.mapM (planCase ctx) := by
        unfold planCases
        rw [henv, if_neg (by simpa using hne)]
        rfl
      rw [hlist, result_mapM_map (planCases_singleton henv)]
      cases cases.mapM (planCase ctx) with
      | error cause => rfl
      | ok plans =>
          refine congrArg Except.ok ?_
          rw [← List.flatMap_def, List.flatMap_singleton']

/-- **Cases are planned and listed independently of each other.**  A list of cases is planned
exactly if each of them alone is; otherwise planning fails as it does for the first case alone that
fails.  A planned list is listed part by part, each part being the function that its case alone is
listed as, with the numbers of the names that it makes up counted on from the parts before. -/
theorem cases_independent (ctx : Context) {cases : List Case} (hne : cases ≠ []) :
    ((∃ plans, planCases ctx cases = .ok plans) ↔
      ∀ c ∈ cases, ∃ plan, planCases ctx [c] = .ok [plan]) ∧
    (∀ before c after cause, cases = before ++ c :: after →
      (∀ b ∈ before, ∃ plan, planCases ctx [b] = .ok [plan]) →
        planCases ctx [c] = .error cause → planCases ctx cases = .error cause) ∧
    ∀ plans, planCases ctx cases = .ok plans → ∃ parts : List Part,
      moduleText plans = partsText (cases.map Case.index) parts ∧
      List.Forall₂ (fun c part => ∃ plan, planCases ctx [c] = .ok [plan] ∧
        moduleText [plan] = partsText [c.index] [part] ∧
        ∀ number, plan.listing number =
          (part.lines.map (Outline.render number), number + part.made)) cases parts := by
  have halone {c : Case} {plan : CasePlan} (henv : checkEnv ctx.env = .ok ())
      (hplan : planCase ctx c = .ok plan) : planCases ctx [c] = .ok [plan] :=
    planCases_eq henv (by simp) (.cons hplan .nil)
  refine ⟨⟨?_, ?_⟩, ?_, ?_⟩
  · rintro ⟨plans, h⟩ c hc
    obtain ⟨henv, -, hplans⟩ := planCases_eq_ok h
    obtain ⟨i, hi, rfl⟩ := List.mem_iff_getElem.mp hc
    exact ⟨_, halone henv (hplans.get hi (by rwa [← hplans.length_eq]))⟩
  · intro h
    cases hplans : planCases ctx cases with
    | ok plans => exact ⟨plans, rfl⟩
    | error cause =>
        rw [planCases_eq_flatten hne, result_map_eq_error] at hplans
        obtain ⟨c, hc, hcause⟩ := result_mapM_eq_error hplans
        obtain ⟨plan, hplan⟩ := h c hc
        rw [hplan] at hcause
        cases hcause
  · rintro before c after cause rfl hbefore hc
    rw [planCases_eq_flatten hne, result_map_eq_error]
    refine result_mapM_first_error (fun b hb => ?_) hc
    obtain ⟨plan, hplan⟩ := hbefore b hb
    exact ⟨[plan], hplan⟩
  · -- Each function counts on from the one before, so the parts are found one after the other.
    intro plans h
    obtain ⟨henv, -, hplans⟩ := planCases_eq_ok h
    obtain ⟨parts, hparts⟩ := exists_parts henv hplans
    refine ⟨parts, moduleText_eq_partsText henv hplans hparts, ?_⟩
    clear h hne
    induction hplans generalizing parts with
    | nil =>
        cases hparts
        exact .nil
    | cons hplan _ ih =>
        obtain ⟨part, rest, hpart, hrest, rfl⟩ := List.forall₂_cons_left_iff.mp hparts
        have htext := moduleText_eq_partsText henv (.cons hplan .nil) (.cons hpart .nil)
        exact .cons ⟨_, halone henv hplan, htext, hpart⟩ (ih rest hrest)

/-- A byte. -/
def byteCase : Case where
  fieldsText := "n:8"
  fields := [⟨.var "n", some (.int 8), some { valueType := some .int }, "n:8"⟩]
  body := .expr (.name "n")
  index := 0

/-- A case that asks for the length of the case before. -/
def looseCase : Case where
  fieldsText := "m:n"
  fields := [⟨.var "m", some (.name "n"), some { valueType := some .int }, "m:n"⟩]
  body := .expr (.name "m")
  index := 1

/-- What one case binds is unbound in the next. -/
theorem cases_independent_second :
    planCases ⟨{}, []⟩ [byteCase, looseCase] = .error (.unboundName "n" "m:n" []) ∧
      ∃ plans parts, planCases ⟨{}, []⟩ [byteCase, byteCase] = .ok plans ∧
        moduleText plans = partsText [0, 0] parts := by
  have hbyte : ∃ plan, planCases ⟨{}, []⟩ [byteCase] = .ok [plan] := ⟨_, rfl⟩
  refine ⟨(cases_independent ⟨{}, []⟩ (by simp)).2.1 [byteCase] looseCase [] _ rfl ?_ rfl, ?_⟩
  · simpa using hbyte
  · obtain ⟨hok, -, hparts⟩ :=
      cases_independent ⟨{}, []⟩ (by simp : [byteCase, byteCase] ≠ [])
    obtain ⟨plans, hplans⟩ := hok.mpr (by simpa using hbyte)
    obtain ⟨parts, htext, -⟩ := hparts plans hplans
    exact ⟨plans, parts, hplans, htext⟩

end Cases

end BitPattern.Plan
