import BitPattern.Proofs.Plan.Emission

/-!
# Which listings can be loaded

A listing cannot be loaded if a NUL character is in it or in its name, or if it assigns to the name
of the constant.  A NUL character is hidden, so only the texts of the fields, which are its
comments, can bring one in, and what is in the text of a field is in the listing
(`nulFree_moduleText`).  So `checkLoadable_eq` says exactly which planned cases can be loaded, and
`ofNumbered_eq` what becomes of a matcher.
-/

namespace BitPattern

open BitPattern.Text

namespace Plan

variable {ctx : Context} {c : Case} {plan : CasePlan} {number : Nat}

/-- The fields of a planned case have the texts of the fields that take effect. -/
lemma planCase_texts (h : planCase ctx c = .ok plan) :
    plan.fields.map FieldPlan.text = (effectiveFields c).map Field.text := by
  have htexts : ∀ (before : List String) (plans : List FieldPlan),
      (resolvedFields before plans).map FieldPlan.text = plans.map FieldPlan.text := by
    intro before plans
    induction plans generalizing before with
    | nil => rfl
    | cons plan plans ih =>
        rw [resolvedFields, List.map_cons, List.map_cons, ih, FieldPlan.resolved]
  obtain ⟨rfl, -⟩ := planCase_eq_resolved h
  simp only [CasePlan.resolved, lexicalCase, htexts, List.map_map]
  rfl

/-- The comments of the fields show every NUL character in their texts. -/
lemma nulFree_listing (henv : checkEnv ctx.env = .ok ()) (h : planCase ctx c = .ok plan) :
    (∀ line ∈ (plan.listing number).1, NulFree line) ↔
      ∀ field ∈ effectiveFields c, NulFree field.text := by
  have hwords (s : String) : Lacks (Char.ofNat 0) (joinWords s) ↔ NulFree s :=
    lacks_joinWords (by decide) (by decide)
  constructor
  · intro hlines field hfield
    have hmem : field.text ∈ plan.fields.map FieldPlan.text := by
      rw [planCase_texts h]
      exact List.mem_map_of_mem hfield
    obtain ⟨fieldPlan, hplan, htext⟩ := List.mem_map.mp hmem
    have hcomment := List.mem_append_left [plan.body.line plan.index]
      (mem_fieldsListing hplan .start number)
    rw [listing_planned henv h] at hlines
    have hline := nulFree_iff.mp (hlines _ (List.mem_cons_of_mem _
      (List.mem_map.mpr ⟨_, List.mem_append_right _ hcomment, rfl⟩)))
    rw [← htext, ← hwords]
    exact (lacks_append.mp (lacks_append.mp hline).2).2
  · intro htexts line hline
    exact (listing_solid hidden_nul henv h
      (fun field hfield => (hwords _).mpr (htexts field hfield)) number line hline).2

/-- A NUL character is in the listing of planned cases exactly if it is in the text of a field. -/
lemma nulFree_moduleText (henv : checkEnv ctx.env = .ok ()) {cases : List Case}
    {plans : List CasePlan}
    (hplans : List.Forall₂ (fun c plan => planCase ctx c = .ok plan) cases plans) :
    NulFree (moduleText plans) ↔ ∀ c ∈ cases, ∀ field ∈ effectiveFields c, NulFree field.text := by
  have hnames : Lacks (Char.ofNat 0) (", ".intercalate (caseNames plans)) := by
    refine (lacks_intercalate (hidden_nul.literal (by decide))).mpr fun s hs => ?_
    obtain ⟨plan, -, rfl⟩ := List.mem_map.mp hs
    exact lacks_append.mpr ⟨hidden_nul.literal (by decide), hidden_nul.decimal _⟩
  -- The rest of the listing is made of visible characters; only a comment carries a text along.
  have hfunctions : ∀ number, (∀ line ∈ functionsLines number plans, NulFree line) ↔
      ∀ c ∈ cases, ∀ field ∈ effectiveFields c, NulFree field.text := by
    clear hnames
    induction hplans with
    | nil => simp [functionsLines]
    | cons hplan hplans ih =>
        intro number
        simp only [functionsLines, List.forall_mem_append, List.forall_mem_cons,
          nulFree_listing henv hplan, ih]
        simp
  have hnewline : Char.ofNat 0 ≠ '\n' := by decide
  have hlast :
      Lacks (Char.ofNat 0) ("_BM_CASES = (" ++ ", ".intercalate (caseNames plans) ++ ",)") :=
    lacks_append.mpr ⟨lacks_append.mpr ⟨hidden_nul.literal (by decide), hnames⟩,
      hidden_nul.literal (by decide)⟩
  have hfirst : ∀ line ∈ ["# Generated by bitmatch", ""], Lacks (Char.ofNat 0) line := by
    simp (disch := decide) [hidden_nul.literal]
  rw [moduleText_eq henv hplans, nulFree_iff, lacks_linesText hnewline, moduleLines,
    List.forall_mem_append, List.forall_mem_append, List.forall_mem_singleton, ← hfunctions 0]
  exact ⟨fun h => h.1.2, fun h => ⟨⟨hfirst, h⟩, hlast⟩⟩

end Plan

namespace Matcher

open Plan

/-- Cases whose listing has no NUL character in it or in its name. -/
def Printable (config : Config) (cases : List Case) : Prop :=
  NulFree config.filename ∧ ∀ c ∈ cases, ∀ field ∈ effectiveFields c, NulFree field.text

instance (config : Config) (cases : List Case) : Decidable (Printable config cases) :=
  inferInstanceAs (Decidable (_ ∧ _))

variable {config : Config} {env : List (String × Value)} {cases : List Case} {plans : List CasePlan}

lemma printable_iff (henv : checkEnv (env.map Prod.fst) = .ok ())
    (hplans : List.Forall₂ (fun c plan => planCase (context config env) c = .ok plan)
      cases plans) :
    NulFree (config.filename ++ moduleText plans) ↔ Printable config cases := by
  rw [nulFree_iff, lacks_append, ← nulFree_iff, ← nulFree_iff]
  exact and_congr_right fun _ => @nulFree_moduleText (context config env) henv _ _ hplans

/-- Planned cases can be loaded exactly if their listing has no NUL character in it or in its name
and none of them binds the name of the constant. -/
lemma checkLoadable_eq (henv : checkEnv (env.map Prod.fst) = .ok ())
    (hplans : List.Forall₂ (fun c plan => planCase (context config env) c = .ok plan)
      cases plans) :
    checkLoadable config plans =
      if ¬Printable config cases then .error .value
      else if plans.any (·.locals.contains constantName) then .error .unloadable
      else .ok () := by
  have hprintable : (config.filename ++ moduleText plans).toList.contains (Char.ofNat 0) = true ↔
      ¬Printable config cases := by
    rw [← printable_iff henv hplans, List.contains_iff_mem, not_not]
  unfold checkLoadable
  simp only [hprintable]

/-- What becomes of planned cases: a matcher, unless their listing cannot be loaded. -/
lemma ofNumbered_eq (hplans : planCases (context config env) cases = .ok plans) :
    ofNumbered config env cases =
      if ¬Printable config cases then .error (.fault .value)
      else if plans.any (·.locals.contains constantName) then .error (.fault .unloadable)
      else .ok ⟨config, cases, plans, globalsOf plans env⟩ := by
  obtain ⟨henv, -, hcases⟩ := planCases_eq_ok hplans
  unfold ofNumbered
  rw [hplans]
  dsimp only
  rw [checkLoadable_eq henv hcases]
  by_cases hprintable : Printable config cases
  · rw [if_neg (not_not.mpr hprintable), if_neg (not_not.mpr hprintable)]
    by_cases hlocals : (plans.any fun plan => plan.locals.contains constantName) = true
    · rw [if_pos hlocals, if_pos hlocals]
    · rw [if_neg hlocals, if_neg hlocals]
  · rw [if_pos hprintable, if_pos hprintable]

/-- The listing of a matcher has no NUL character in it or in its name. -/
lemma printable_of_ofNumbered {m : Matcher} (h : ofNumbered config env cases = .ok m) :
    Printable config cases := by
  obtain ⟨henv, hplans, hload, -⟩ := ofNumbered_eq_ok h
  by_contra hnot
  rw [checkLoadable_eq henv hplans, if_pos hnot] at hload
  cases hload

/-- The matcher of a single case. -/
lemma ofNumbered_singleton {c : Case} {plan : CasePlan}
    (hplan : planCases (context config env) [c] = .ok [plan])
    (hfilename : NulFree config.filename)
    (htexts : ∀ field ∈ effectiveFields c, NulFree field.text)
    (hlocals : constantName ∉ plan.locals) :
    ofNumbered config env [c] = .ok ⟨config, [c], [plan], globalsOf [plan] env⟩ := by
  have hprintable : Printable config [c] := ⟨hfilename, by simpa using htexts⟩
  rw [ofNumbered_eq hplan, if_neg (not_not.mpr hprintable), if_neg (by simpa using hlocals)]

end Matcher

end BitPattern
