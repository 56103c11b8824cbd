import BitPattern.Proofs.Plan.Loadable

/-!
# Callables and the names they are given

A callable that is the body of a case is called with some of the bound names.  `Satisfies` says of
a list of names that a call with arguments for them is one that the signature admits, and
`bindArguments_isOk_iff` that this is the rule by which the arguments of a call are bound.

The planning of a body goes wrong at one place only.  A callable with a parameter that collects the
rest is given all bound names without a look at its other parameters, so one of those may be left
without an argument, and then the call fails when the case has matched.  `bodyArguments_satisfies`
says that this is the whole extent of it: all other callables are given names that they take, and
none is refused that could have been called.
-/

namespace BitPattern

open Plan Report

/-! ## Calls with named arguments -/

/-- Every parameter that has to be given an argument takes it by name, and is given it. -/
def Given (parameters : List Parameter) (names : List String) : Prop :=
  ∀ p ∈ parameters, p.isRequired = true → p.takesName = true ∧ p.name ∈ names

/-- Arguments for these names satisfy a signature: no argument is missing, and none is left over
unless a parameter collects the rest. -/
structure Satisfies (parameters : List Parameter) (names : List String) : Prop where
  given : Given parameters names
  expected : ∀ x ∈ names, (∃ p ∈ parameters, p.takesName = true ∧ p.name = x) ∨
    ∃ p ∈ parameters, p.kind = .keywords

variable {parameters : List Parameter} {p : Parameter} {args extra : List (String × Value)}

/-- A parameter has a value unless it needs an argument that it does not get by its name. -/
lemma Parameter.value_isOk_iff : (∃ v, p.value args extra = .ok v) ↔
    (p.isRequired = true → p.takesName = true ∧ p.name ∈ args.map Prod.fst) := by
  have hargument (given : List (String × Value)) : (∃ v, p.argument given = .ok v) ↔
      (p.default.isNone = true → p.name ∈ given.map Prod.fst) := by
    have hlookup : (given.lookup p.name).isSome = true ↔ p.name ∈ given.map Prod.fst := by simp
    rw [← hlookup, Parameter.argument]
    cases given.lookup p.name <;> cases p.default <;> simp
  unfold Parameter.value Parameter.isRequired Parameter.takesName
  cases hkind : p.kind <;> simp [hargument]

/-- **Calls.**  The arguments of a call can be bound exactly if their names satisfy the
signature. -/
theorem bindArguments_isOk_iff :
    (∃ values, bindArguments parameters args = .ok values) ↔
      Satisfies parameters (args.map Prod.fst) := by
  have hgiven (extra : List (String × Value)) :
      (∃ values, (parameters.mapM fun p => do pure (p.name, ← p.value args extra)) = .ok values) ↔
        Given parameters (args.map Prod.fst) := by
    rw [result_mapM_isOk_iff]
    refine forall₂_congr fun p _ => ?_
    rw [← @Parameter.value_isOk_iff p args extra]
    simp [result_bind_eq_ok, pure, Except.pure]
  unfold bindArguments
  dsimp only
  split
  · -- An argument that no parameter takes is one that the signature does not expect.
    rename_i hrefused
    refine iff_of_false (by simp) fun h => ?_
    rw [Bool.and_eq_true, Bool.not_eq_true', Bool.not_eq_true'] at hrefused
    obtain ⟨hextra, hkeywords⟩ := hrefused
    obtain ⟨arg, harg⟩ := List.exists_mem_of_ne_nil _ (List.isEmpty_eq_false_iff.mp hextra)
    obtain ⟨harg, hleft⟩ := List.mem_filter.mp harg
    rcases h.expected arg.1 (List.mem_map_of_mem harg) with ⟨p, hp, htakes, hname⟩ | ⟨p, hp, hkind⟩
    · rw [Bool.not_eq_true', List.any_eq_false] at hleft
      exact hleft p hp (by simp [htakes, hname])
    · rw [List.any_eq_false] at hkeywords
      exact hkeywords p hp (by simp [hkind])
  · rename_i hadmitted
    rw [hgiven]
    refine ⟨fun h => ⟨h, fun x hx => ?_⟩, Satisfies.given⟩
    obtain ⟨arg, harg, rfl⟩ := List.mem_map.mp hx
    -- Any name is expected if there are keyword arguments; otherwise no argument was left over.
    by_cases hkeywords : ∃ p ∈ parameters, p.kind = .keywords
    · exact .inr hkeywords
    · have hempty : ∀ arg ∈ args, ∃ p ∈ parameters, p.takesName = true ∧ p.name = arg.1 := by
        simpa [hkeywords] using hadmitted
      exact .inl (hempty arg harg)

/-! ## The names that a callable is given -/

namespace Plan

variable {bound : List String} {text : String}

lemma acceptParameter_eq : acceptParameter bound text p =
    if p.takesName = true ∧ p.name ∈ bound then .ok [p.name]
    else if p.isRequired = true then .error (.bodySignature p.name text)
    else .ok [] := by
  simp [acceptParameter]

/-- A parameter is refused exactly if it needs an argument that no bound name is for. -/
lemma acceptParameter_isOk_iff : (∃ xs, acceptParameter bound text p = .ok xs) ↔
    (p.isRequired = true → p.takesName = true ∧ p.name ∈ bound) := by
  rw [acceptParameter_eq]
  by_cases htaken : p.takesName = true ∧ p.name ∈ bound
  · simp [htaken]
  · rw [if_neg htaken]
    cases p.isRequired <;> simp [htaken]

lemma mem_of_acceptParameter {xs : List String} (h : acceptParameter bound text p = .ok xs)
    {x : String} : x ∈ xs ↔ p.takesName = true ∧ p.name = x ∧ x ∈ bound := by
  rw [acceptParameter_eq] at h
  by_cases htaken : p.takesName = true ∧ p.name ∈ bound
  · rw [if_pos htaken] at h
    cases h
    rw [List.mem_singleton]
    constructor
    · rintro rfl
      exact ⟨htaken.1, rfl, htaken.2⟩
    · exact fun hx => hx.2.1.symm
  · rw [if_neg htaken, ite_eq_iff] at h
    obtain ⟨-, h⟩ | ⟨-, h⟩ := h <;> cases h
    refine iff_of_false List.not_mem_nil ?_
    rintro ⟨htakes, rfl, hx⟩
    exact htaken ⟨htakes, hx⟩

lemma acceptParameter_eq_error {cause : Cause} (h : acceptParameter bound text p = .error cause) :
    cause = .bodySignature p.name text ∧ p.isRequired = true ∧
      ¬(p.takesName = true ∧ p.name ∈ bound) := by
  rw [acceptParameter_eq] at h
  by_cases htaken : p.takesName = true ∧ p.name ∈ bound
  · rw [if_pos htaken] at h
    cases h
  · rw [if_neg htaken, ite_eq_iff] at h
    obtain ⟨hrequired, h⟩ | ⟨-, h⟩ := h
    · exact ⟨(Except.error.inj h).symm, hrequired, htaken⟩
    · cases h

/-- The names that parameters take are those of bound names. -/
lemma mem_accepted {taken : List (List String)}
    (h : parameters.mapM (acceptParameter bound text) = .ok taken) {x : String} :
    x ∈ taken.flatten ↔ ∃ p ∈ parameters, p.takesName = true ∧ p.name = x ∧ x ∈ bound := by
  have hall := result_mapM_eq_ok.mp h
  clear h
  induction hall with
  | nil => simp
  | cons hp _ ih =>
      simp [mem_of_acceptParameter hp, ih]

lemma satisfies_accepted {taken : List (List String)}
    (h : parameters.mapM (acceptParameter bound text) = .ok taken) :
    Satisfies parameters taken.flatten := by
  constructor
  · intro p hp hrequired
    have haccepted := result_mapM_isOk_iff.mp ⟨taken, h⟩ p hp
    obtain ⟨htakes, hbound⟩ := acceptParameter_isOk_iff.mp haccepted hrequired
    exact ⟨htakes, (mem_accepted h).mpr ⟨p, hp, htakes, rfl, hbound⟩⟩
  · intro x hx
    obtain ⟨p, hp, htakes, hname, -⟩ := (mem_accepted h).mp hx
    exact .inl ⟨p, hp, htakes, hname⟩

lemma bodyArguments_keywords (h : ∃ p ∈ parameters, p.kind = .keywords) :
    bodyArguments (some parameters) bound text = .ok bound :=
  if_pos (by simpa using h)

lemma bodyArguments_plain (h : ¬∃ p ∈ parameters, p.kind = .keywords) :
    bodyArguments (some parameters) bound text =
      List.flatten <$> parameters.mapM (acceptParameter bound text) := by
  have hplain : ¬parameters.any (·.kind == .keywords) = true := by simpa using h
  rw [bodyArguments, if_neg hplain, bind_pure_comp]

/-- **The names that a callable is given.**  If it is given names, then a call with these satisfies
its signature, except where some parameter collects the rest and another needs an argument that no
bound name is for.  If it is refused, then for a parameter of the latter kind, and no call with
bound names would satisfy its signature. -/
theorem bodyArguments_satisfies (parameters : List Parameter) (bound : List String)
    (text : String) :
    (∀ names, bodyArguments (some parameters) bound text = .ok names →
      (Satisfies parameters names ↔
        ((∃ p ∈ parameters, p.kind = .keywords) → Given parameters bound))) ∧
    ∀ cause, bodyArguments (some parameters) bound text = .error cause →
      (∃ p ∈ parameters, cause = .bodySignature p.name text ∧ p.isRequired = true ∧
        ¬(p.takesName = true ∧ p.name ∈ bound)) ∧
      ∀ names ⊆ bound, ¬Satisfies parameters names := by
  by_cases hkeywords : ∃ p ∈ parameters, p.kind = .keywords
  · rw [bodyArguments_keywords hkeywords]
    constructor
    · rintro names ⟨⟩
      exact ⟨fun h _ => h.given, fun h => ⟨h hkeywords, fun _ _ => .inr hkeywords⟩⟩
    · intro cause h
      cases h
  · rw [bodyArguments_plain hkeywords]
    constructor
    · intro names h
      obtain ⟨taken, htaken, rfl⟩ := result_map_eq_ok.mp h
      exact iff_of_true (satisfies_accepted htaken) fun h => absurd h hkeywords
    · intro cause h
      obtain ⟨p, hp, haccept⟩ := result_mapM_eq_error (result_map_eq_error.mp h)
      obtain ⟨hcause, hrequired, hmissing⟩ := acceptParameter_eq_error haccept
      refine ⟨⟨p, hp, hcause, hrequired, hmissing⟩, fun names hnames hsatisfies => ?_⟩
      obtain ⟨htakes, hname⟩ := hsatisfies.given p hp hrequired
      exact hmissing ⟨htakes, hnames hname⟩

/-- A callable with a parameter that needs no argument, and one that needs a name that is not
bound. -/
theorem bodyArguments_satisfies_optional :
    let a : Parameter := ⟨"a", .ordinary, none⟩
    let c : Parameter := ⟨"c", .keywordOnly, some (.int 1)⟩
    let d : Parameter := ⟨"d", .ordinary, none⟩
    bodyArguments (some [a, c]) ["b", "a"] "b:4, a:4" = .ok ["a"] ∧ Satisfies [a, c] ["a"] ∧
      bodyArguments (some [a, d]) ["b", "a"] "b:4, a:4" =
        .error (.bodySignature "d" "b:4, a:4") ∧
      ¬Satisfies [a, d] ["a"] := by
  intro a c d
  have hgiven : bodyArguments (some [a, c]) ["b", "a"] "b:4, a:4" = .ok ["a"] := rfl
  have hrefused : bodyArguments (some [a, d]) ["b", "a"] "b:4, a:4" =
      .error (.bodySignature "d" "b:4, a:4") := rfl
  refine ⟨hgiven, ((bodyArguments_satisfies _ _ _).1 _ hgiven).mpr ?_, hrefused,
    ((bodyArguments_satisfies _ _ _).2 _ hrefused).2 _ (by simp)⟩
  rintro ⟨p, hp, hkind⟩
  rcases List.mem_pair.mp hp with rfl | rfl <;> cases hkind

/-- A case with a byte `a` whose body needs a name `b` and takes any other. -/
def needyCase : Case where
  fieldsText := "a:8"
  fields := [⟨.var "a", some (.int 8), some .default, "a:8"⟩]
  body := .callable (.collect [⟨"a", .ordinary, none⟩, ⟨"b", .ordinary, none⟩,
    ⟨"kw", .keywords, none⟩])
  index := 0

/-- The body is given the name `a` alone, so it is not refused, and its call fails. -/
theorem needy_body_fails :
    let parameters : List Parameter :=
      [⟨"a", .ordinary, none⟩, ⟨"b", .ordinary, none⟩, ⟨"kw", .keywords, none⟩]
    bodyArguments (some parameters) ["a"] "a:8" = .ok ["a"] ∧ ¬Satisfies parameters ["a"] ∧
      ∃ m, Matcher.ofNumbered {} [] [needyCase] = .ok m ∧
        (m.tryMatch (.ofBytes [1])).result = .error .type := by
  intro parameters
  have hmissing : ¬Satisfies parameters ["a"] := fun h =>
    absurd (h.given ⟨"b", .ordinary, none⟩ (by simp [parameters]) rfl).2 (by decide)
  obtain ⟨plan, hplan, hlocals, hrun⟩ : ∃ plan,
      planCases (Matcher.context {} []) [needyCase] = .ok [plan] ∧ constantName ∉ plan.locals ∧
        ∀ m : Matcher, m.plans = [plan] → m.globals = Matcher.globalsOf [plan] [] →
          (m.tryMatch (.ofBytes [1])).result = .error .type := by
    refine ⟨_, rfl, by decide, ?_⟩
    rintro ⟨config, cases, plans, globals⟩ rfl rfl
    rfl
  have hm := Matcher.ofNumbered_singleton hplan (by simp)
    (by simp [needyCase, effectiveFields, Field.isRest]) hlocals
  exact ⟨rfl, hmissing, _, hm, hrun _ rfl rfl⟩

end Plan

end BitPattern
