import BitPattern.Proofs.Plan.Admitted
import BitPattern.Proofs.Plan.Agree
import BitPattern.Proofs.Plan.Loadable

/-!
# One field in the place of another

A case changes in a single field: another field takes its place, which may bind names that the case
does not mention.  Then nothing changes but that one field.

For planning this is `planCase_replace`.  Every other expression is evaluated where as much is known
as before, and is resolved as before (`resolvedFields_congr`), so the two plans have the same fields
but for the one, and the same body.  For running it is `CasePlan.run_replace`: if the two fields run
the same up to the names that one of them binds, so do the cases.  And a list of cases keeps its
matcher if one of them gives place to another (`ofNumbered_set`).

`Field.Replaces` is what all this asks of the two fields.  Names that the case does not mention are
not enough for a callable in its body: it must not be given them either (`Body.Ignores`).
-/

namespace BitPattern

open BitPattern.Text Plan

/-- A body that is given none of some names, even if they are bound: an expression, or a callable
that takes nothing but what its parameters ask for, and none of them asks for these names. -/
def Body.Ignores (out : List String) : Body → Prop
  | .expr _ => True
  | .callable c => ∃ parameters, c.signature = some parameters ∧
      ∀ p ∈ parameters, p.kind ≠ .keywords ∧ (p.takesName = true → p.name ∉ out)

/-- A field that may stand in the place of another: neither ignores the rest of the subject,
whatever planning asks of the one holds of the other, and the other binds what the one binds and new
names at most. -/
structure Field.Replaces (ctx : Context) (out : List String) (field field' : Field) : Prop where
  not_rest : field.isRest = false
  not_rest' : field'.isRest = false
  admitted : field.Admitted → field'.Admitted
  names : ∀ y ∈ field.pattern.names, y ∈ field'.pattern.names
  new : ∀ y ∈ field'.pattern.names, y ∈ field.pattern.names ∨ y ∈ out
  known : field.Admitted → ∀ bound, KnownUses ctx.env ((lexicalField ctx field).uses bound) →
    KnownUses ctx.env ((lexicalField ctx field').uses bound)

namespace Plan

/-! ## Resolving in a larger scope -/

section Resolved

variable {out before before' : List String}

/-- An expression is renamed the same if only names that it does not have are bound or not. -/
lemma rename_localOf_congr (h : LocalsAgree out before before') {e : Expr}
    (he : ∀ y ∈ e.freeNames, y ∉ out) :
    e.rename (localOf before) = e.rename (localOf before') := by
  refine Expr.rename_congr fun y hy => ?_
  rw [localOf, localOf]
  simp only [h y (he y hy)]

lemma LocalsAgree.namesAfter (h : LocalsAgree out before before') (plan : FieldPlan) :
    LocalsAgree out (plan.namesAfter before) (plan.namesAfter before') := by
  intro y hy
  rw [FieldPlan.namesAfter, FieldPlan.namesAfter, List.mem_append, List.mem_append, h y hy]

lemma map_rename_localOf_congr (h : LocalsAgree out before before') {e : Option Expr}
    (he : ∀ d ∈ e, ∀ y ∈ d.freeNames, y ∉ out) :
    e.map (Expr.rename (localOf before)) = e.map (Expr.rename (localOf before')) :=
  Option.map_congr fun d hd => rename_localOf_congr h (he d hd)

/-- What a field evaluates after its own names are bound is renamed the same if only names that it
does not mention are bound or not. -/
lemma FieldPlan.inner_resolved_congr {plan : FieldPlan} {inner : List String}
    (h : LocalsAgree out (plan.namesAfter before) inner)
    (havoids : ∀ use ∈ plan.uses before, ∀ y ∈ use.2.freeNames, y ∉ out) :
    plan.rebind.map (Expr.rename (localOf (plan.namesAfter before))) =
        plan.rebind.map (Expr.rename (localOf inner)) ∧
      plan.check.map (Expr.rename (localOf (plan.namesAfter before))) =
        plan.check.map (Expr.rename (localOf inner)) ∧
      plan.jump.map (Expr.rename (localOf (plan.namesAfter before))) =
        plan.jump.map (Expr.rename (localOf inner)) :=
  ⟨map_rename_localOf_congr h fun _ hd => havoids _ (FieldPlan.inner_mem_uses (.inl hd)),
    map_rename_localOf_congr h fun _ hd => havoids _ (FieldPlan.inner_mem_uses (.inr (.inl hd))),
    map_rename_localOf_congr h fun _ hd => havoids _ (FieldPlan.inner_mem_uses (.inr (.inr hd)))⟩

/-- A field is resolved the same if only names that it does not mention are bound or not. -/
lemma FieldPlan.resolved_congr (h : LocalsAgree out before before') {plan : FieldPlan}
    (havoids : ∀ use ∈ plan.uses before, ∀ y ∈ use.2.freeNames, y ∉ out) :
    plan.resolved before = plan.resolved before' := by
  have hlength : plan.length.rename (localOf before) = plan.length.rename (localOf before') := by
    cases hlength : plan.length with
    | fixed n => rfl
    | rest => rfl
    | computed e =>
        exact congrArg Length.computed (rename_localOf_congr h
          (havoids (before, e) (by simp [FieldPlan.uses, hlength])))
  have horder : plan.order.rename (localOf before) = plan.order.rename (localOf before') := by
    cases horder : plan.order with
    | named name => rfl
    | computed e native =>
        have he := rename_localOf_congr h
          (havoids (before, e) (by simp [FieldPlan.uses, horder]))
        rw [Order.rename, Order.rename, he]
  obtain ⟨hrebind, hcheck, hjump⟩ := FieldPlan.inner_resolved_congr (h.namesAfter plan) havoids
  unfold FieldPlan.resolved
  dsimp only
  rw [hlength, horder, hrebind, hcheck, hjump]

/-- So are several fields. -/
lemma resolvedFields_congr (h : LocalsAgree out before before') {plans : List FieldPlan}
    (havoids : ∀ use ∈ usesOf before plans, ∀ y ∈ use.2.freeNames, y ∉ out) :
    resolvedFields before plans = resolvedFields before' plans := by
  induction plans generalizing before before' with
  | nil => rfl
  | cons plan plans ih =>
      rw [resolvedFields, resolvedFields,
        FieldPlan.resolved_congr h fun use huse => havoids use (List.mem_append_left _ huse),
        ih (h.namesAfter plan) fun use huse => havoids use (List.mem_append_right _ huse)]

lemma LocalsAgree.namesAfterAll (h : LocalsAgree out before before') (plans : List FieldPlan) :
    LocalsAgree out (Plan.namesAfter before plans) (Plan.namesAfter before' plans) := by
  induction plans generalizing before before' with
  | nil => exact h
  | cons plan plans ih => exact ih (h.namesAfter plan)

lemma BodyPlan.resolved_congr (h : LocalsAgree out before before') {body : BodyPlan}
    (havoids : ∀ use ∈ body.uses before, ∀ y ∈ use.2.freeNames, y ∉ out) :
    body.resolved before = body.resolved before' := by
  cases body with
  | value e =>
      exact congrArg BodyPlan.value
        (rename_localOf_congr h (havoids (before, e) (by simp [BodyPlan.uses])))
  | call callable args =>
      refine congrArg (BodyPlan.call callable) (List.map_congr_left fun arg harg => ?_)
      have hy : arg.2 ∉ out :=
        havoids (before, .name arg.2) (List.mem_map.mpr ⟨arg, harg, rfl⟩) arg.2 (by simp)
      rw [localOf, localOf]
      simp only [h arg.2 hy]

lemma resolvedFields_append (before : List String) (plans rest : List FieldPlan) :
    resolvedFields before (plans ++ rest) =
      resolvedFields before plans ++ resolvedFields (namesAfter before plans) rest := by
  induction plans generalizing before with
  | nil => rfl
  | cons plan plans ih => exact congrArg _ (ih _)

lemma usesOf_append (before : List String) (plans rest : List FieldPlan) :
    usesOf before (plans ++ rest) =
      usesOf before plans ++ usesOf (namesAfter before plans) rest := by
  induction plans generalizing before with
  | nil => rfl
  | cons plan plans ih =>
      rw [List.cons_append, usesOf, ih, ← List.append_assoc]
      rfl

lemma length_resolvedFields (before : List String) (plans : List FieldPlan) :
    (resolvedFields before plans).length = plans.length := by
  induction plans generalizing before with
  | nil => rfl
  | cons plan plans ih => exact congrArg (· + 1) (ih _)

end Resolved

/-! ## Plans -/

section Plans

variable {lexical lexical' : CasePlan} {before after : List FieldPlan} {plan plan' : FieldPlan}
variable {out env : List String}

/-- The expressions of a case: those before a field, those of the field, and those behind it. -/
lemma CasePlan.uses_eq (hfields : lexical.fields = before ++ plan :: after) :
    lexical.uses = usesOf [] before ++ (plan.uses (namesAfter [] before) ++
      (usesOf (plan.namesAfter (namesAfter [] before)) after ++
        lexical.body.uses (namesAfter (plan.namesAfter (namesAfter [] before)) after))) := by
  have hafter : lexical.boundAfter =
      namesAfter (plan.namesAfter (namesAfter [] before)) after := by
    rw [CasePlan.boundAfter, hfields]
    simp [namesAfter]
  rw [CasePlan.uses, hafter, hfields, usesOf_append, usesOf]
  simp only [List.append_assoc]

/-- The names of a case stay known if those of one field do and no field binds less. -/
lemma KnownUses.replace (hfields : lexical.fields = before ++ plan :: after)
    (hfields' : lexical'.fields = before ++ plan' :: after) (hbody : lexical'.body = lexical.body)
    (hlocals : ∀ y ∈ plan.locals, y ∈ plan'.locals)
    (hplan : ∀ bound, KnownUses env (plan.uses bound) → KnownUses env (plan'.uses bound))
    (h : KnownUses env lexical.uses) : KnownUses env lexical'.uses := by
  have hmore : MoreKnown (plan.namesAfter (namesAfter [] before)) env
      (plan'.namesAfter (namesAfter [] before)) env := by
    refine .of_subset fun y hy => ?_
    rw [FieldPlan.namesAfter, List.mem_append, List.mem_reverse] at hy ⊢
    exact hy.imp_left (hlocals y)
  rw [KnownUses, CasePlan.uses_eq hfields] at h
  rw [KnownUses, CasePlan.uses_eq hfields', hbody]
  simp only [List.forall_mem_append] at h ⊢
  obtain ⟨hbefore, hfield, hafter, hlast⟩ := h
  exact ⟨hbefore, hplan _ hfield, KnownUses.mono (usesOf_moreKnown hmore after) hafter,
    KnownUses.mono (lexical.body.uses_moreKnown (hmore.namesAfterAll after)) hlast⟩

/-- If a case mentions none of the names that two fields do not both bind, then with the one in the
place of the other everything else is resolved as before. -/
lemma CasePlan.resolved_replace (hfields : lexical.fields = before ++ plan :: after)
    (hfields' : lexical'.fields = before ++ plan' :: after) (hbody : lexical'.body = lexical.body)
    (hlocals : LocalsAgree out plan.locals plan'.locals)
    (hfree : ∀ use ∈ lexical.uses, ∀ y ∈ use.2.freeNames, y ∉ out) :
    ∃ first last, first.length = before.length ∧
      lexical.resolved.fields = first ++ plan.resolved (namesAfter [] before) :: last ∧
      lexical'.resolved.fields = first ++ plan'.resolved (namesAfter [] before) :: last ∧
      lexical'.resolved.body = lexical.resolved.body := by
  -- The names in scope behind the two fields differ in names that nothing mentions.
  have hagree : LocalsAgree out (plan.namesAfter (namesAfter [] before))
      (plan'.namesAfter (namesAfter [] before)) := by
    intro y hy
    simp only [FieldPlan.namesAfter, List.mem_append, List.mem_reverse, hlocals y hy]
  rw [CasePlan.uses_eq hfields] at hfree
  simp only [List.forall_mem_append] at hfree
  obtain ⟨-, -, hafter, hlast⟩ := hfree
  refine ⟨resolvedFields [] before,
    resolvedFields (plan.namesAfter (namesAfter [] before)) after, length_resolvedFields _ _,
    ?_, ?_, ?_⟩
  · show resolvedFields [] lexical.fields = _
    rw [hfields, resolvedFields_append, resolvedFields]
  · show resolvedFields [] lexical'.fields = _
    rw [hfields', resolvedFields_append, resolvedFields, resolvedFields_congr hagree hafter]
  · have hnames : ∀ field : FieldPlan, namesAfter [] (before ++ field :: after) =
        namesAfter (field.namesAfter (namesAfter [] before)) after := by
      intro field
      simp [namesAfter]
    show lexical'.body.resolved (namesAfter [] lexical'.fields) =
      lexical.body.resolved (namesAfter [] lexical.fields)
    rw [hbody, hfields, hfields', hnames, hnames]
    exact (BodyPlan.resolved_congr (hagree.namesAfterAll after) hlast).symm

end Plans

/-! ## Cases -/

section Cases

variable {ctx : Context} {c c' : Case} {before after : List Field} {field field' : Field}
variable {out : List String}

/-- A field in the place of another binds the same names but for the new ones. -/
lemma locals_of_replaces (h : field.Replaces ctx out field') :
    LocalsAgree out (lexicalField ctx field).locals (lexicalField ctx field').locals :=
  fun y hy => ⟨h.names y, fun hmem => (h.new y hmem).resolve_right hy⟩

/-- A field stands either before the first lone wildcard or behind it, where it has no effect, and
so does one in its place. -/
lemma effectiveFields_replace (hfields : c.fields = before ++ field :: after)
    (hfields' : c'.fields = before ++ field' :: after) (hfield : field.isRest = false)
    (hfield' : field'.isRest = false) :
    (∃ rest, effectiveFields c = before ++ field :: rest ∧
      effectiveFields c' = before ++ field' :: rest) ∨
      ((effectiveFields c).length < before.length ∧ effectiveFields c' = effectiveFields c) := by
  unfold effectiveFields
  rw [hfields, hfields', List.takeWhile_append, List.takeWhile_append]
  split
  · exact .inl ⟨after.takeWhile fun field => !field.isRest,
      by rw [List.takeWhile_cons, if_pos (by rw [hfield]; rfl)],
      by rw [List.takeWhile_cons, if_pos (by rw [hfield']; rfl)]⟩
  · rename_i hshort
    exact .inr ⟨lt_of_le_of_ne (List.takeWhile_prefix _).length_le hshort, rfl⟩

/-- The fields that take effect bind the same names but for the new ones. -/
lemma mem_boundNames_replace (hfields : c.fields = before ++ field :: after)
    (hfields' : c'.fields = before ++ field' :: after) (h : field.Replaces ctx out field')
    {y : String} (hy : y ∉ out) : y ∈ boundNames c ↔ y ∈ boundNames c' := by
  rw [mem_boundNames, mem_boundNames]
  rcases effectiveFields_replace hfields hfields' h.not_rest h.not_rest' with
    ⟨rest, heffective, heffective'⟩ | ⟨-, heffective⟩
  · have hnames : y ∈ field.pattern.names ↔ y ∈ field'.pattern.names :=
      locals_of_replaces h y hy
    simp only [heffective, heffective', List.flatMap_append, List.flatMap_cons, List.mem_append,
      hnames]
  · rw [heffective]

lemma boundNames_replace (hfields : c.fields = before ++ field :: after)
    (hfields' : c'.fields = before ++ field' :: after) (h : field.Replaces ctx out field')
    (hnames : field'.pattern.names = field.pattern.names) : boundNames c' = boundNames c := by
  rcases effectiveFields_replace hfields hfields' h.not_rest h.not_rest' with
    ⟨rest, heffective, heffective'⟩ | ⟨-, heffective⟩
  · simp only [boundNames, heffective, heffective', List.flatMap_append, List.flatMap_cons, hnames]
  · rw [boundNames, boundNames, heffective]

/-- A body that is not given the new names makes what it makes without them. -/
lemma lexicalBody_replace (hfields : c.fields = before ++ field :: after)
    (hfields' : c'.fields = before ++ field' :: after) (h : field.Replaces ctx out field')
    (hbody : c'.body = c.body)
    (hignores : field'.pattern.names = field.pattern.names ∨ c.body.Ignores out) :
    lexicalBody c' = lexicalBody c ∧ (c.Served → c'.Served) := by
  refine lexicalBody_congr hbody fun callable hcallable => bodyArguments_congr ?_
  refine hignores.imp (boundNames_replace hfields hfields' h) fun hignores => ?_
  rw [hcallable] at hignores
  obtain ⟨parameters, hsignature, hparameters⟩ := hignores
  refine ⟨parameters, hsignature, fun p hp => ⟨(hparameters p hp).1, fun htakes => ?_⟩⟩
  exact mem_boundNames_replace hfields hfields' h ((hparameters p hp).2 htakes)

/-- **Planning with one field in the place of another.**  If a case mentions none of the new names
and its body is not given them, the changed case is planned, and to the same plan but for that one
field. -/
lemma planCase_replace {plan : CasePlan} (hplan : planCase ctx c = .ok plan)
    (hfields : c.fields = before ++ field :: after)
    (hfields' : c'.fields = before ++ field' :: after) (h : field.Replaces ctx out field')
    (hindex : c'.index = c.index) (hbody : c'.body = c.body)
    (hignores : field'.pattern.names = field.pattern.names ∨ c.body.Ignores out)
    (hfree : ∀ use ∈ (lexicalCase ctx c).uses, ∀ y ∈ use.2.freeNames, y ∉ out) :
    ∃ plan', planCase ctx c' = .ok plan' ∧ plan'.index = plan.index ∧ plan'.body = plan.body ∧
      ((∃ bound first last, first.length = before.length ∧ field.Admitted ∧
          (∀ use ∈ (lexicalField ctx field).uses bound, use ∈ (lexicalCase ctx c).uses) ∧
          plan.fields = first ++ (lexicalField ctx field).resolved bound :: last ∧
          plan'.fields = first ++ (lexicalField ctx field').resolved bound :: last) ∨
        (plan.fields.length < before.length ∧ plan'.fields = plan.fields)) := by
  obtain ⟨hadmitted, hserved, hknown, rfl⟩ := planCase_eq_ok_iff.mp hplan
  obtain ⟨hlexicalBody, hserves⟩ := lexicalBody_replace hfields hfields' h hbody hignores
  rcases effectiveFields_replace hfields hfields' h.not_rest h.not_rest' with
    ⟨rest, heffective, heffective'⟩ | ⟨hshort, heffective⟩
  · have hlexical : (lexicalCase ctx c).fields = before.map (lexicalField ctx) ++
        lexicalField ctx field :: rest.map (lexicalField ctx) := by
      rw [lexicalCase, heffective, List.map_append, List.map_cons]
    have hlexical' : (lexicalCase ctx c').fields = before.map (lexicalField ctx) ++
        lexicalField ctx field' :: rest.map (lexicalField ctx) := by
      rw [lexicalCase, heffective', List.map_append, List.map_cons]
    simp only [heffective, List.forall_mem_append, List.forall_mem_cons] at hadmitted
    obtain ⟨hbefore, hfield, hafter⟩ := hadmitted
    have hadmitted' : ∀ other ∈ effectiveFields c', other.Admitted := by
      simp only [heffective', List.forall_mem_append, List.forall_mem_cons]
      exact ⟨hbefore, h.admitted hfield, hafter⟩
    have hknown' :=
      KnownUses.replace hlexical hlexical' hlexicalBody h.names (h.known hfield) hknown
    -- Names are resolved alike, since none of the new ones is mentioned.
    obtain ⟨first, last, hfirst, hresolved, hresolved', hbody'⟩ :=
      CasePlan.resolved_replace hlexical hlexical' hlexicalBody (locals_of_replaces h) hfree
    refine ⟨_, planCase_eq_ok_iff.mpr ⟨hadmitted', hserves hserved, hknown', rfl⟩, hindex, hbody',
      .inl ⟨_, first, last, by rw [hfirst, List.length_map], hfield, ?_, hresolved, hresolved'⟩⟩
    intro use huse
    rw [CasePlan.uses_eq hlexical]
    exact List.mem_append_right _ (List.mem_append_left _ huse)
  · -- Behind a lone wildcard nothing is planned, so the plan stays as a whole.
    -- The plans before names are resolved: they differ in that one field.
    have hlexical : (lexicalCase ctx c').fields = (lexicalCase ctx c).fields := by
      rw [lexicalCase, lexicalCase, heffective]
    have huses : (lexicalCase ctx c').uses = (lexicalCase ctx c).uses := by
      rw [CasePlan.uses, CasePlan.uses, CasePlan.boundAfter, CasePlan.boundAfter, hlexical]
      exact congrArg (fun body => _ ++ BodyPlan.uses _ body) hlexicalBody
    have hplanned :=
      planCase_eq_ok_iff.mpr ⟨heffective ▸ hadmitted, hserves hserved, huses ▸ hknown, rfl⟩
    refine ⟨_, hplanned, hindex, ?_, .inr ⟨?_, ?_⟩⟩
    · show (lexicalBody _).resolved (namesAfter [] _) = (lexicalBody c).resolved (namesAfter [] _)
      rw [hlexicalBody, hlexical]
    · show (resolvedFields [] (lexicalCase ctx c).fields).length < _
      rwa [length_resolvedFields, lexicalCase, List.length_map]
    · show resolvedFields [] _ = resolvedFields [] _
      rw [hlexical]

/-- The fields that take effect are those of the case and the new one. -/
lemma mem_effectiveFields_replace (hfields : c.fields = before ++ field :: after)
    (hfields' : c'.fields = before ++ field' :: after) (hfield : field.isRest = false)
    (hfield' : field'.isRest = false) {other : Field} (h : other ∈ effectiveFields c') :
    other ∈ effectiveFields c ∨ other = field' := by
  rcases effectiveFields_replace hfields hfields' hfield hfield' with
    ⟨rest, heffective, heffective'⟩ | ⟨-, heffective⟩
  · rw [heffective', List.mem_append, List.mem_cons] at h
    rw [heffective, List.mem_append, List.mem_cons]
    tauto
  · exact .inl (heffective ▸ h)

end Cases

/-! ## Runs -/

section Runs

variable {out : List String} {names names' : Names} {subject : Bitstring}
variable {before after : List FieldPlan} {field field' : FieldPlan}

/-- A list of fields runs the same with one field in the place of another if the two fields do. -/
lemma runFields_replace (hnames : NamesAgree out names names')
    (hplans : ∀ plan ∈ before ++ field :: after, plan.Measured ∧ plan.Avoids out)
    (hfield : ∀ s s', (runFields names subject (.start subject) before).result = .ok (some s) →
      State.Agree out s s' → s.Within subject →
        StatesAgree out (field.run names subject s) (field'.run names' subject s')) :
    StatesAgree out (runFields names subject (.start subject) (before ++ field :: after))
      (runFields names' subject (.start subject) (before ++ field' :: after)) := by
  obtain ⟨hbefore, ⟨hmeasured, -⟩, hafter⟩ := by
    simpa only [List.forall_mem_append, List.forall_mem_cons] using hplans
  have hstart := State.start_within subject
  rw [runFields_append, runFields_append]
  -- The fields before, the one field, and the fields behind it.
  refine .bind (runFields_avoiding hnames hbefore (State.start_agree subject) hstart) ?_
  intro s s' hs _ hstates
  cases hstates with
  | none => exact .pure .none
  | @some s s' hstates =>
      have hwithin := runFields_within (fun plan hplan => (hbefore plan hplan).1) hstart hs
      show StatesAgree out (runFields names subject s (field :: after))
        (runFields names' subject s' (field' :: after))
      rw [runFields_cons, runFields_cons]
      refine .bind (hfield s s' hs hstates hwithin) ?_
      intro next next' hnext _ hnexts
      cases hnexts with
      | none => exact .pure .none
      | some hnexts =>
          exact runFields_avoiding hnames hafter hnexts
            (FieldPlan.run_within hmeasured hwithin hnext)

/-- Two cases that differ in one field have the same locals, but for what these fields bind. -/
lemma CasePlan.locals_replace {plan plan' : CasePlan}
    (hfields : plan.fields = before ++ field :: after)
    (hfields' : plan'.fields = before ++ field' :: after)
    (hlocals : LocalsAgree out field.locals field'.locals) :
    LocalsAgree out plan.locals plan'.locals := by
  intro y hy
  simp only [CasePlan.locals, hfields, hfields', List.flatMap_append, List.flatMap_cons,
    List.mem_append, hlocals y hy]

/-- Cases with the same fields and the same body run the same. -/
lemma CasePlan.run_congr {plan plan' : CasePlan} (hfields : plan'.fields = plan.fields)
    (hbody : plan'.body = plan.body) (globals : List (String × Value)) :
    plan'.run globals = plan.run globals := by
  have hlocals : plan'.locals = plan.locals := congrArg (List.flatMap FieldPlan.locals) hfields
  funext subject
  rw [CasePlan.run, CasePlan.run, CasePlan.runWith, CasePlan.runWith, hfields, hbody, hlocals]

/-- **Running with one field in the place of another.**  Two cases that differ in one field run the
same if the two fields do, up to names that the case does not mention. -/
lemma CasePlan.run_replace {plan plan' : CasePlan} {globals : List (String × Value)}
    (hfields : plan.fields = before ++ field :: after)
    (hfields' : plan'.fields = before ++ field' :: after) (hbody' : plan'.body = plan.body)
    (hlocals : LocalsAgree out field.locals field'.locals)
    (hplans : ∀ field ∈ plan.fields, field.Measured ∧ field.Avoids out)
    (hbody : ∀ use ∈ plan.body.uses [], ∀ y ∈ use.2.freeNames, y ∉ out)
    (hfield : ∀ s s', NamesAgree out (Frame.lookup ⟨plan.locals, globals⟩)
        (Frame.lookup ⟨plan'.locals, globals⟩) → State.Agree out s s' → s.Within subject →
      StatesAgree out (field.run (Frame.lookup ⟨plan.locals, globals⟩) subject s)
        (field'.run (Frame.lookup ⟨plan'.locals, globals⟩) subject s')) :
    plan'.run globals subject = plan.run globals subject := by
  have hnames := namesAgree_lookup (CasePlan.locals_replace hfields hfields' hlocals)
    fun x _ _ => Eq.refl (globals.lookup x)
  have hrun : StatesAgree out
      (runFields (Frame.lookup ⟨plan.locals, globals⟩) subject (.start subject) plan.fields)
      (runFields (Frame.lookup ⟨plan'.locals, globals⟩) subject (.start subject)
        plan'.fields) := by
    rw [hfields] at hplans
    rw [hfields, hfields']
    exact runFields_replace hnames hplans fun s s' _ => hfield s s' hnames
  refine (CasePlan.runWith_agree_of hrun fun bound bound' hbound => ?_).symm
  rw [hbody']
  exact BodyPlan.run_agree hnames hbody hbound

end Runs

/-! ## Matchers -/

/-- A variable that a case knows nothing of: the case mentions neither its name nor its local, and a
listing may bind it. -/
structure CasePlan.FreshVariable (lexical : CasePlan) (x : String) : Prop where
  free : lexical.FreeOf x
  local_free : lexical.FreeOf (localName x)
  not_constant : localName x ≠ constantName

lemma forall₂_set {α β : Type} {R : α → β → Prop} {as : List α} {bs : List β}
    (h : List.Forall₂ R as bs) {a : α} {b : β} (hab : R a b) (i : Nat) :
    List.Forall₂ R (as.set i a) (bs.set i b) := by
  induction h generalizing i with
  | nil => exact .nil
  | cons hfirst hrest ih =>
      cases i with
      | zero => exact .cons hab hrest
      | succ i => exact .cons hfirst (ih i)

/-- A plan that gives place to one with the same index leaves the indices as they are. -/
lemma indices_set {plans : List CasePlan} {i : Nat} {plan plan' : CasePlan}
    (hplan : plans[i]? = some plan) (hindex : plan'.index = plan.index) :
    (plans.set i plan').map CasePlan.index = plans.map CasePlan.index := by
  obtain ⟨hi, rfl⟩ := List.getElem?_eq_some_iff.mp hplan
  rw [List.map_set, hindex, ← List.getElem_map CasePlan.index, List.set_getElem_self]
  rwa [List.length_map]

section Matchers

variable {config : Config} {env : List (String × Value)} {cases : List Case} {m : Matcher} {i : Nat}

/-- One of the cases of a matcher may give place to another that can be planned and listed. -/
lemma ofNumbered_set (hm : Matcher.ofNumbered config env cases = .ok m) {plan : CasePlan}
    (hplan : m.plans[i]? = some plan) {c' : Case} {plan' : CasePlan}
    (hplan' : planCase (Matcher.context config env) c' = .ok plan')
    (hindex : plan'.index = plan.index) (htexts : ∀ field ∈ effectiveFields c', NulFree field.text)
    (hlocals : constantName ∉ plan'.locals) :
    Matcher.ofNumbered config env (cases.set i c') =
      .ok ⟨config, cases.set i c', m.plans.set i plan', m.globals⟩ := by
  obtain ⟨henv, hplans, hload, hglobals⟩ := Matcher.ofNumbered_eq_ok hm
  have hne : cases.set i c' ≠ [] := by
    intro hnil
    have hset := forall₂_set hplans hplan' i
    rw [hnil, List.forall₂_nil_left_iff, List.set_eq_nil_iff] at hset
    rw [hset] at hplan
    cases hplan
  obtain ⟨hfilename, hprintable⟩ := Matcher.printable_of_ofNumbered hm
  have hprintable' : Matcher.Printable config (cases.set i c') := by
    refine ⟨hfilename, fun other hother => ?_⟩
    rcases List.mem_or_eq_of_mem_set hother with hother | rfl
    · exact hprintable other hother
    · exact htexts
  have hconstant : ∀ other ∈ m.plans.set i plan', constantName ∉ other.locals := by
    intro other hother
    rcases List.mem_or_eq_of_mem_set hother with hother | rfl
    · exact constantName_not_mem hload hother
    · exact hlocals
  rw [Matcher.ofNumbered_eq (planCases_eq henv hne (forall₂_set hplans hplan' i)),
    if_neg (not_not.mpr hprintable'), if_neg (by simpa using hconstant),
    Matcher.globalsOf_congr (indices_set hplan hindex), hglobals]

/-- Plans that run the same make the same of every subject. -/
lemma Matcher.tryMatch_set {plan plan' : CasePlan} (hplan : m.plans[i]? = some plan)
    (hrun : plan'.run m.globals = plan.run m.globals) (cases : List Case) (v : Value) :
    (⟨config, cases, m.plans.set i plan', m.globals⟩ : Matcher).tryMatch v = m.tryMatch v := by
  obtain ⟨hi, rfl⟩ := List.getElem?_eq_some_iff.mp hplan
  have hfunctions :
      (⟨config, cases, m.plans.set i plan', m.globals⟩ : Matcher).functions = m.functions := by
    show (m.plans.set i plan').map (fun plan => plan.run m.globals) =
      m.plans.map (fun plan => plan.run m.globals)
    rw [List.map_set, hrun, ← List.getElem_map fun plan : CasePlan => plan.run m.globals,
      List.set_getElem_self]
    rwa [List.length_map]
  rw [Matcher.tryMatch, Matcher.tryMatch, hfunctions]

end Matchers

end Plan

end BitPattern
