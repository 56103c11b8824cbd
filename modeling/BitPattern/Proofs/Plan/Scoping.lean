import BitPattern.Proofs.Plan.Alike

/-!
# Lexical scoping

By lexical scoping a name stands for the value that was last bound to exactly that name, else for
its value in the environment, else for a function of expressions (`lexicalNames`).  A plan does not
look names up that way.  A bound name is kept under its local, which another name may have too; a
local is local to the whole case, so it hides the environment before it has a value; and two names,
that of the constant and that of the tuple of cases, never come from the environment.

`Undisturbed` is what is left when none of this happens to a use of a name.  It is exactly the
condition under which the plan's reading of the name is the lexical one, whatever values the names
have (`Undisturbed.faithful`, `Undisturbed.of_faithful`).  `lexical_scoping` carries it through
cases: if no use is disturbed, then a case runs as lexical scoping says on every subject, and no
name is ever without a value.  `later_local_hides_environment` is a case that runs otherwise.
-/

namespace BitPattern

/-- A fault other than that of a name without a value. -/
def Fault.Assigned (f : Fault) : Prop :=
  ∀ y, f ≠ .unassigned y

lemma Fault.ofValues.assigned {f : Fault} (h : f.ofValues) : f.Assigned := by
  rintro y rfl
  exact h

namespace Plan

open BitPattern.Text Run

variable {locals bound envNames : List String} {x : String}

/-! ## Looking names up -/

/-- What names stand for by lexical scoping. -/
def lexicalNames (env : List (String × Value)) : Names := fun bound x =>
  found x ((bound ++ env ++ expressionNames).lookup x)

/-- Bound values under the locals of their names. -/
def underLocals (bound : List (String × Value)) : List (String × Value) :=
  bound.map fun p => (localName p.1, p.2)

/-- A use of a name that a plan reads as lexical scoping does.  A bound name is the latest among
those with the same local, and any other name is no local of the case and none of the two names that
never come from the environment. -/
def Undisturbed (locals bound : List String) (x : String) : Prop :=
  if x ∈ bound then bound.find? (fun y => localName y == localName x) = some x
  else x ∉ locals ∧ x ≠ constantName ∧ x ≠ Matcher.casesName

instance : Decidable (Undisturbed locals bound x) := by
  unfold Undisturbed
  infer_instance

lemma lookup_append (a b : List (String × Value)) (x : String) :
    (a ++ b).lookup x = (a.lookup x).or (b.lookup x) := by
  induction a with
  | nil => simp
  | cons p a ih =>
      obtain ⟨y, v⟩ := p
      rw [List.cons_append, lookup_cons_eq, lookup_cons_eq, ih]
      split <;> simp

lemma lookup_eq_none {entries : List (String × Value)} (h : x ∉ entries.map Prod.fst) :
    entries.lookup x = none := by
  rw [List.lookup_eq_none_iff]
  rintro ⟨y, v⟩ hy
  have hne : x ≠ y := by
    rintro rfl
    exact h (List.mem_map.mpr ⟨_, hy, rfl⟩)
  simpa using hne

lemma lookup_isSome {entries : List (String × Value)} (h : x ∈ entries.map Prod.fst) :
    ∃ v, entries.lookup x = some v := by
  rw [← Option.isSome_iff_exists, List.lookup_isSome_iff]
  obtain ⟨⟨y, v⟩, hy, rfl⟩ := List.mem_map.mp h
  exact ⟨(y, v), hy, by simp⟩

/-- Where the latest name with its local is the name itself, the local has the value of the name. -/
lemma lookup_underLocals {bound : List (String × Value)}
    (h : (bound.map Prod.fst).find? (fun y => localName y == localName x) = some x) :
    (underLocals bound).lookup (localName x) = bound.lookup x := by
  induction bound with
  | nil => cases h
  | cons p bound ih =>
      obtain ⟨y, v⟩ := p
      rw [underLocals, List.map_cons, lookup_cons_eq, lookup_cons_eq]
      rw [List.map_cons, List.find?_cons] at h
      by_cases hy : localName y = localName x
      · have hyx : y = x := by simpa [hy] using h
        simp [hyx]
      · have hne : x ≠ y := fun hxy => hy (hxy ▸ rfl)
        rw [if_neg (Ne.symm hy), if_neg hne]
        rw [beq_eq_false_iff_ne.mpr hy] at h
        exact ih h

/-- The value of a local is that of the latest name that has it. -/
lemma lookup_map_localName (names : List String) (value : String → Value) :
    (underLocals (names.map fun y => (y, value y))).lookup (localName x) =
      (names.find? fun y => localName y == localName x).map value := by
  induction names with
  | nil => rfl
  | cons y names ih =>
      rw [List.map_cons, underLocals, List.map_cons, lookup_cons_eq, List.find?_cons]
      by_cases hy : localName y = localName x
      · simp [hy]
      · rw [if_neg (Ne.symm hy), beq_eq_false_iff_ne.mpr hy]
        exact ih

lemma lookup_map (names : List String) (value : String → Value) :
    (names.map fun y => (y, value y)).lookup x = if x ∈ names then some (value x) else none := by
  induction names with
  | nil => simp
  | cons y names ih =>
      rw [List.map_cons, lookup_cons_eq, ih]
      by_cases hy : x = y
      · simp [hy]
      · simp [hy]

/-! ## When a plan reads a name as lexical scoping does -/

/-- Whatever values the names have, the plan of a case reads a name as lexical scoping does. -/
def Faithful (locals : List String) (plans : List CasePlan) (envNames bound : List String)
    (x : String) : Prop :=
  ∀ values env : List (String × Value), values.map Prod.fst = bound →
    env.map Prod.fst = envNames →
      Frame.lookup ⟨locals, Matcher.globalsOf plans env⟩ (underLocals values) (localOf bound x) =
        lexicalNames env values x

lemma not_mem_expressionNames :
    constantName ∉ expressionNames.map Prod.fst ∧
      Matcher.casesName ∉ expressionNames.map Prod.fst := by
  decide

lemma expressionNames_ne_none {v : Value} (h : expressionNames.lookup x = some v) : v ≠ .none := by
  have hmem : ∀ p ∈ expressionNames, p.2 ≠ .none := by simp [expressionNames]
  obtain ⟨a, b, hsplit, -⟩ := List.lookup_eq_some_iff.mp h
  exact hmem (x, v) (by simp [hsplit])

variable {plans : List CasePlan}

/-- A use that is not disturbed is read as lexical scoping does. -/
lemma Undisturbed.faithful (hconstant : constantName ∉ locals)
    (hlocals : ∀ y ∈ bound, localName y ∈ locals) (h : Undisturbed locals bound x) :
    Faithful locals plans envNames bound x := by
  rintro values env rfl rfl
  unfold Undisturbed at h
  unfold localOf lexicalNames
  by_cases hx : x ∈ values.map Prod.fst
  · rw [if_pos hx] at h ⊢
    obtain ⟨v, hv⟩ := lookup_isSome hx
    have hlocal := hlocals x hx
    have hne : localName x ≠ constantName := fun hc => hconstant (hc ▸ hlocal)
    rw [lookup_local hne hlocal, lookup_underLocals h, List.append_assoc, lookup_append, hv]
    rfl
  · rw [if_neg hx] at h ⊢
    obtain ⟨hlocal, hconst, hcases⟩ := h
    rw [lookup_global hconst hlocal, Matcher.globalsOf, List.cons_append, lookup_cons_eq,
      if_neg hcases, List.append_assoc, lookup_append values, lookup_eq_none hx, Option.none_or]

/-- The value of a name that is not bound, if all of the environment has one value. -/
lemma lexicalNames_of_not_mem (hx : x ∉ bound) (v w : Value) :
    lexicalNames (envNames.map fun y => (y, v)) (bound.map fun y => (y, w)) x =
      found x ((if x ∈ envNames then some v else none).or (expressionNames.lookup x)) := by
  rw [lexicalNames, List.append_assoc, lookup_append, lookup_append,
    @lookup_map x bound fun _ => w, @lookup_map x envNames fun _ => v, if_neg hx, Option.none_or]

lemma map_fst_map (names : List String) (value : String → Value) :
    (names.map fun y => (y, value y)).map Prod.fst = names := by
  rw [List.map_map]
  exact List.map_id names

/-- A bound name that is read as lexical scoping does is the latest with its local: otherwise the
values that tell it from all other names tell the two readings apart. -/
lemma Faithful.find_eq (h : Faithful locals plans envNames bound x)
    (hconstant : constantName ∉ locals) (hlocal : localName x ∈ locals) (hx : x ∈ bound) :
    bound.find? (fun y => localName y == localName x) = some x := by
  have hne : localName x ≠ constantName := fun hc => hconstant (hc ▸ hlocal)
  have hread := h (bound.map fun y => (y, .bool (y == x))) (envNames.map fun y => (y, .none))
    (map_fst_map _ _) (map_fst_map _ _)
  rw [localOf, if_pos hx, lookup_local hne hlocal, lookup_map_localName, lexicalNames,
    List.append_assoc, lookup_append, lookup_map, if_pos hx, Option.some_or] at hread
  cases hfind : bound.find? (fun y => localName y == localName x) with
  | none =>
      rw [hfind] at hread
      cases hread
  | some y =>
      rw [hfind] at hread
      have hyx : y = x := by simpa [found] using hread
      rw [hyx]

/-- A use that is read as lexical scoping does, whatever the values, is not disturbed. -/
lemma Undisturbed.of_faithful (hconstant : constantName ∉ locals)
    (hlocals : ∀ y ∈ bound, localName y ∈ locals) (hknown : Known bound envNames x)
    (h : Faithful locals plans envNames bound x) : Undisturbed locals bound x := by
  obtain ⟨hnotConstant, hnotCases⟩ := not_mem_expressionNames
  unfold Undisturbed
  by_cases hx : x ∈ bound
  · -- A bound name: the latest local of its name has to be its own.
    rw [if_pos hx]
    exact h.find_eq hconstant (hlocals x hx) hx
  · -- Any other name: the values of bound names and of the environment are chosen to differ.
    rw [if_neg hx]
    have hread := fun v w => h (bound.map fun y => (y, w)) (envNames.map fun y => (y, v))
      (map_fst_map _ fun _ => w) (map_fst_map _ fun _ => v)
    simp only [localOf, hx, if_false, lexicalNames_of_not_mem hx] at hread
    have henv : x ∉ expressionNames.map Prod.fst → x ∈ envNames := by
      intro hexpr
      rcases hknown with hbound | henv | hexpr'
      · exact absurd hbound hx
      · exact henv
      · exact absurd (by simpa [isExpressionName] using hexpr') hexpr
    have hnotLocal : x ∉ locals := by
      -- A local is without a value or has one of those bound, and no other name stands for `none`.
      intro hlocal
      have hne : x ≠ constantName := fun hc => hconstant (hc ▸ hlocal)
      have hread := hread (.bool true) .none
      rw [lookup_local hne hlocal] at hread
      have hnone : ∀ v ∈ (underLocals (bound.map fun y => (y, Value.none))).lookup x,
          v = .none := by
        intro v hv
        obtain ⟨a, b, hsplit, -⟩ := List.lookup_eq_some_iff.mp hv
        have hmem : (x, v) ∈ underLocals (bound.map fun y => (y, Value.none)) := by simp [hsplit]
        simp only [underLocals, List.map_map, List.mem_map, Function.comp, Prod.mk.injEq] at hmem
        obtain ⟨y, -, -, rfl⟩ := hmem
        rfl
      rw [found_injective hread] at hnone
      split at hnone
      · have := hnone (.bool true) rfl
        cases this
      · rename_i henv'
        rw [Option.none_or] at hnone
        obtain ⟨v, hv⟩ := lookup_isSome (by_contra fun hexpr => henv' (henv hexpr))
        exact expressionNames_ne_none hv (hnone v hv)
    refine ⟨hnotLocal, ?_, ?_⟩
    · -- The constant of the listing hides the name of the environment.
      rintro rfl
      have hread := hread .none .none
      rw [lookup_constant, if_pos (henv hnotConstant), Option.some_or] at hread
      cases hread
    · -- And so does the tuple of the cases.
      intro hcases
      subst hcases
      have hread := hread .none .none
      rw [lookup_global (by decide) hnotLocal, if_pos (henv hnotCases), Matcher.globalsOf,
        List.cons_append, lookup_cons_eq, if_pos rfl, Option.some_or] at hread
      cases hread

/-! ## Cases -/

/-- A case in which no use of a name is disturbed. -/
def Hygienic (lexical : CasePlan) : Prop :=
  ∀ use ∈ lexical.uses, ∀ x ∈ use.2.freeNames,
    Undisturbed (lexical.locals.map localName) use.1 x

instance (lexical : CasePlan) : Decidable (Hygienic lexical) := by
  unfold Hygienic
  infer_instance

/-- Runs that are equal in every respect. -/
def Likeness.equality : Likeness where
  call := Eq
  fault := Eq
  value := Eq
  width := Eq
  fault_refl := Eq.refl
  toInt_eq h := h ▸ rfl
  width_refl := Eq.refl
  toScalar h := h ▸ .refl (fun _ => rfl) (fun _ => rfl) _
  toInt h := h ▸ .refl (fun _ => rfl) (fun _ => rfl) _
  toEndian h := h ▸ .refl (fun _ => rfl) (fun _ => rfl) _
  truth h := h ▸ rfl
  accepts _ _ _ h := h ▸ rfl

lemma subjects_equality (subject : Bitstring) : Subjects .equality subject subject := by
  refine ⟨rfl, rfl, ?_⟩
  intro plan plan' s s' width width' order hoff hwidth htype hsigned _ _
  have hoff : s.off = s'.off := by omega
  cases hwidth
  rw [htype, hsigned, hoff]
  exact .refl (fun _ => rfl) (fun _ => rfl) _

lemma bound_equality {values values' : List (String × Value)}
    (h : Likeness.equality.Bound localName values values') : values' = underLocals values := by
  induction h with
  | nil => rfl
  | @cons p q values values' hpq _ ih =>
      obtain ⟨hname, hvalue⟩ := hpq
      rw [ih, underLocals, underLocals, List.map_cons, ← hname]
      exact congrArg (· :: _) (Prod.ext rfl hvalue.symm)

variable {env : List (String × Value)}

/-- An expression whose names are read faithfully has the value that it has by lexical scoping. -/
lemma eval_resolved {e : Expr} {values : List (String × Value)}
    (h : ∀ x ∈ e.freeNames, Faithful locals plans (env.map Prod.fst) (values.map Prod.fst) x) :
    (e.rename (localOf (values.map Prod.fst))).eval
        (Frame.lookup ⟨locals, Matcher.globalsOf plans env⟩ (underLocals values)) =
      e.eval (lexicalNames env values) := by
  rw [Expr.eval_rename]
  exact Expr.eval_congr fun x hx => h x hx values env rfl rfl

/-- The uses of a list, all read faithfully. -/
def FaithfulUses (locals : List String) (plans : List CasePlan) (envNames : List String)
    (uses : List (List String × Expr)) : Prop :=
  ∀ use ∈ uses, ∀ x ∈ use.2.freeNames, Faithful locals plans envNames use.1 x

lemma exprsAlike_resolved {uses : List (List String × Expr)}
    (h : FaithfulUses locals plans (env.map Prod.fst) uses) {bound : List String} {e : Expr}
    (he : (bound, e) ∈ uses) :
    ExprsAlike .equality localName (lexicalNames env)
      (Frame.lookup ⟨locals, Matcher.globalsOf plans env⟩) bound e
      (e.rename (localOf bound)) := by
  rintro values values' rfl hvalues
  rw [bound_equality hvalues, eval_resolved (h _ he)]
  exact related_eq_iff.mpr rfl

lemma FieldPlan.resolved_alike {plan : FieldPlan}
    (h : FaithfulUses locals plans (env.map Prod.fst) (plan.uses bound)) :
    plan.Alike (ExprsAlike .equality localName (lexicalNames env)
      (Frame.lookup ⟨locals, Matcher.globalsOf plans env⟩)) localName bound
      (plan.resolved bound) := by
  have hinner : ∀ o : Option Expr, (∀ e ∈ o, e ∈ plan.rebind ∨ e ∈ plan.check ∨ e ∈ plan.jump) →
      Option.Rel (ExprsAlike .equality localName (lexicalNames env)
        (Frame.lookup ⟨locals, Matcher.globalsOf plans env⟩) (plan.namesAfter bound)) o
        (o.map (Expr.rename (localOf (plan.namesAfter bound)))) := by
    intro o ho
    cases o with
    | none => exact .none
    | some e =>
        refine .some (exprsAlike_resolved h ?_)
        simp only [FieldPlan.uses, List.mem_append, List.mem_map, Option.mem_toList]
        exact .inr ⟨e, by have := ho e rfl; tauto, rfl⟩
  refine ⟨rfl, ?_, rfl, ?_, rfl, rfl, hinner _ fun e he => .inl he, rfl,
    hinner _ fun e he => .inr (.inl he), hinner _ fun e he => .inr (.inr he)⟩
  · cases hlength : plan.length with
    | fixed n => simpa [FieldPlan.resolved, hlength, Length.rename] using .fixed n
    | rest => simpa [FieldPlan.resolved, hlength, Length.rename] using .rest
    | computed e =>
        simp only [FieldPlan.resolved, hlength, Length.rename]
        exact .computed (exprsAlike_resolved h (by simp [FieldPlan.uses, hlength]))
  · cases horder : plan.order with
    | named name => simpa [FieldPlan.resolved, horder, Order.rename] using .named name
    | computed e native =>
        simp only [FieldPlan.resolved, horder, Order.rename]
        exact .computed native (exprsAlike_resolved h (by simp [FieldPlan.uses, horder]))

lemma resolvedFields_alike {fields : List FieldPlan}
    (h : FaithfulUses locals plans (env.map Prod.fst) (usesOf bound fields)) :
    FieldsAlike (ExprsAlike .equality localName (lexicalNames env)
      (Frame.lookup ⟨locals, Matcher.globalsOf plans env⟩)) localName bound fields
      (resolvedFields bound fields) := by
  induction fields generalizing bound with
  | nil => exact .nil _
  | cons field fields ih =>
      exact .cons (FieldPlan.resolved_alike fun use huse => h use (List.mem_append_left _ huse))
        (ih fun use huse => h use (List.mem_append_right _ huse))

lemma BodyPlan.run_resolved {body : BodyPlan} {values : List (String × Value)}
    (h : FaithfulUses locals plans (env.map Prod.fst) (body.uses (values.map Prod.fst))) :
    (body.resolved (values.map Prod.fst)).run
        (Frame.lookup ⟨locals, Matcher.globalsOf plans env⟩ (underLocals values)) =
      body.run (lexicalNames env values) := by
  cases body with
  | value e => exact eval_resolved (h (values.map Prod.fst, e) (by simp [BodyPlan.uses]))
  | call callable args =>
      simp only [BodyPlan.resolved, BodyPlan.run, List.mapM_map]
      congr 2
      refine result_mapM_congr fun arg harg => ?_
      have hread : Frame.lookup ⟨locals, Matcher.globalsOf plans env⟩ (underLocals values)
          (localOf (values.map Prod.fst) arg.2) = lexicalNames env values arg.2 :=
        h (values.map Prod.fst, .name arg.2) (List.mem_map.mpr ⟨arg, harg, rfl⟩) arg.2 (by simp)
          values env rfl rfl
      simp only [Function.comp_apply, hread]

/-- A case whose uses are all read faithfully runs as lexical scoping says. -/
lemma CasePlan.run_resolved {lexical : CasePlan}
    (h : FaithfulUses (lexical.resolved).locals plans (env.map Prod.fst) lexical.uses)
    (hfields : ∀ field ∈ lexical.fields, field.Measured ∧ field.Binds) (subject : Bitstring) :
    lexical.resolved.run (Matcher.globalsOf plans env) subject =
      lexical.runWith (lexicalNames env) subject := by
  have hruns : Likeness.equality.Runs (Option.Rel Eq) (lexical.runWith (lexicalNames env) subject)
      (lexical.resolved.run (Matcher.globalsOf plans env) subject) := by
    refine @CasePlan.runWith_alike .equality localName _ _ subject subject lexical lexical.resolved
      (resolvedFields_alike fun use huse => h use (List.mem_append_left _ huse)) hfields
      (subjects_equality subject) fun values values' hvalues hbound => ?_
    rw [bound_equality hbound]
    have hbody : FaithfulUses (lexical.resolved).locals plans (env.map Prod.fst)
        (lexical.body.uses (values.map Prod.fst)) := fun use huse =>
      h use (List.mem_append_right _ (hvalues ▸ huse))
    change Related Eq Eq Eq (lexical.body.run (lexicalNames env values))
      ((lexical.body.resolved lexical.boundAfter).run _)
    rw [← hvalues, BodyPlan.run_resolved hbody]
    exact related_eq_iff.mpr rfl
  refine (related_eq_iff.mp (hruns.mono fun a b hab => ?_)).symm
  cases hab with
  | none => rfl
  | some hab => rw [hab]

/-! ## Names without a value -/

/-- By lexical scoping a name that is known has a value. -/
lemma lexicalNames_isOk {values : List (String × Value)}
    (h : Known (values.map Prod.fst) (env.map Prod.fst) x) :
    ∃ v, lexicalNames env values x = .ok v := by
  have hmem : x ∈ (values ++ env ++ expressionNames).map Prod.fst := by
    simp only [List.map_append, List.mem_append]
    rcases h with h | h | h
    · exact .inl (.inl h)
    · exact .inl (.inr h)
    · exact .inr (by simpa [isExpressionName] using h)
  obtain ⟨v, hv⟩ := lookup_isSome hmem
  exact ⟨v, by rw [lexicalNames, hv]; rfl⟩

lemma usesFault_assigned {uses : List (List String × Expr)}
    (h : KnownUses (env.map Prod.fst) uses) :
    UsesFault Fault.Assigned (lexicalNames env) uses := by
  intro use huse values hvalues
  refine Expr.eval_faults (fun _ => Fault.ofValues.assigned) fun x hx f hf => ?_
  obtain ⟨v, hv⟩ := @lexicalNames_isOk _ env values (hvalues ▸ h use huse x hx)
  rw [hv] at hf
  cases hf

/-- By lexical scoping a case ends in no fault of a name without a value, unless its callable body
answers with one. -/
lemma CasePlan.runWith_assigned {lexical : CasePlan}
    (h : KnownUses (env.map Prod.fst) lexical.uses)
    (hfields : ∀ field ∈ lexical.fields, field.Measured ∧ field.Binds) (subject : Bitstring) :
    (lexical.runWith (lexicalNames env) subject).Faults fun f =>
      f.Assigned ∨ ∃ callable args values, lexical.body = .call callable args ∧
        callable.answer values = .error f := by
  have huses := usesFault_assigned h
  -- The fields first, and then the body with what they have bound.
  have hrun : (runFields (lexicalNames env) subject (.start subject) lexical.fields).Faults
      Fault.Assigned :=
    runFields_faults (fun field hfield => (hfields field hfield).2)
      (fun _ => Fault.ofValues.assigned)
      (fun use huse => huses use (List.mem_append_left _ huse)) (fun _ _ _ _ _ => nofun)
  refine .bind (hrun.mono fun _ => .inl) fun s hs => ?_
  cases s with
  | none => exact .pure _
  | some s =>
      have hnames := names_of_runFields (fun field hfield => (hfields field hfield).2) hs
      have hbody := fun use huse => huses use (List.mem_append_right _ huse)
      refine .bind ?_ fun _ _ => .pure _
      cases hbodyPlan : lexical.body with
      | value e =>
          refine (hbody (lexical.boundAfter, e) ?_ s.bound hnames).mono fun _ => .inl
          simp [hbodyPlan, BodyPlan.uses]
      | call callable args =>
          refine .bind (fun f hf => .inl ?_) fun values _ f hf =>
            .inr ⟨callable, args, values, rfl, hf⟩
          obtain ⟨arg, harg, hlookup⟩ := result_mapM_eq_error hf
          obtain hlookup | ⟨_, -, hlookup⟩ := result_bind_eq_error.mp hlookup
          · refine hbody (lexical.boundAfter, .name arg.2) ?_ s.bound hnames f hlookup
            simp only [hbodyPlan, BodyPlan.uses]
            exact List.mem_map.mpr ⟨arg, harg, rfl⟩
          · cases hlookup

/-! ## Matchers -/

/-- Renaming changes neither how long fields may be nor which of them bind names. -/
lemma FieldPlan.of_resolved {plan : FieldPlan} (h : (plan.resolved bound).Measured)
    (hbinds : (plan.resolved bound).Binds) : plan.Measured ∧ plan.Binds := by
  refine ⟨?_, fun hreads => ?_⟩
  · unfold FieldPlan.Measured at h ⊢
    cases hlength : plan.length with
    | fixed n => simpa [FieldPlan.resolved, hlength, Length.rename] using h
    | rest => simpa [FieldPlan.resolved, hlength, Length.rename] using h
    | computed e => trivial
  · have hreads' : (plan.resolved bound).reads = plan.reads := by
      unfold FieldPlan.reads FieldPlan.resolved
      cases plan.type <;> cases plan.length <;> rfl
    have := hbinds (hreads'.trans hreads)
    simpa [FieldPlan.resolved] using this

lemma of_resolvedFields {fields : List FieldPlan}
    (h : ∀ field ∈ resolvedFields bound fields, field.Measured ∧ field.Binds) :
    ∀ field ∈ fields, field.Measured ∧ field.Binds := by
  induction fields generalizing bound with
  | nil => simp
  | cons field fields ih =>
      obtain ⟨hfield, hfields⟩ := List.forall_mem_cons.mp h
      exact List.forall_mem_cons.mpr ⟨FieldPlan.of_resolved hfield.1 hfield.2, ih hfields⟩

lemma locals_resolvedFields (fields : List FieldPlan) :
    (resolvedFields bound fields).flatMap FieldPlan.locals =
      (fields.flatMap FieldPlan.locals).map localName := by
  induction fields generalizing bound with
  | nil => rfl
  | cons field fields ih =>
      rw [resolvedFields, List.flatMap_cons, List.flatMap_cons, List.map_append, ih]
      rfl

lemma mem_usesOf {before : List String} {fields : List FieldPlan} {use : List String × Expr}
    (h : use ∈ usesOf before fields) {y : String} (hy : y ∈ use.1) :
    y ∈ before ∨ y ∈ fields.flatMap FieldPlan.locals := by
  induction fields generalizing before with
  | nil => cases h
  | cons field fields ih =>
      have hafter : y ∈ field.namesAfter before → y ∈ before ∨ y ∈ field.locals := by
        rw [FieldPlan.namesAfter, List.mem_append, List.mem_reverse]
        tauto
      rw [List.flatMap_cons, List.mem_append]
      rcases List.mem_append.mp h with h | h
      · -- An expression sees the names before its field, or those of its pattern as well.
        have huse : use.1 = before ∨ use.1 = field.namesAfter before := by
          unfold FieldPlan.uses at h
          rcases List.mem_append.mp h with h | h
          · rcases List.mem_append.mp h with h | h
            · split at h <;> simp_all
            · split at h <;> simp_all
          · obtain ⟨e, -, rfl⟩ := List.mem_map.mp h
            exact .inr rfl
        rcases huse with huse | huse
        · exact .inl (huse ▸ hy)
        · rcases hafter (huse ▸ hy) with hy | hy <;> tauto
      · rcases ih h with hy | hy
        · rcases hafter hy with hy | hy <;> tauto
        · tauto

/-- Whatever is bound where an expression is evaluated is a name of the case. -/
lemma mem_locals_of_mem_uses {lexical : CasePlan} {use : List String × Expr}
    (h : use ∈ lexical.uses) {y : String} (hy : y ∈ use.1) : y ∈ lexical.locals := by
  rcases List.mem_append.mp h with h | h
  · exact (mem_usesOf h hy).resolve_left (by simp)
  · have huse : use.1 = lexical.boundAfter := by
      cases hbody : lexical.body <;> simp only [hbody, BodyPlan.uses] at h
      · rw [List.mem_singleton.mp h]
      · obtain ⟨arg, -, rfl⟩ := List.mem_map.mp h
        rfl
    exact (mem_namesAfter.mp (huse ▸ hy)).resolve_left (by simp)

/-- A listing that can be loaded does not assign to the constant. -/
lemma constantName_not_mem {config : Config} {plans : List CasePlan}
    (h : Matcher.checkLoadable config plans = .ok ()) {plan : CasePlan} (hplan : plan ∈ plans) :
    constantName ∉ plan.locals := by
  unfold Matcher.checkLoadable at h
  split at h
  · cases h
  · split at h
    · cases h
    · rename_i hany
      simp only [List.any_eq_true, List.contains_iff_mem, not_exists, not_and] at hany
      exact hany plan hplan

/-- **Lexical scoping.** For a case of a matcher, no use of a name is disturbed exactly if the plan
reads every name of every expression as lexical scoping does, whatever values the names have.  Then
the case runs as lexical scoping says on every subject, and never ends in the fault of a name
without a value, unless its callable body answers with one. -/
theorem lexical_scoping {config : Config} {env : List (String × Value)} {cases : List Case}
    {m : Matcher} (hm : Matcher.ofNumbered config env cases = .ok m) {c : Case} {plan : CasePlan}
    (hc : (c, plan) ∈ cases.zip m.plans) :
    let lexical := lexicalCase (Matcher.context config env) c
    (Hygienic lexical ↔
        FaithfulUses plan.locals m.plans (env.map Prod.fst) lexical.uses) ∧
      (Hygienic lexical → ∀ subject,
        plan.run m.globals subject = lexical.runWith (lexicalNames env) subject ∧
          (plan.run m.globals subject).Faults fun f =>
            f.Assigned ∨ ∃ callable args values, lexical.body = .call callable args ∧
              callable.answer values = .error f) := by
  intro lexical
  obtain ⟨-, hcases, hload, hglobals⟩ := Matcher.ofNumbered_eq_ok hm
  have hmem : plan ∈ m.plans := (List.of_mem_zip hc).2
  obtain ⟨hplan, hknown⟩ := planCase_eq_resolved (List.forall₂_zip hcases hc)
  have hfields := measured_of_mem hm hmem
  have hconstant := constantName_not_mem hload hmem
  rw [hglobals]
  clear hcases hload hc hglobals
  subst hplan
  have hlocals : lexical.resolved.locals = lexical.locals.map localName :=
    locals_resolvedFields lexical.fields
  have hbound : ∀ use ∈ lexical.uses, ∀ y ∈ use.1, localName y ∈ lexical.resolved.locals := by
    intro use huse y hy
    rw [hlocals]
    exact List.mem_map_of_mem (mem_locals_of_mem_uses huse hy)
  -- Both conditions are about every name of every use, so they are compared one by one.
  have hiff : Hygienic lexical ↔
      FaithfulUses lexical.resolved.locals m.plans (env.map Prod.fst) lexical.uses := by
    unfold Hygienic FaithfulUses
    rw [← hlocals]
    refine forall₂_congr fun use huse => forall₂_congr fun x hx => ?_
    exact ⟨Undisturbed.faithful hconstant (hbound use huse),
      Undisturbed.of_faithful hconstant (hbound use huse) (hknown use huse x hx)⟩
  refine ⟨hiff, fun hygienic subject => ?_⟩
  have hlexical := of_resolvedFields hfields
  have hrun := CasePlan.run_resolved (hiff.mp hygienic) hlexical subject
  exact ⟨hrun, hrun ▸ CasePlan.runWith_assigned hknown hlexical subject⟩

/-- The name that counts the bits of a bitstring is bound by the field before it, and not that of
the environment, on every subject. -/
theorem lexical_scoping_counted :
    ∃ m plan, Matcher.ofNumbered {} [("n", .int 3)] [countedCase] = .ok m ∧ m.plans = [plan] ∧
      Hygienic (lexicalCase (Matcher.context {} [("n", .int 3)]) countedCase) ∧
      ∀ subject, plan.run m.globals subject =
        (lexicalCase (Matcher.context {} [("n", .int 3)]) countedCase).runWith
          (lexicalNames [("n", .int 3)]) subject := by
  obtain ⟨plan, hplan, hlocals⟩ : ∃ plan,
      planCases (Matcher.context {} [("n", .int 3)]) [countedCase] = .ok [plan] ∧
        constantName ∉ plan.locals := ⟨_, rfl, by decide⟩
  have hm := Matcher.ofNumbered_singleton hplan (by simp)
    (by simp [countedCase, effectiveFields, Field.isRest]) hlocals
  have hygienic : Hygienic (lexicalCase (Matcher.context {} [("n", .int 3)]) countedCase) := by
    decide
  have hscoping := lexical_scoping hm (c := countedCase) (List.mem_singleton.mpr rfl)
  exact ⟨_, plan, hm, rfl, hygienic, fun subject => (hscoping.2 hygienic subject).1⟩

/-- A field whose length is a name of the environment that the next field binds. -/
def hidingCase : Case where
  fieldsText := "a:n, n:8"
  fields := [
    ⟨.var "a", some (.name "n"), some .default, "a:n"⟩,
    ⟨.var "n", some (.int 8), some .default, "n:8"⟩]
  body := .expr (.name "a")
  index := 0

/-- By lexical scoping the first field has eight bits.  The plan asks for the local that the second
field binds, which has no value yet. -/
theorem later_local_hides_environment :
    ∃ m plan, Matcher.ofNumbered {} [("n", .int 8)] [hidingCase] = .ok m ∧ m.plans = [plan] ∧
      (plan.run m.globals (.ofBytes [1, 2])).result = .error (.unassigned "n") ∧
      ((lexicalCase (Matcher.context {} [("n", .int 8)]) hidingCase).runWith
        (lexicalNames [("n", .int 8)]) (.ofBytes [1, 2])).result = .ok (some (.int 1)) := by
  obtain ⟨plan, hplan, hlocals, hrun⟩ : ∃ plan,
      planCases (Matcher.context {} [("n", .int 8)]) [hidingCase] = .ok [plan] ∧
        constantName ∉ plan.locals ∧
          (plan.run (Matcher.globalsOf [plan] [("n", .int 8)]) (.ofBytes [1, 2])).result =
            .error (.unassigned "n") := ⟨_, rfl, by decide, rfl⟩
  have hm := Matcher.ofNumbered_singleton hplan (by simp)
    (by simp [hidingCase, effectiveFields, Field.isRest]) hlocals
  exact ⟨_, plan, hm, rfl, hrun, rfl⟩

end Plan

end BitPattern
