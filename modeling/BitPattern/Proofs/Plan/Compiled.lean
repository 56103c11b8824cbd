import BitPattern.Matcher
import BitPattern.Proofs.Expr.Mention
import BitPattern.Proofs.Plan.Scope
import Mathlib.Data.List.Find

/-!
# Compiled expressions

An expression is compiled where some names are bound and others are given by an environment: its
names are resolved, and what they are called there is written as code.  Resolving goes through the
mentions from left to right, so it ends at the first one that is not known (`resolve_eq`).

All of this is settled by the free names.  `compile_by_names` says that an expression compiles
exactly if each of them is known, that the first one which is not is the fault otherwise, and that
a run looks at nothing else.
-/

namespace BitPattern.Plan

open BitPattern.Report

/-- The code of an expression, if none of its names is unbound. -/
def compile (scope : Scope) (env : List String) (fieldText : String) (e : Expr) :
    Except Cause String := do
  let r ← resolve scope env fieldText e
  pure r.code

/-- What a name is called in the code: its local if it is bound, and else itself. -/
def Scope.called (scope : Scope) (x : String) : String :=
  (scope.lookup x).getD x

/-- What a run has beside the environment: the locals that are only bound later in the case, the
values of the locals so far, and the plans of all cases. -/
structure Surroundings where
  later : List String
  values : List (String × Value)
  plans : List CasePlan

/-- What the names of code stand for in an environment. -/
def Surroundings.lookup (around : Surroundings) (scope : Scope) (env : List (String × Value)) :
    String → Except Fault Value :=
  Frame.lookup ⟨scope.map Prod.snd ++ around.later, Matcher.globalsOf around.plans env⟩
    around.values

/-- An expression compiled in an environment and run in it. -/
def Surroundings.run (around : Surroundings) (scope : Scope) (env : List (String × Value))
    (fieldText : String) (e : Expr) : Except Cause (Run Value) := do
  let r ← resolve scope (env.map Prod.fst) fieldText e
  pure (r.eval (around.lookup scope env))

variable {scope : Scope} {env : List String} {text : String}

/-! ## Known names -/

lemma mem_keys {α : Type} {entries : List (String × α)} {x : String} :
    x ∈ entries.map Prod.fst ↔ (entries.lookup x).isSome = true := by
  rw [List.lookup_isSome_iff]
  simp

/-- A name that is neither bound nor in the environment nor known to every expression. -/
def unknown (scope : Scope) (env : List String) (x : String) : Bool :=
  (resolveName? scope env x).isNone

lemma unknown_eq_false {x : String} : unknown scope env x = false ↔ Known scope.names env x := by
  have hbound : x ∈ scope.names ↔ (scope.lookup x).isSome = true := mem_keys
  rw [unknown, resolveName?, Known, hbound]
  cases scope.lookup x with
  | some l => simp
  | none => simp

lemma resolveName_eq (x : String) : resolveName scope env text x =
    if unknown scope env x then .error (.unboundName x text (scope.names ++ env))
    else .ok (scope.called x) := by
  rw [resolveName, unknown, resolveName?, Scope.called]
  cases scope.lookup x with
  | some l => rfl
  | none => cases env.contains x || isExpressionName x <;> rfl

/-! ## Resolving -/

/-- A value, unless some name is unknown. -/
def unlessUnbound {α : Type} (scope : Scope) (env : List String) (text : String) (a : α) :
    Option String → Except Cause α
  | none => .ok a
  | some x => .error (.unboundName x text (scope.names ++ env))

lemma unlessUnbound_bind {α β γ : Type} (a : α) (b : β) (f : α → β → γ) (x y : Option String) :
    (do
      let a ← unlessUnbound scope env text a x
      let b ← unlessUnbound scope env text b y
      pure (f a b)) = unlessUnbound scope env text (f a b) (x.or y) := by
  cases x with
  | some x => rfl
  | none => cases y <;> rfl

lemma unlessUnbound_map {α β : Type} (a : α) (f : α → β) (x : Option String) :
    (do
      let a ← unlessUnbound scope env text a x
      pure (f a)) = unlessUnbound scope env text (f a) x := by
  cases x <;> rfl

lemma resolveName_find? (x : String) : resolveName scope env text x =
    unlessUnbound scope env text (scope.called x) ([x].find? (unknown scope env)) := by
  rw [resolveName_eq, List.find?_singleton]
  split <;> rfl

lemma resolveAll_eq {es : List Expr}
    (h : ∀ e ∈ es, resolve scope env text e = unlessUnbound scope env text
      (e.rename scope.called) (e.mentions.find? (unknown scope env))) :
    resolveAll scope env text es = unlessUnbound scope env text
      (Expr.renameAll scope.called es) ((Expr.mentionsOf es).find? (unknown scope env)) := by
  induction es with
  | nil => rfl
  | cons e es ih =>
      obtain ⟨he, hes⟩ := List.forall_mem_cons.mp h
      rw [resolveAll, he, ih hes, unlessUnbound_bind, Expr.mentionsOf, List.find?_append]
      rfl

/-- Resolving renames every name, unless some mention is of an unknown name: the first of these is
the fault then. -/
lemma resolve_eq (e : Expr) : resolve scope env text e = unlessUnbound scope env text
    (e.rename scope.called) (e.mentions.find? (unknown scope env)) := by
  induction e with
  | int | bytes | bool => rfl
  | name x => rw [resolve, resolveName_find?, unlessUnbound_map]; rfl
  | binary op left right ihl ihr =>
      rw [resolve, ihl, ihr, unlessUnbound_bind, Expr.mentions, List.find?_append]
      rfl
  | unary op operand ih => rw [resolve, ih, unlessUnbound_map]; rfl
  | call function args ih =>
      rw [resolve, resolveName_find?, resolveAll_eq ih, unlessUnbound_bind, ← List.find?_append]
      rfl
  | tuple items ih => rw [resolve, resolveAll_eq ih, unlessUnbound_map]; rfl

lemma eq_rename_of_resolve {e r : Expr} (h : resolve scope env text e = .ok r) :
    r = e.rename scope.called := by
  rw [resolve_eq] at h
  cases hfind : e.mentions.find? (unknown scope env) with
  | none =>
      rw [hfind] at h
      cases h
      rfl
  | some x =>
      rw [hfind] at h
      cases h

lemma compile_eq (e : Expr) : compile scope env text e = unlessUnbound scope env text
    (e.rename scope.called).code (e.freeNames.find? (unknown scope env)) := by
  rw [compile, resolve_eq, unlessUnbound_map, Expr.find?_freeNames]

/-- An expression compiles exactly if all of its names are known. -/
lemma compile_isOk (e : Expr) : (∃ code, compile scope env text e = .ok code) ↔
    ∀ x ∈ e.freeNames, Known scope.names env x := by
  have hnone : (∀ x ∈ e.freeNames, Known scope.names env x) ↔
      e.freeNames.find? (unknown scope env) = none := by
    simp only [List.find?_eq_none, Bool.not_eq_true, unknown_eq_false]
  rw [compile_eq, hnone]
  cases e.freeNames.find? (unknown scope env) with
  | none => exact ⟨fun _ => rfl, fun _ => ⟨_, rfl⟩⟩
  | some x =>
      constructor
      · rintro ⟨code, h⟩
        cases h
      · intro h
        cases h

/-- The first name that is not known is the fault of an expression. -/
lemma compile_eq_error (e : Expr) {cause : Cause} : compile scope env text e = .error cause ↔
    ∃ before x after, e.freeNames = before ++ x :: after ∧
      (∀ y ∈ before, Known scope.names env y) ∧ ¬Known scope.names env x ∧
        cause = .unboundName x text (scope.names ++ env) := by
  -- The search ends at the first name that is not known.
  have hsome (x : String) : e.freeNames.find? (unknown scope env) = some x ↔ ∃ before after,
      e.freeNames = before ++ x :: after ∧ (∀ y ∈ before, Known scope.names env y) ∧
        ¬Known scope.names env x := by
    simp only [List.find?_eq_some_iff_append, ← unknown_eq_false, Bool.not_eq_false]
    constructor
    · rintro ⟨hx, before, after, hnames, hbefore⟩
      exact ⟨before, after, hnames, fun y hy => by simpa using hbefore y hy, hx⟩
    · rintro ⟨before, after, hnames, hbefore, hx⟩
      exact ⟨hx, before, after, hnames, fun y hy => by simp [hbefore y hy]⟩
  rw [compile_eq]
  constructor
  · intro h
    cases hfind : e.freeNames.find? (unknown scope env) with
    | none =>
        rw [hfind] at h
        cases h
    | some x =>
        rw [hfind] at h
        cases h
        obtain ⟨before, after, hnames, hbefore, hx⟩ := (hsome x).mp hfind
        exact ⟨before, x, after, hnames, hbefore, hx, rfl⟩
  · rintro ⟨before, x, after, hnames, hbefore, hx, rfl⟩
    rw [(hsome x).mpr ⟨before, after, hnames, hbefore, hx⟩]
    rfl

/-! ## Running -/

variable {around : Surroundings} {env env' : List (String × Value)}

lemma globalsOf_lookup {plans : List CasePlan} {x : String} (h : env.lookup x = env'.lookup x) :
    (Matcher.globalsOf plans env).lookup x = (Matcher.globalsOf plans env').lookup x := by
  rw [Matcher.globalsOf, Matcher.globalsOf, List.cons_append, List.cons_append, lookup_cons_eq,
    lookup_cons_eq, List.lookup_append, List.lookup_append, h]

/-- What a name stands for depends on the environment only through its value there. -/
lemma Surroundings.lookup_called {x : String} (h : env.lookup x = env'.lookup x) :
    around.lookup scope env (scope.called x) = around.lookup scope env' (scope.called x) := by
  rw [Surroundings.lookup, Surroundings.lookup, Scope.called]
  cases hx : scope.lookup x with
  | none =>
      simp only [Option.getD_none, Frame.lookup]
      split_ifs
      · rfl
      · rfl
      · rw [globalsOf_lookup h]
  | some l =>
      have hl : l ∈ scope.map Prod.snd ++ around.later := by
        obtain ⟨before, after, rfl, -⟩ := List.lookup_eq_some_iff.mp hx
        simp
      simp only [Option.getD_some, Frame.lookup, List.contains_iff_mem.mpr hl, if_true]

/-- Environments that agree on a name know it both or neither. -/
lemma unknown_congr {x : String} (h : env.lookup x = env'.lookup x) :
    unknown scope (env.map Prod.fst) x = unknown scope (env'.map Prod.fst) x := by
  have hkeys : x ∈ env.map Prod.fst ↔ x ∈ env'.map Prod.fst := by rw [mem_keys, mem_keys, h]
  rw [Bool.eq_iff_iff, ← not_iff_not, Bool.not_eq_true, Bool.not_eq_true, unknown_eq_false,
    unknown_eq_false, Known, Known, hkeys]

/-- Environments that agree on the free names make the same of an expression. -/
lemma Surroundings.run_congr (around : Surroundings) (scope : Scope) (text : String) {e : Expr}
    (h : ∀ x ∈ e.freeNames, env.lookup x = env'.lookup x) :
    (around.run scope env text e).mapError (fun cause => (cause.code, cause.message)) =
      (around.run scope env' text e).mapError fun cause => (cause.code, cause.message) := by
  have hunknown : e.freeNames.find? (unknown scope (env.map Prod.fst)) =
      e.freeNames.find? (unknown scope (env'.map Prod.fst)) :=
    List.find?_congr fun x hx => unknown_congr (h x hx)
  have hrun : (e.rename scope.called).eval (around.lookup scope env) =
      (e.rename scope.called).eval (around.lookup scope env') := by
    rw [Expr.eval_rename, Expr.eval_rename]
    exact Expr.eval_congr fun x hx => lookup_called (h x hx)
  rw [run, run, resolve_eq, resolve_eq, unlessUnbound_map, unlessUnbound_map,
    ← Expr.find?_freeNames, ← Expr.find?_freeNames, hunknown, hrun]
  cases e.freeNames.find? (unknown scope (env'.map Prod.fst)) <;> rfl

/-! ## What free names settle -/

/-- **Free names.**  They are the mentions of an expression, each once and in order; an expression
compiles exactly if all of them are known, and the first one that is not is the fault otherwise; and
two runs are the same where the environments agree on them, or whatever the names are looked up in
agrees on what they are called. -/
theorem compile_by_names (scope : Scope) (env : List String) (text : String) (e : Expr) :
    Expr.FirstsOf e.freeNames e.mentions ∧
      ((∃ code, compile scope env text e = .ok code) ↔
        ∀ x ∈ e.freeNames, Known scope.names env x) ∧
      (∀ cause, compile scope env text e = .error cause ↔ ∃ before x after,
        e.freeNames = before ++ x :: after ∧ (∀ y ∈ before, Known scope.names env y) ∧
          ¬Known scope.names env x ∧ cause = .unboundName x text (scope.names ++ env)) ∧
      (∀ (around : Surroundings) (env env' : List (String × Value)),
        (∀ x ∈ e.freeNames, env.lookup x = env'.lookup x) →
          (around.run scope env text e).mapError (fun cause => (cause.code, cause.message)) =
            (around.run scope env' text e).mapError fun cause => (cause.code, cause.message)) ∧
      ∀ (r : Expr) (lookup lookup' : String → Except Fault Value),
        resolve scope env text e = .ok r →
          (∀ x ∈ e.freeNames, lookup (scope.called x) = lookup' (scope.called x)) →
            r.eval lookup = r.eval lookup' := by
  refine ⟨e.freeNames_firsts, compile_isOk e, fun _ => compile_eq_error e, ?_, ?_⟩
  · intro around env env' h
    exact around.run_congr scope text h
  · intro r lookup lookup' hr h
    obtain rfl := eq_rename_of_resolve hr
    rw [Expr.eval_rename, Expr.eval_rename]
    exact Expr.eval_congr h

/-- A further name in the environment is nothing to `x + len(class)`. -/
theorem compile_by_names_apart :
    let e := Expr.binary .add (.name "x") (.call "len" [.name "class"])
    let scope : Scope := [("class", "class_")]
    let around : Surroundings := ⟨["y"], [("class_", .text "ab")], []⟩
    let env : List (String × Value) := [("x", .int 1)]
    let env' : List (String × Value) := [("y", .int 2), ("x", .int 1)]
    (∀ x ∈ e.freeNames, env.lookup x = env'.lookup x) ∧
      (around.run scope env "" e).mapError (fun cause => (cause.code, cause.message)) =
        (around.run scope env' "" e).mapError fun cause => (cause.code, cause.message) := by
  intro e scope around env env'
  have hnames : e.freeNames = ["x", "len", "class"] := by decide
  have hagree : ∀ x ∈ e.freeNames, env.lookup x = env'.lookup x := by
    rw [hnames]
    simp only [List.forall_mem_cons, List.not_mem_nil, false_implies, implies_true, and_true]
    exact ⟨rfl, rfl, rfl⟩
  exact ⟨hagree, (compile_by_names scope [] "" e).2.2.2.1 around env env' hagree⟩

end BitPattern.Plan
