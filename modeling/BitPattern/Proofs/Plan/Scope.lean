import BitPattern.Proofs.Plan.Build
import BitPattern.Proofs.Plan.Uses

/-!
# Scopes and resolving

A plan looks a name up among the values of its locals if it is one of them, and else in the
environment (`lookup_local`, `lookup_global`); the name of the constant is an exception
(`lookup_constant`).

Planning replaces every name of an expression by what it is called in the plan: the local of a name
that is bound there, and any other name by itself.  `Scope.Holds` says which names a scope knows,
and `resolve_eq_ok` that resolving an expression is renaming it by `localOf`, and succeeds exactly
if every name is bound, in the environment, or a name of every expression.
-/

namespace BitPattern.Plan

open BitPattern.Text

variable {scope : Scope} {bound : List String}

/-! ## Frames -/

/-- What came of looking a name up. -/
def found (x : String) : Option Value → Except Fault Value
  | some v => .ok v
  | none => .error (.unassigned x)

lemma found_injective {x : String} {a b : Option Value} (h : found x a = found x b) : a = b := by
  cases a <;> cases b <;> simp_all [found]

section Frame

variable {locals : List String} {values globals : List (String × Value)} {x : String}

lemma lookup_constant :
    Frame.lookup ⟨locals, globals⟩ values constantName = .ok (.bool true) := by
  simp [Frame.lookup]

lemma lookup_local (hne : x ≠ constantName) (hx : x ∈ locals) :
    Frame.lookup ⟨locals, globals⟩ values x = found x (values.lookup x) := by
  simp only [Frame.lookup, beq_iff_eq, hne, if_false, List.contains_iff_mem, hx, if_true]
  rfl

lemma lookup_global (hne : x ≠ constantName) (hx : x ∉ locals) :
    Frame.lookup ⟨locals, globals⟩ values x = found x (globals.lookup x) := by
  simp only [Frame.lookup, beq_iff_eq, hne, if_false, List.contains_iff_mem, hx]
  rfl

end Frame

/-! ## Scopes -/

lemma lookup_cons_eq {α : Type} (x y : String) (a : α) (entries : List (String × α)) :
    List.lookup y ((x, a) :: entries) = if y = x then some a else entries.lookup y := by
  rw [List.lookup_cons]
  by_cases h : y = x
  · simp [h]
  · simp [h, beq_eq_false_iff_ne.mpr h]

namespace Scope

/-- A scope that knows exactly some names, each by its local name. -/
def Holds (scope : Scope) (bound : List String) : Prop :=
  ∀ x, scope.lookup x = if x ∈ bound then some (localName x) else none

lemma lookup_put (x l y : String) :
    (scope.put x l).lookup y = if y = x then some l else scope.lookup y := by
  induction scope with
  | nil => rw [put, lookup_cons_eq]
  | cons entry scope ih =>
      obtain ⟨z, k⟩ := entry
      rw [put]
      by_cases hz : z = x
      · subst hz
        simp only [beq_self_eq_true, if_true, lookup_cons_eq]
        by_cases h : y = z <;> simp [h]
      · rw [if_neg (by simpa using hz), lookup_cons_eq, lookup_cons_eq, ih]
        by_cases h : y = z
        · subst h
          simp [hz]
        · simp [h]

lemma holds_nil : Holds [] [] := by
  intro x
  simp

lemma Holds.bind (h : scope.Holds bound) (x : String) : (scope.bind x).Holds (x :: bound) := by
  intro y
  rw [Scope.bind, lookup_put, h y]
  by_cases hy : y = x
  · subst hy
    simp
  · simp [hy]

lemma Holds.bindAll (h : scope.Holds bound) (xs : List String) :
    (scope.bindAll xs).Holds (xs.reverse ++ bound) := by
  unfold Scope.bindAll
  induction xs generalizing scope bound with
  | nil => exact h
  | cons x xs ih =>
      rw [List.foldl_cons, List.reverse_cons, List.append_assoc]
      exact ih (h.bind x)

/-- The names of a scope are those that it knows. -/
lemma Holds.mem_names (h : scope.Holds bound) {x : String} : x ∈ scope.names ↔ x ∈ bound := by
  have hlookup : x ∈ scope.names ↔ (scope.lookup x).isSome = true := by
    rw [names, List.lookup_isSome_iff]
    simp
  rw [hlookup, h x]
  split <;> simp_all

end Scope

/-! ## Resolving -/

/-- What a name is called in a plan where some names are bound. -/
def localOf (bound : List String) (x : String) : String :=
  if x ∈ bound then localName x else x

/-- A name that is bound, in the environment, or known to every expression. -/
def Known (bound env : List String) (x : String) : Prop :=
  x ∈ bound ∨ x ∈ env ∨ isExpressionName x = true

lemma resolveName_eq_ok (h : scope.Holds bound) {env : List String} {text x y : String} :
    resolveName scope env text x = .ok y ↔ Known bound env x ∧ y = localOf bound x := by
  have hknown : Known bound env x ↔
      x ∈ bound ∨ (env.contains x || isExpressionName x) = true := by
    simp [Known]
  unfold resolveName resolveName?
  rw [h x, hknown, localOf]
  by_cases hx : x ∈ bound
  · simp only [hx, if_true, true_or, true_and, Except.ok.injEq]
    exact eq_comm
  · simp only [hx, if_false, false_or]
    split
    · rename_i z hz
      split at hz
      · rename_i henv
        cases hz
        simp only [henv, true_and, Except.ok.injEq]
        exact eq_comm
      · cases hz
    · rename_i hnone
      split at hnone
      · cases hnone
      · rename_i henv
        exact ⟨fun h => (by cases h), fun h => absurd h.1 henv⟩

variable {env : List String} {text : String}

lemma resolveAll_eq_ok {es es' : List Expr}
    (h : ∀ e ∈ es, ∀ e', resolve scope env text e = .ok e' ↔
      (∀ x ∈ e.freeNames, Known bound env x) ∧ e' = e.rename (localOf bound)) :
    resolveAll scope env text es = .ok es' ↔
      (∀ e ∈ es, ∀ x ∈ e.freeNames, Known bound env x) ∧
        es' = Expr.renameAll (localOf bound) es := by
  induction es generalizing es' with
  | nil => simp [resolveAll, Expr.renameAll, eq_comm]
  | cons e es ih =>
      have hes := fun es' => @ih es' fun e he => h e (List.mem_cons_of_mem _ he)
      rw [resolveAll]
      simp only [result_bind_eq_ok, h e List.mem_cons_self, hes, List.forall_mem_cons]
      constructor
      · rintro ⟨_, ⟨he, rfl⟩, _, ⟨hes, rfl⟩, h⟩
        cases h
        exact ⟨⟨he, hes⟩, rfl⟩
      · rintro ⟨⟨he, hes⟩, rfl⟩
        exact ⟨_, ⟨he, rfl⟩, _, ⟨hes, rfl⟩, rfl⟩

/-- Resolving is renaming, once every name is known. -/
lemma resolve_eq_ok (hscope : scope.Holds bound) {e e' : Expr} :
    resolve scope env text e = .ok e' ↔
      (∀ x ∈ e.freeNames, Known bound env x) ∧ e' = e.rename (localOf bound) := by
  -- Each case says both when the parts are resolved and what they become, so that the two go
  -- through the induction together.
  induction e generalizing e' with
  | int n => simp [resolve, Expr.rename, Expr.freeNames, Expr.collectNames, eq_comm]
  | bytes b => simp [resolve, Expr.rename, Expr.freeNames, Expr.collectNames, eq_comm]
  | bool b => simp [resolve, Expr.rename, Expr.freeNames, Expr.collectNames, eq_comm]
  | name x =>
      rw [resolve]
      simp only [result_bind_eq_ok, resolveName_eq_ok hscope, Expr.mem_freeNames_name, Expr.rename]
      constructor
      · rintro ⟨_, ⟨hx, rfl⟩, h⟩
        cases h
        exact ⟨fun y hy => hy ▸ hx, rfl⟩
      · rintro ⟨hx, rfl⟩
        exact ⟨_, ⟨hx x rfl, rfl⟩, rfl⟩
  | binary op left right ihl ihr =>
      rw [resolve]
      simp only [result_bind_eq_ok, ihl, ihr, Expr.mem_freeNames_binary, Expr.rename]
      constructor
      · rintro ⟨_, ⟨hl, rfl⟩, _, ⟨hr, rfl⟩, h⟩
        cases h
        exact ⟨fun x hx => hx.elim (hl x) (hr x), rfl⟩
      · rintro ⟨hx, rfl⟩
        exact ⟨_, ⟨fun x h => hx x (.inl h), rfl⟩, _, ⟨fun x h => hx x (.inr h), rfl⟩, rfl⟩
  | unary op operand ih =>
      rw [resolve]
      simp only [result_bind_eq_ok, ih, Expr.mem_freeNames_unary, Expr.rename]
      constructor
      · rintro ⟨_, ⟨hx, rfl⟩, h⟩
        cases h
        exact ⟨hx, rfl⟩
      · rintro ⟨hx, rfl⟩
        exact ⟨_, ⟨hx, rfl⟩, rfl⟩
  | call function args ih =>
      rw [resolve]
      simp only [result_bind_eq_ok, resolveName_eq_ok hscope,
        resolveAll_eq_ok fun e he _ => ih e he, Expr.mem_freeNames_call, Expr.rename]
      constructor
      · rintro ⟨_, ⟨hf, rfl⟩, _, ⟨hargs, rfl⟩, h⟩
        cases h
        refine ⟨?_, rfl⟩
        rintro x (rfl | ⟨e, he, hx⟩)
        · exact hf
        · exact hargs e he x hx
      · rintro ⟨hx, rfl⟩
        exact ⟨_, ⟨hx function (.inl rfl), rfl⟩, _,
          ⟨fun e he x hxe => hx x (.inr ⟨e, he, hxe⟩), rfl⟩, rfl⟩
  | tuple items ih =>
      rw [resolve]
      simp only [result_bind_eq_ok, resolveAll_eq_ok fun e he _ => ih e he,
        Expr.mem_freeNames_tuple, Expr.rename]
      constructor
      · rintro ⟨_, ⟨hitems, rfl⟩, h⟩
        cases h
        refine ⟨?_, rfl⟩
        rintro x ⟨e, he, hx⟩
        exact hitems e he x hx
      · rintro ⟨hx, rfl⟩
        exact ⟨_, ⟨fun e he x hxe => hx x ⟨e, he, hxe⟩, rfl⟩, rfl⟩

end BitPattern.Plan
