import BitPattern.Proofs.Value.Faults

/-!
# Evaluating expressions

An expression is a tree with lists of arguments and items in it, so its induction principle hands
over one hypothesis for each member of such a list (`Expr.rec_members`).  The three facts that later
proofs need about evaluation follow by it: an evaluation depends on the names of the expression only
(`eval_congr`), renaming an expression is evaluating it under renamed names (`eval_rename`), and its
faults are faults of values or come from the names (`eval_faults`).

`or` and `and` may leave their right operand alone.  `BinOp.settles` says when, so that
`eval_binary` is one equation for all operators.
-/

namespace BitPattern

/-- Whether the left operand alone settles the value of an operator. -/
def BinOp.settles (op : BinOp) (v : Value) : Bool :=
  match op with
  | .or => v.truth
  | .and => !v.truth
  | _ => false

namespace Expr

/-- Induction over an expression and the members of its lists. -/
@[elab_as_elim, induction_eliminator]
theorem rec_members {motive : Expr → Prop} (int : ∀ n, motive (.int n))
    (bytes : ∀ b, motive (.bytes b)) (bool : ∀ b, motive (.bool b))
    (name : ∀ x, motive (.name x))
    (binary : ∀ op left right, motive left → motive right → motive (.binary op left right))
    (unary : ∀ op operand, motive operand → motive (.unary op operand))
    (call : ∀ function args, (∀ e ∈ args, motive e) → motive (.call function args))
    (tuple : ∀ items, (∀ e ∈ items, motive e) → motive (.tuple items)) (e : Expr) :
    motive e :=
  @Expr.rec motive (fun es => ∀ e ∈ es, motive e) int bytes bool name binary unary call tuple
    (by simp) (fun _ _ he hes => List.forall_mem_cons.mpr ⟨he, hes⟩) e

/-! ## Names -/

lemma mem_insertName {names : List String} {x y : String} :
    x ∈ insertName names y ↔ x ∈ names ∨ x = y := by
  unfold insertName
  split
  · rename_i h
    have hy : y ∈ names := by simpa using h
    constructor
    · exact Or.inl
    · rintro (h | rfl)
      · exact h
      · exact hy
  · simp

/-- The names collected from several expressions, if it is known for each of them what it adds. -/
lemma mem_collectAll {es : List Expr} {found : List String} {x : String}
    (h : ∀ e ∈ es, ∀ found, x ∈ collectNames found e ↔ x ∈ found ∨ x ∈ freeNames e) :
    x ∈ collectAll found es ↔ x ∈ found ∨ ∃ e ∈ es, x ∈ freeNames e := by
  induction es generalizing found with
  | nil => simp [collectAll]
  | cons e es ih =>
      rw [collectAll, ih fun e he => h e (List.mem_cons_of_mem _ he),
        h e List.mem_cons_self]
      simp only [List.mem_cons, exists_eq_or_imp, or_assoc]

/-- What an expression adds to the names already found are its own names. -/
lemma mem_collectNames {e : Expr} {found : List String} {x : String} :
    x ∈ collectNames found e ↔ x ∈ found ∨ x ∈ freeNames e := by
  induction e generalizing found with
  | int n => simp [collectNames, freeNames]
  | bytes b => simp [collectNames, freeNames]
  | bool b => simp [collectNames, freeNames]
  | name y => simp [collectNames, freeNames, mem_insertName]
  | binary op left right ihl ihr =>
      rw [freeNames, collectNames, collectNames, ihr, ihr, ihl, ihl]
      simp [or_assoc]
  | unary op operand ih =>
      rw [freeNames, collectNames, collectNames, ih]
      rfl
  | call function args ih =>
      have h : ∀ e ∈ args, ∀ found, x ∈ collectNames found e ↔ x ∈ found ∨ x ∈ freeNames e :=
        fun e he found => ih e he
      rw [freeNames, collectNames, collectNames, mem_collectAll h, mem_collectAll h,
        mem_insertName, mem_insertName]
      simp [or_assoc]
  | tuple items ih =>
      have h : ∀ e ∈ items, ∀ found, x ∈ collectNames found e ↔ x ∈ found ∨ x ∈ freeNames e :=
        fun e he found => ih e he
      rw [freeNames, collectNames, collectNames, mem_collectAll h, mem_collectAll h]
      simp

@[simp] lemma mem_freeNames_name {x y : String} : x ∈ (name y).freeNames ↔ x = y := by
  simp [freeNames, collectNames, mem_insertName]

@[simp] lemma mem_freeNames_binary {op : BinOp} {left right : Expr} {x : String} :
    x ∈ (binary op left right).freeNames ↔ x ∈ left.freeNames ∨ x ∈ right.freeNames := by
  rw [freeNames, collectNames, mem_collectNames]
  rfl

@[simp] lemma mem_freeNames_unary {op : UnOp} {operand : Expr} {x : String} :
    x ∈ (unary op operand).freeNames ↔ x ∈ operand.freeNames := Iff.rfl

@[simp] lemma mem_freeNames_call {function : String} {args : List Expr} {x : String} :
    x ∈ (call function args).freeNames ↔ x = function ∨ ∃ e ∈ args, x ∈ e.freeNames := by
  rw [freeNames, collectNames, mem_collectAll fun _ _ _ => mem_collectNames, mem_insertName]
  simp

@[simp] lemma mem_freeNames_tuple {items : List Expr} {x : String} :
    x ∈ (tuple items).freeNames ↔ ∃ e ∈ items, x ∈ e.freeNames := by
  rw [freeNames, collectNames, mem_collectAll fun _ _ _ => mem_collectNames]
  simp

/-! ## Equations -/

variable {lookup : String → Except Fault Value}

lemma eval_binary (op : BinOp) (left right : Expr) :
    (binary op left right).eval lookup = (left.eval lookup >>= fun v =>
      if op.settles v then pure v
      else right.eval lookup >>= fun w => Run.ofExcept (op.apply v w)) := by
  have hor : ∀ v : Value, (if v.truth then pure v else right.eval lookup) =
      if BinOp.or.settles v then pure v
      else right.eval lookup >>= fun w => Run.ofExcept (BinOp.or.apply v w) := by
    intro v
    cases h : v.truth <;> simp [BinOp.settles, BinOp.apply, h]
  have hand : ∀ v : Value, (if v.truth then right.eval lookup else pure v) =
      if BinOp.and.settles v then pure v
      else right.eval lookup >>= fun w => Run.ofExcept (BinOp.and.apply v w) := by
    intro v
    cases h : v.truth <;> simp [BinOp.settles, BinOp.apply, h]
  cases op with
  | or => rw [eval]; exact congrArg _ (funext hor)
  | and => rw [eval]; exact congrArg _ (funext hand)
  | _ => rfl

lemma eval_unary (op : UnOp) (operand : Expr) :
    (unary op operand).eval lookup =
      (operand.eval lookup >>= fun v => Run.ofExcept (op.apply v)) := rfl

lemma eval_call (function : String) (args : List Expr) :
    (call function args).eval lookup = (Run.ofExcept (lookup function) >>= fun f =>
      evalAll lookup args >>= fun vs => f.apply vs) := rfl

lemma eval_tuple (items : List Expr) :
    (tuple items).eval lookup = (evalAll lookup items >>= fun vs => pure (.tuple vs)) := rfl

lemma evalAll_cons (e : Expr) (es : List Expr) :
    evalAll lookup (e :: es) =
      (e.eval lookup >>= fun v => evalAll lookup es >>= fun vs => pure (v :: vs)) := rfl

lemma evalAll_names {names : List String} {vs : List Value}
    (h : List.Forall₂ (fun x v => lookup x = .ok v) names vs) :
    evalAll lookup (names.map name) = pure vs := by
  induction h with
  | nil => rfl
  | @cons x v names vs hx _ ih =>
      have hname : (name x).eval lookup = pure v := congrArg Run.ofExcept hx
      rw [List.map_cons, evalAll_cons, hname, Run.pure_bind, ih, Run.pure_bind]

/-! ## Congruence and renaming -/

lemma evalAll_congr {lookup' : String → Except Fault Value} {es : List Expr}
    (h : ∀ e ∈ es, e.eval lookup = e.eval lookup') : evalAll lookup es = evalAll lookup' es := by
  induction es with
  | nil => rfl
  | cons e es ih =>
      rw [evalAll_cons, evalAll_cons, h e List.mem_cons_self,
        ih fun e he => h e (List.mem_cons_of_mem _ he)]

/-- An evaluation depends only on what the names of the expression stand for. -/
lemma eval_congr {lookup' : String → Except Fault Value} {e : Expr}
    (h : ∀ x ∈ e.freeNames, lookup x = lookup' x) : e.eval lookup = e.eval lookup' := by
  induction e with
  | int n => rfl
  | bytes b => rfl
  | bool b => rfl
  | name x => exact congrArg Run.ofExcept (h x (by simp))
  | binary op left right ihl ihr =>
      rw [eval_binary, eval_binary, ihl fun x hx => h x (by simp [hx]),
        ihr fun x hx => h x (by simp [hx])]
  | unary op operand ih => rw [eval_unary, eval_unary, ih fun x hx => h x (by simpa using hx)]
  | call function args ih =>
      rw [eval_call, eval_call, h function (by simp),
        evalAll_congr fun e he => ih e he fun x hx => h x (by simp; exact Or.inr ⟨e, he, hx⟩)]
  | tuple items ih =>
      rw [eval_tuple, eval_tuple,
        evalAll_congr fun e he => ih e he fun x hx => h x (by simp; exact ⟨e, he, hx⟩)]

mutual

/-- An expression with every name replaced. -/
def rename (f : String → String) : Expr → Expr
  | int n => .int n
  | bytes b => .bytes b
  | bool b => .bool b
  | name x => .name (f x)
  | binary op left right => .binary op (rename f left) (rename f right)
  | unary op operand => .unary op (rename f operand)
  | call function args => .call (f function) (renameAll f args)
  | tuple items => .tuple (renameAll f items)

/-- Several expressions with every name replaced. -/
def renameAll (f : String → String) : List Expr → List Expr
  | [] => []
  | e :: rest => rename f e :: renameAll f rest

end

lemma renameAll_eq_map (f : String → String) (es : List Expr) :
    renameAll f es = es.map (rename f) := by
  induction es with
  | nil => rfl
  | cons e es ih => rw [renameAll, ih, List.map_cons]

/-- Renaming every name to itself changes nothing. -/
lemma rename_eq_self {f : String → String} (h : ∀ x, f x = x) (e : Expr) : e.rename f = e := by
  have hall : ∀ es : List Expr, (∀ e ∈ es, e.rename f = e) → renameAll f es = es := by
    intro es hes
    rw [renameAll_eq_map]
    exact List.map_congr_left hes |>.trans (List.map_id es)
  induction e with
  | int n => rfl
  | bytes b => rfl
  | bool b => rfl
  | name x => rw [rename, h]
  | binary op left right ihl ihr => rw [rename, ihl, ihr]
  | unary op operand ih => rw [rename, ih]
  | call function args ih => rw [rename, h, hall args ih]
  | tuple items ih => rw [rename, hall items ih]

/-- The names of a renamed expression are those of the expression, renamed. -/
lemma mem_freeNames_rename {f : String → String} {e : Expr} {y : String} :
    y ∈ (e.rename f).freeNames ↔ ∃ x ∈ e.freeNames, f x = y := by
  induction e with
  | int n => simp [rename, freeNames, collectNames]
  | bytes b => simp [rename, freeNames, collectNames]
  | bool b => simp [rename, freeNames, collectNames]
  | name x => simp [rename, eq_comm]
  | binary op left right ihl ihr =>
      simp only [rename, mem_freeNames_binary, ihl, ihr]
      constructor
      · rintro (⟨x, hx, rfl⟩ | ⟨x, hx, rfl⟩)
        · exact ⟨x, .inl hx, rfl⟩
        · exact ⟨x, .inr hx, rfl⟩
      · rintro ⟨x, hx | hx, rfl⟩
        · exact .inl ⟨x, hx, rfl⟩
        · exact .inr ⟨x, hx, rfl⟩
  | unary op operand ih => simp only [rename, mem_freeNames_unary, ih]
  | call function args ih =>
      simp only [rename, mem_freeNames_call, renameAll_eq_map, List.mem_map]
      constructor
      · rintro (rfl | ⟨_, ⟨e, he, rfl⟩, hy⟩)
        · exact ⟨function, .inl rfl, rfl⟩
        · obtain ⟨x, hx, rfl⟩ := (ih e he).mp hy
          exact ⟨x, .inr ⟨e, he, hx⟩, rfl⟩
      · rintro ⟨x, rfl | ⟨e, he, hx⟩, rfl⟩
        · exact .inl rfl
        · exact .inr ⟨_, ⟨e, he, rfl⟩, (ih e he).mpr ⟨x, hx, rfl⟩⟩
  | tuple items ih =>
      simp only [rename, mem_freeNames_tuple, renameAll_eq_map, List.mem_map]
      constructor
      · rintro ⟨_, ⟨e, he, rfl⟩, hy⟩
        obtain ⟨x, hx, rfl⟩ := (ih e he).mp hy
        exact ⟨x, ⟨e, he, hx⟩, rfl⟩
      · rintro ⟨x, ⟨e, he, hx⟩, rfl⟩
        exact ⟨_, ⟨e, he, rfl⟩, (ih e he).mpr ⟨x, hx, rfl⟩⟩

lemma evalAll_renameAll {f : String → String} {es : List Expr}
    (h : ∀ e ∈ es, (e.rename f).eval lookup = e.eval (lookup ∘ f)) :
    evalAll lookup (renameAll f es) = evalAll (lookup ∘ f) es := by
  induction es with
  | nil => rfl
  | cons e es ih =>
      rw [renameAll, evalAll_cons, evalAll_cons, h e List.mem_cons_self,
        ih fun e he => h e (List.mem_cons_of_mem _ he)]

/-- A renamed expression has the value that the expression has under renamed names. -/
lemma eval_rename (f : String → String) (e : Expr) :
    (e.rename f).eval lookup = e.eval (lookup ∘ f) := by
  induction e with
  | int n => rfl
  | bytes b => rfl
  | bool b => rfl
  | name x => rfl
  | binary op left right ihl ihr => rw [rename, eval_binary, eval_binary, ihl, ihr]
  | unary op operand ih => rw [rename, eval_unary, eval_unary, ih]
  | call function args ih => rw [rename, eval_call, eval_call, evalAll_renameAll ih]; rfl
  | tuple items ih => rw [rename, eval_tuple, eval_tuple, evalAll_renameAll ih]

/-! ## Faults -/

lemma evalAll_faults {P : Fault → Prop} {es : List Expr}
    (h : ∀ e ∈ es, (e.eval lookup).Faults P) : (evalAll lookup es).Faults P := by
  induction es with
  | nil => exact Run.Faults.pure _
  | cons e es ih =>
      rw [evalAll_cons]
      exact .bind (h e List.mem_cons_self) fun _ _ =>
        .bind (ih fun e he => h e (List.mem_cons_of_mem _ he)) fun _ _ => .pure _

/-- The faults of an evaluation are faults of values, or come from the names of the expression. -/
lemma eval_faults {P : Fault → Prop} (hvalues : ∀ f : Fault, f.ofValues → P f) {e : Expr}
    (h : ∀ x ∈ e.freeNames, ∀ f, lookup x = .error f → P f) : (e.eval lookup).Faults P := by
  induction e with
  | int n => exact .pure _
  | bytes b => exact .pure _
  | bool b => exact .pure _
  | name x => exact h x (by simp)
  | binary op left right ihl ihr =>
      rw [eval_binary]
      refine .bind (ihl fun x hx => h x (by simp [hx])) fun v _ => ?_
      -- An operand that settles the value is all that is evaluated.
      split
      · exact .pure v
      · exact .bind (ihr fun x hx => h x (by simp [hx])) fun w _ =>
          fun f hf => hvalues f (op.apply_ofValues v w f hf)
  | unary op operand ih =>
      rw [eval_unary]
      exact .bind (ih fun x hx => h x (by simpa using hx)) fun v _ =>
        fun f hf => hvalues f (op.apply_ofValues v f hf)
  | call function args ih =>
      rw [eval_call]
      refine .bind (fun f hf => h function (by simp) f hf) fun g _ => ?_
      refine .bind (evalAll_faults fun e he => ih e he fun x hx => ?_) fun vs _ => ?_
      · exact h x (by simp; exact Or.inr ⟨e, he, hx⟩)
      · exact (g.apply_faults vs).mono hvalues
  | tuple items ih =>
      rw [eval_tuple]
      refine .bind (evalAll_faults fun e he => ih e he fun x hx => ?_) fun _ _ => .pure _
      exact h x (by simp; exact ⟨e, he, hx⟩)

end Expr

end BitPattern
