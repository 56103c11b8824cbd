import BitPattern.Proofs.Expr.Eval

/-!
# Parts of expressions

`Expr.members` are the expressions that an expression is made of, and `Everywhere P` says that an
expression and all its parts, at any depth, have the property `P`.
-/

namespace BitPattern.Expr

variable {P Q : Expr → Prop} {e f : Expr}

/-- The operands, arguments or items of an expression. -/
def members : Expr → List Expr
  | int _ | bytes _ | bool _ | name _ => []
  | binary _ left right => [left, right]
  | unary _ operand => [operand]
  | call _ args => args
  | tuple items => items

/-- An expression has a property, and so do all its parts. -/
inductive Everywhere (P : Expr → Prop) : Expr → Prop where
  | intro {e : Expr} (h : P e) (hmembers : ∀ f ∈ e.members, Everywhere P f) : Everywhere P e

namespace Everywhere

lemma self (h : Everywhere P e) : P e := by
  obtain ⟨h, -⟩ := h
  exact h

lemma member (h : Everywhere P e) (hf : f ∈ e.members) : Everywhere P f := by
  obtain ⟨-, h⟩ := h
  exact h f hf

lemma iff_forall : Everywhere P e ↔ P e ∧ ∀ f ∈ e.members, Everywhere P f :=
  ⟨fun h => ⟨h.self, fun _ => h.member⟩, fun h => ⟨h.1, h.2⟩⟩

lemma and (h : Everywhere P e) (h' : Everywhere Q e) : Everywhere (fun e => P e ∧ Q e) e := by
  induction h with
  | intro h hmembers ih => exact .intro ⟨h, h'.self⟩ fun f hf => ih f hf (h'.member hf)

end Everywhere

lemma everywhere_leaf (h : e.members = []) : Everywhere P e ↔ P e := by
  rw [Everywhere.iff_forall, h]
  exact and_iff_left fun f hf => absurd hf List.not_mem_nil

@[simp]
lemma everywhere_int {n : Int} : Everywhere P (int n) ↔ P (int n) :=
  everywhere_leaf rfl

@[simp]
lemma everywhere_bytes {b : List UInt8} : Everywhere P (bytes b) ↔ P (bytes b) :=
  everywhere_leaf rfl

@[simp]
lemma everywhere_bool {b : Bool} : Everywhere P (bool b) ↔ P (bool b) :=
  everywhere_leaf rfl

@[simp]
lemma everywhere_name {x : String} : Everywhere P (name x) ↔ P (name x) :=
  everywhere_leaf rfl

@[simp]
lemma everywhere_binary {op : BinOp} {l r : Expr} :
    Everywhere P (binary op l r) ↔ P (binary op l r) ∧ Everywhere P l ∧ Everywhere P r := by
  rw [Everywhere.iff_forall, members, List.forall_mem_cons, List.forall_mem_singleton]

@[simp]
lemma everywhere_unary {o : UnOp} {f : Expr} :
    Everywhere P (unary o f) ↔ P (unary o f) ∧ Everywhere P f :=
  Everywhere.iff_forall.trans (and_congr_right fun _ => List.forall_mem_singleton)

@[simp]
lemma everywhere_call {function : String} {args : List Expr} :
    Everywhere P (call function args) ↔ P (call function args) ∧ ∀ f ∈ args, Everywhere P f :=
  Everywhere.iff_forall

@[simp]
lemma everywhere_tuple {items : List Expr} :
    Everywhere P (tuple items) ↔ P (tuple items) ∧ ∀ f ∈ items, Everywhere P f :=
  Everywhere.iff_forall

end BitPattern.Expr
