import BitPattern.Proofs.Grammar.Image
import BitPattern.Proofs.Grammar.Quoted
import BitPattern.Proofs.Text.Name
import BitPattern.Proofs.Text.SExpr
import BitPattern.Render.Tree

/-!
# Trees of expressions read back

The tree of an expression is a number, a string, a symbol, or a list with a symbol at its head: the
spelling of an operator, the name of a function, or `tuple`.  Spellings of operators and truth
values are no names of functions or variables, so the head and the number of parts show an
expression that has parts (`head_inj`), and the atom shows one that has none (`leaf_tree_inj`).

Only the head `tuple` stands for two things, a tuple and a call of a function of that name.
`withTuples` turns the one into the other without a change to the tree, and what it gives is shown
by its tree (`tree_inj`).  The symbols of a tree are plain (`legible_tree`), so the written tree
shows the same (`render_tree_eq_iff`).
-/

namespace BitPattern

open Text Grammar

namespace Grammar

/-! ## Names -/

variable {x : String}

lemma IsName.spec (h : IsName x) : x.toList ≠ [] ∧ (∀ c ∈ x.toList, isWordChar c = true) ∧
    (∀ c ∈ x.toList.head?, c.isDigit = false) ∧ x ∉ keywords := by
  obtain ⟨hname, hrest⟩ := wordOf_eq_some.mp h
  rw [takeWord_eq] at hname hrest
  have hwords := List.dropWhile_eq_nil_iff.mp hrest
  rw [List.takeWhile_eq_self_iff.mpr hwords] at hname
  unfold nameOf? at hname
  split at hname
  · cases hname
  · rename_i c rest hx
    change x.toList = c :: rest at hx
    obtain ⟨hkeyword, hname⟩ := Option.ite_none_left_eq_some.mp hname
    rw [Option.some.inj hname, Bool.or_eq_true, not_or, List.contains_iff_mem] at hkeyword
    rw [hx] at hwords ⊢
    refine ⟨List.cons_ne_nil _ _, hwords, ?_, hkeyword.2⟩
    rintro d ⟨⟩
    exact Bool.eq_false_iff.mpr hkeyword.1

/-- A name is a plain symbol. -/
lemma IsName.plain (h : IsName x) : SExpr.Plain x := by
  obtain ⟨hne, hwords, hdigit, -⟩ := h.spec
  have hspecials : SExpr.symbolSpecials.all fun d => !isWordChar d := by decide
  refine ⟨hne, fun c hc => ?_, ?_⟩
  · by_contra hspecial
    have hmem : c ∈ SExpr.symbolSpecials := by simpa [SExpr.isAtomChar] using hspecial
    have hword := List.all_eq_true.mp hspecials c hmem
    simp [hwords c hc] at hword
  · rintro n rfl
    obtain ⟨c, rest, hx⟩ := List.exists_cons_of_ne_nil hne
    have hc : c ∈ (decimal n).toList := hx ▸ List.mem_cons_self
    rcases isDigit_of_mem_decimal hc with hc' | rfl
    · rw [hdigit c (by rw [hx]; rfl)] at hc'
      cases hc'
    · exact absurd (hwords _ hc) (by decide)

/-- No operator is spelled like a name, and neither is a truth value. -/
lemma IsName.ne_reserved (h : IsName x) : (∀ op : BinOp, x ≠ op.spelling) ∧
    (∀ op : UnOp, x ≠ op.spelling) ∧ x ≠ "true" ∧ x ≠ "false" := by
  obtain ⟨-, hwords, -, hkeyword⟩ := h.spec
  have hne {s : String} (hs : s ∈ keywords ∨ s.toList.all isWordChar = false) : x ≠ s := by
    rintro rfl
    rcases hs with hs | hs
    · exact hkeyword hs
    · rw [List.all_eq_true.mpr hwords] at hs
      cases hs
  refine ⟨fun op => hne ?_, fun op => hne ?_, hne (by decide), hne (by decide)⟩
  · cases op <;> decide
  · cases op <;> decide

end Grammar

namespace Expr

/-! ## Calls of `tuple` -/

mutual

/-- An expression with the calls of a function named `tuple` as tuples. -/
def withTuples : Expr → Expr
  | int n => int n
  | bytes b => bytes b
  | bool b => bool b
  | name x => name x
  | binary op left right => binary op left.withTuples right.withTuples
  | unary op operand => unary op operand.withTuples
  | call function args =>
    if function = "tuple" then tuple (withTuplesAll args) else call function (withTuplesAll args)
  | tuple items => tuple (withTuplesAll items)

/-- Several expressions with the calls of a function named `tuple` as tuples. -/
def withTuplesAll : List Expr → List Expr
  | [] => []
  | e :: rest => e.withTuples :: withTuplesAll rest

end

lemma withTuplesAll_eq_map (es : List Expr) : withTuplesAll es = es.map withTuples := by
  induction es with
  | nil => rfl
  | cons e es ih => rw [withTuplesAll, ih, List.map_cons]

lemma treesOf_eq_map (es : List Expr) : treesOf es = es.map tree := by
  induction es with
  | nil => rfl
  | cons e es ih => rw [treesOf, ih, List.map_cons]

/-- A call of `tuple` has the tree of a tuple. -/
lemma tree_withTuples (e : Expr) : e.withTuples.tree = e.tree := by
  have hall {es : List Expr} (ih : ∀ e ∈ es, e.withTuples.tree = e.tree) :
      treesOf (withTuplesAll es) = treesOf es := by
    rw [treesOf_eq_map, treesOf_eq_map, withTuplesAll_eq_map, List.map_map]
    exact List.map_congr_left ih
  induction e with
  | int | bytes | bool | name => rfl
  | binary op left right ihl ihr => rw [withTuples, tree, tree, ihl, ihr]
  | unary op operand ih => rw [withTuples, tree, tree, ih]
  | call function args ih =>
      rw [withTuples]
      split
      · rename_i hfunction
        rw [tree, tree, hall ih, hfunction]
      · rw [tree, tree, hall ih]
  | tuple items ih => rw [withTuples, tree, tree, hall ih]

/-! ## Trees of written expressions -/

/-- What is left of a written expression when calls of `tuple` are tuples: names are identifiers,
and no call is one of `tuple`. -/
def Untied : Expr → Prop
  | name x => IsName x
  | call function _ => IsName function ∧ function ≠ "tuple"
  | _ => True

lemma untied_withTuples {e : Expr} (h : e.Everywhere Written) :
    e.withTuples.Everywhere Untied := by
  have hall {es : List Expr} (ih : ∀ e ∈ es, e.Everywhere Written → e.withTuples.Everywhere Untied)
      (hes : ∀ e ∈ es, e.Everywhere Written) : ∀ e ∈ withTuplesAll es, e.Everywhere Untied := by
    rw [withTuplesAll_eq_map, List.forall_mem_map]
    exact fun e he => ih e he (hes e he)
  induction e with
  | int | bytes | bool => exact (everywhere_leaf rfl).mpr trivial
  | name x => exact everywhere_name.mpr h.self
  | binary op left right ihl ihr =>
      obtain ⟨-, hl, hr⟩ := everywhere_binary.mp h
      exact everywhere_binary.mpr ⟨trivial, ihl hl, ihr hr⟩
  | unary op operand ih =>
      obtain ⟨-, hoperand⟩ := everywhere_unary.mp h
      exact everywhere_unary.mpr ⟨trivial, ih hoperand⟩
  | call function args ih =>
      obtain ⟨hfunction, hargs⟩ := everywhere_call.mp h
      rw [withTuples]
      -- The one call that does not stay a call.
      by_cases htuple : function = "tuple"
      · rw [if_pos htuple]
        exact everywhere_tuple.mpr ⟨trivial, hall ih hargs⟩
      · rw [if_neg htuple]
        exact everywhere_call.mpr ⟨⟨hfunction, htuple⟩, hall ih hargs⟩
  | tuple items ih =>
      obtain ⟨-, hitems⟩ := everywhere_tuple.mp h
      exact everywhere_tuple.mpr ⟨trivial, hall ih hitems⟩

/-! ## Heads -/

/-- The symbol at the head of the tree of an expression, if the tree is a list. -/
def head? : Expr → Option String
  | int _ | bytes _ | bool _ | name _ => none
  | binary op _ _ => some op.spelling
  | unary op _ => some op.spelling
  | call function _ => some function
  | tuple _ => some "tuple"

lemma tree_of_head {e : Expr} {head : String} (h : e.head? = some head) :
    e.tree = .list (.symbol head :: e.members.map tree) := by
  cases e <;> cases h <;> simp [tree, SExpr.node, members, treesOf_eq_map]

/-- An expression without head is a constant or a name, and its tree is no list. -/
lemma tree_ne_list {e : Expr} (h : e.head? = none) (items : List SExpr) : e.tree ≠ .list items := by
  cases e with
  | int | bytes | bool | name => simp [tree]
  | binary | unary | call | tuple => cases h

lemma legible_tree {e : Expr} (h : e.Everywhere Untied) : e.tree.Legible := by
  have hplain {s : String} (hs : (s.toList.all fun c => SExpr.isAtomChar c && !c.isDigit) &&
      !s.toList.isEmpty) : SExpr.Plain s := by
    rw [Bool.and_eq_true, Bool.not_eq_true', List.isEmpty_eq_false_iff] at hs
    exact SExpr.plain_of_no_digit hs.2 hs.1
  induction h with
  | @intro e h hmembers ih =>
      have hnode {head : String} (hhead : e.head? = some head) (hs : SExpr.Plain head) :
          e.tree.Legible := by
        rw [tree_of_head hhead]
        refine .list (List.forall_mem_cons.mpr ⟨.symbol hs, ?_⟩)
        exact List.forall_mem_map.mpr ih
      cases e with
      | int n => exact .int n
      | bytes b => exact .string _
      | bool b => cases b <;> exact .symbol (hplain (by decide))
      | name x => exact .symbol h.plain
      | binary op left right => exact hnode rfl (hplain (by cases op <;> decide))
      | unary op operand => exact hnode rfl (hplain (by cases op <;> decide))
      | call function args => exact hnode rfl h.1.plain
      | tuple items => exact hnode rfl (hplain (by decide))

/-! ## Trees tell expressions apart -/

lemma leaf_tree_inj {e e' : Expr} (he : Untied e) (he' : Untied e') (hhead : e.head? = none)
    (hhead' : e'.head? = none) (h : e.tree = e'.tree) : e = e' := by
  have hbool {x : String} (hx : IsName x) (b : Bool) : x ≠ if b then "true" else "false" := by
    obtain ⟨-, -, htrue, hfalse⟩ := hx.ne_reserved
    cases b
    · exact hfalse
    · exact htrue
  have htruth : ∀ b b' : Bool,
      (if b then "true" else "false") = (if b' then "true" else "false") → b = b' := by
    decide
  -- Truth values and names are both symbols, and no name is spelled like a truth value.
  cases e with
  | int n =>
      cases e' <;> cases h
      rfl
  | bytes b =>
      cases e' with
      | bytes b' => rw [latin_injective (SExpr.string.inj h)]
      | int | bool | name => cases h
      | binary | unary | call | tuple => cases hhead'
  | bool b =>
      cases e' with
      | bool b' => rw [htruth b b' (SExpr.symbol.inj h)]
      | name x => exact absurd (SExpr.symbol.inj h).symm (hbool he' b)
      | int | bytes => cases h
      | binary | unary | call | tuple => cases hhead'
  | name x =>
      cases e' with
      | bool b => exact absurd (SExpr.symbol.inj h) (hbool he b)
      | name y => rw [SExpr.symbol.inj h]
      | int | bytes => cases h
      | binary | unary | call | tuple => cases hhead'
  | binary | unary | call | tuple => cases hhead

/-- No operator is spelled like a function, or like the head of a tuple. -/
lemma head_ne {x : String} (h : IsName x ∨ x = "tuple") :
    (∀ op : BinOp, op.spelling ≠ x) ∧ ∀ op : UnOp, op.spelling ≠ x := by
  rcases h with h | rfl
  · obtain ⟨hbinary, hunary, -⟩ := h.ne_reserved
    exact ⟨fun op => (hbinary op).symm, fun op => (hunary op).symm⟩
  · constructor <;> (intro op; cases op <;> decide)

/-- An operator, a function or a tuple shows by the symbol at its head and the number of its
parts. -/
lemma head_inj {e e' : Expr} (he : Untied e) (he' : Untied e') (hhead : e.head? = e'.head?)
    (hsome : e.head?.isSome = true) (h : e.members = e'.members) : e = e' := by
  have hspelling {op op' : BinOp} (heq : op.spelling = op'.spelling) : op = op' := by
    cases op <;> cases op' <;> first | rfl | (revert heq; decide)
  have hspelling' {op op' : UnOp} (heq : op.spelling = op'.spelling) : op = op' := by
    cases op <;> cases op' <;> first | rfl | (revert heq; decide)
  -- The parts tell a sign from an operator; a function or a tuple has a head that is no spelling.
  cases e with
  | int | bytes | bool | name => cases hsome
  | binary op l r =>
      cases e' with
      | binary op' l' r' =>
          rw [hspelling (Option.some.inj hhead)]
          cases h
          rfl
      | call function args => exact absurd (Option.some.inj hhead) ((head_ne (.inl he'.1)).1 op)
      | tuple items => exact absurd (Option.some.inj hhead) ((head_ne (.inr rfl)).1 op)
      | unary => cases h
      | int | bytes | bool | name => cases hhead
  | unary op operand =>
      cases e' with
      | unary op' operand' =>
          rw [hspelling' (Option.some.inj hhead)]
          cases h
          rfl
      | call function args => exact absurd (Option.some.inj hhead) ((head_ne (.inl he'.1)).2 op)
      | tuple items => exact absurd (Option.some.inj hhead) ((head_ne (.inr rfl)).2 op)
      | binary => cases h
      | int | bytes | bool | name => cases hhead
  | call function args =>
      cases e' with
      | call function' args' =>
          rw [Option.some.inj hhead]
          exact congrArg _ h
      | tuple items => exact absurd (Option.some.inj hhead) he.2
      | binary op l r => exact absurd (Option.some.inj hhead).symm ((head_ne (.inl he.1)).1 op)
      | unary op operand => exact absurd (Option.some.inj hhead).symm ((head_ne (.inl he.1)).2 op)
      | int | bytes | bool | name => cases hhead
  | tuple items =>
      cases e' with
      | tuple items' => exact congrArg _ h
      | call function args => exact absurd (Option.some.inj hhead).symm he'.2
      | binary op l r => exact absurd (Option.some.inj hhead).symm ((head_ne (.inr rfl)).1 op)
      | unary op operand => exact absurd (Option.some.inj hhead).symm ((head_ne (.inr rfl)).2 op)
      | int | bytes | bool | name => cases hhead

/-- Lists whose members are told apart by a function are told apart by their images. -/
lemma map_inj_of_mem {α β : Type} {f : α → β} {xs ys : List α}
    (h : ∀ x ∈ xs, ∀ y ∈ ys, f x = f y → x = y) (heq : xs.map f = ys.map f) : xs = ys := by
  induction xs generalizing ys with
  | nil => exact (List.map_eq_nil_iff.mp heq.symm).symm
  | cons x xs ih =>
      cases ys with
      | nil => cases heq
      | cons y ys =>
          obtain ⟨hxy, heq⟩ := List.cons.inj heq
          rw [h x List.mem_cons_self y List.mem_cons_self hxy,
            ih (fun x hx y hy => h x (.tail _ hx) y (.tail _ hy)) heq]

/-- Trees tell expressions apart, unless a call of `tuple` is among them. -/
theorem tree_inj {e e' : Expr} (he : e.Everywhere Untied) (he' : e'.Everywhere Untied)
    (h : e.tree = e'.tree) : e = e' := by
  induction he generalizing e' with
  | @intro e hself hmembers ih =>
      cases hhead : e.head? with
      | none =>
          cases hhead' : e'.head? with
          | none => exact leaf_tree_inj hself he'.self hhead hhead' h
          | some head' => exact absurd (h.trans (tree_of_head hhead')) (tree_ne_list hhead _)
      | some head =>
          rw [tree_of_head hhead] at h
          cases hhead' : e'.head? with
          | none => exact absurd h.symm (tree_ne_list hhead' _)
          | some head' =>
              rw [tree_of_head hhead', SExpr.list.injEq, List.cons.injEq, SExpr.symbol.injEq] at h
              obtain ⟨rfl, h⟩ := h
              refine head_inj hself he'.self (hhead.trans hhead'.symm) (by simp [hhead]) ?_
              exact map_inj_of_mem (fun x hx y hy => ih x hx (he'.member hy)) h

/-- **Trees of expressions.**  The written trees of two expressions are the same exactly if the
expressions are, once the calls of a function named `tuple` in them are tuples. -/
theorem render_tree_eq_iff {text text' : String} {e e' : Expr} (h : Expr.parse text = .ok e)
    (h' : Expr.parse text' = .ok e') :
    e.tree.render = e'.tree.render ↔ e.withTuples = e'.withTuples := by
  have huntied {text : String} {e : Expr} (h : Expr.parse text = .ok e) :
      e.withTuples.Everywhere Untied :=
    untied_withTuples (expr_gives (Expr.parse_eq_ok.mp h) e rfl)
  rw [← tree_withTuples e, ← tree_withTuples e']
  constructor
  · intro heq
    have htree := SExpr.render_inj (legible_tree (huntied h)) (legible_tree (huntied h')) heq
    exact tree_inj (huntied h) (huntied h') htree
  · exact congrArg fun e : Expr => e.tree.render

/-- The tuple without items, and a call of `tuple` without arguments. -/
theorem render_tree_eq_iff_empty :
    ∃ e e', Expr.parse "()" = .ok e ∧ Expr.parse "tuple()" = .ok e' ∧
      e.tree.render = e'.tree.render := by
  have h : Expr.parse "()" = .ok (.tuple []) := by decide +kernel
  have h' : Expr.parse "tuple()" = .ok (.call "tuple" []) := by decide +kernel
  exact ⟨_, _, h, h', (render_tree_eq_iff h h').mpr rfl⟩

/-- A tuple of one item has the written tree of a call of `tuple`. -/
theorem render_tree_of_call :
    Expr.parse "(x,)" = .ok (.tuple [.name "x"]) ∧
      Expr.parse "tuple(x)" = .ok (.call "tuple" [.name "x"]) ∧
      (Expr.tuple [.name "x"]).tree.render = (Expr.call "tuple" [.name "x"]).tree.render ∧
      Expr.tuple [.name "x"] ≠ Expr.call "tuple" [.name "x"] := by
  refine ⟨by decide +kernel, by decide +kernel, rfl, ?_⟩
  intro h
  cases h

end Expr

end BitPattern
