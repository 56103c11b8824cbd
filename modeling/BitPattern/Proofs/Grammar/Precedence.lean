import BitPattern.Proofs.Grammar.Operator

/-!
# Precedence

An expression with several operators and no parentheses around them is the tree that the rule of
precedence makes of it.  `Groups` is that rule: the operator at the root is a loosest one, the last
of its level, and what stands on either side is grouped by the same rule.  A comparison at the root
has no other comparison beside it, so that there is no tree where two comparisons meet.  There never
are two trees (`Groups.unique`), and there is none unless every run of operators between
conjunctions and disjunctions has one comparison at most (`Groups.oneComparison`).
-/

namespace BitPattern

open Grammar

/-! ## Operators -/

/-- The level of an operator. -/
def BinOp.level : BinOp → Grammar.Level
  | or => .or
  | and => .and
  | eq | ne | lt | le | gt | ge => .comparison
  | bitOr => .bitOr
  | bitXor => .bitXor
  | bitAnd => .bitAnd
  | shiftLeft | logicalShiftRight | shiftRight => .shift
  | add | sub => .sum
  | mul | div | mod => .product

/-- How tight an operator binds. -/
def BinOp.rank (op : BinOp) : Nat :=
  op.level.rank

/-- A conjunction or a disjunction. -/
def BinOp.joins (op : BinOp) : Bool :=
  op == .and || op == .or

/-- A comparison. -/
def BinOp.compares (op : BinOp) : Bool :=
  op.level == .comparison

lemma BinOp.joins_iff {op : BinOp} : op.joins = true ↔ op.rank < 2 := by
  cases op <;> decide

lemma BinOp.compares_iff {op : BinOp} : op.compares = true ↔ op.rank = 2 := by
  cases op <;> decide

/-! ## Trees -/

/-- The tree that the rule of precedence makes of a first operand and of operators, each with the
operand after it. -/
inductive Groups : Expr → List (BinOp × Expr) → Expr → Prop where
  | single (e : Expr) : Groups e [] e
  | split {e t f u : Expr} {left right : List (BinOp × Expr)} {op : BinOp}
    (hleft : Groups e left t) (hright : Groups f right u)
    (hlooser : ∀ l ∈ left, op.rank ≤ l.1.rank)
    (hcompare : op.compares = true → ∀ l ∈ left, l.1.compares = false)
    (htighter : ∀ r ∈ right, op.rank < r.1.rank) :
    Groups e (left ++ (op, f) :: right) (.binary op t u)

/-- The operator at the root stands in one place only. -/
lemma split_unique {left right left' right' : List (BinOp × Expr)} {l l' : BinOp × Expr}
    (h : left ++ l :: right = left' ++ l' :: right') (hlooser : ∀ k ∈ left', l'.1.rank ≤ k.1.rank)
    (htighter : ∀ k ∈ right, l.1.rank < k.1.rank) (hlength : left.length < left'.length) :
    False := by
  have hl : l ∈ left' := by
    have hget := congrArg (fun links => links[left.length]?) h
    simp only [List.getElem?_append_right (Nat.le_refl _), Nat.sub_self, List.getElem?_cons_zero,
      List.getElem?_append_left hlength] at hget
    exact List.mem_of_getElem? hget.symm
  have hl' : l' ∈ right := by
    have hget := congrArg (fun links => links[left'.length]?) h
    simp only [List.getElem?_append_right (Nat.le_refl _), Nat.sub_self, List.getElem?_cons_zero,
      List.getElem?_append_right (Nat.le_of_lt hlength)] at hget
    obtain ⟨n, hn⟩ : ∃ n, left'.length - left.length = n + 1 :=
      ⟨left'.length - left.length - 1, by omega⟩
    rw [hn, List.getElem?_cons_succ] at hget
    exact List.mem_of_getElem? hget
  exact absurd (hlooser l hl) (Nat.not_le.mpr (htighter l' hl'))

/-- The rule of precedence makes one tree at most. -/
lemma Groups.unique {e t t' : Expr} {links : List (BinOp × Expr)} (h : Groups e links t)
    (h' : Groups e links t') : t = t' := by
  induction h generalizing t' with
  | single e =>
      generalize hnil : ([] : List (BinOp × Expr)) = links at h'
      cases h' with
      | single => rfl
      | split => simp at hnil
  | @split e t f u left right op hleft hright hlooser hcompare htighter ihleft ihright =>
      generalize hlinks : left ++ (op, f) :: right = links at h'
      cases h' with
      | single => simp at hlinks
      | @split _ t' f' u' left' right' op' hleft' hright' hlooser' _ htighter' =>
          rcases Nat.lt_trichotomy left.length left'.length with hlength | hlength | hlength
          · exact (split_unique hlinks hlooser' htighter hlength).elim
          · obtain ⟨rfl, hrest⟩ := List.append_inj hlinks hlength
            cases hrest
            rw [ihleft hleft', ihright hright']
          · exact (split_unique hlinks.symm hlooser htighter' hlength).elim

/-! ## Comparisons -/

/-- Between two conjunctions or disjunctions, before the first and after the last of them, there is
one comparison at most. -/
def OneComparison (ops : List BinOp) : Prop :=
  ∀ segment ∈ ops.splitOnP BinOp.joins, segment.countP BinOp.compares ≤ 1

instance (ops : List BinOp) : Decidable (OneComparison ops) :=
  List.decidableBAll _ _

/-- A comparison comes after the last conjunction or disjunction. -/
def Compared (ops : List BinOp) : Prop :=
  ∃ before op after, ops = before ++ op :: after ∧ op.compares = true ∧
    ∀ o ∈ after, o.joins = false

lemma Compared.append {ops : List BinOp} (h : Compared ops) (before : List BinOp) :
    Compared (before ++ ops) := by
  obtain ⟨front, op, after, rfl, hop, hafter⟩ := h
  exact ⟨before ++ front, op, after, by simp, hop, hafter⟩

lemma splitOnP_modifyHead {α : Type} {p : α → Bool} {xs : List α} (h : ∀ x ∈ xs, p x = false)
    (ys : List α) : (xs ++ ys).splitOnP p = (ys.splitOnP p).modifyHead (xs ++ ·) := by
  induction xs with
  | nil =>
      rw [List.nil_append]
      cases ys.splitOnP p <;> rfl
  | cons x xs ih =>
      obtain ⟨hx, hxs⟩ := List.forall_mem_cons.mp h
      rw [List.cons_append, List.splitOnP_cons_eq_if_modifyHead, if_neg (by simp [hx]), ih hxs]
      cases ys.splitOnP p <;> rfl

/-- Text in front leaves the runs as they are, but for the first one, which it may prolong. -/
lemma exists_splitOnP_append {α : Type} {p : α → Bool} (xs : List α) {ys segment : List α}
    (h : segment ∈ ys.splitOnP p) : ∃ front, front ++ segment ∈ (xs ++ ys).splitOnP p := by
  induction xs with
  | nil => exact ⟨[], h⟩
  | cons x xs ih =>
      obtain ⟨front, hfront⟩ := ih
      rw [List.cons_append, List.splitOnP_cons_eq_if_modifyHead]
      split
      · exact ⟨front, List.mem_cons_of_mem _ hfront⟩
      · cases hsplit : (xs ++ ys).splitOnP p with
        | nil => rw [hsplit] at hfront; cases hfront
        | cons first rest =>
            rw [hsplit, List.mem_cons] at hfront
            rcases hfront with rfl | hfront
            · exact ⟨x :: front, List.mem_cons_self⟩
            · exact ⟨front, List.mem_cons_of_mem _ hfront⟩

/-- No run has more than all of them together. -/
lemma countP_le_of_mem_splitOnP {α : Type} {p q : α → Bool} {xs segment : List α}
    (h : segment ∈ xs.splitOnP p) : segment.countP q ≤ xs.countP q := by
  induction xs generalizing segment with
  | nil =>
      rw [List.splitOnP_nil, List.mem_singleton] at h
      exact Nat.le_of_eq (by rw [h])
  | cons x xs ih =>
      have hcons : xs.countP q ≤ (x :: xs).countP q := by
        rw [List.countP_cons]
        exact Nat.le_add_right _ _
      rw [List.splitOnP_cons_eq_if_modifyHead] at h
      split at h
      · rcases List.mem_cons.mp h with rfl | h
        · exact Nat.zero_le _
        · exact Nat.le_trans (ih h) hcons
      · cases hsplit : xs.splitOnP p with
        | nil => rw [hsplit] at h; cases h
        | cons first rest =>
            rw [hsplit] at h ih
            rcases List.mem_cons.mp h with rfl | h
            · rw [List.countP_cons, List.countP_cons]
              exact Nat.add_le_add_right (ih List.mem_cons_self) _
            · exact Nat.le_trans (ih (List.mem_cons_of_mem _ h)) hcons

/-- Two comparisons without a conjunction or disjunction between them are one too many. -/
lemma Compared.not_oneComparison {ops : List BinOp} (h : Compared ops) {op : BinOp}
    (hop : op.compares = true) (rest : List BinOp) : ¬OneComparison (ops ++ op :: rest) := by
  obtain ⟨before, first, after, rfl, hfirst, hafter⟩ := h
  have hjoins {o : BinOp} (ho : o.compares = true) : o.joins = false := by
    rw [← Bool.not_eq_true, BinOp.joins_iff, BinOp.compares_iff.mp ho]
    decide
  -- No operator between the two comparisons cuts the row, so they are in one segment.
  have hrun : ∀ o ∈ first :: (after ++ [op]), o.joins = false := by
    intro o ho
    simp only [List.mem_cons, List.mem_append, List.not_mem_nil, or_false] at ho
    rcases ho with rfl | ho | rfl
    · exact hjoins hfirst
    · exact hafter o ho
    · exact hjoins hop
  obtain ⟨segment, hsegment⟩ : ∃ segment,
      first :: (after ++ [op]) ++ segment ∈
        (first :: (after ++ [op]) ++ rest).splitOnP BinOp.joins := by
    rw [splitOnP_modifyHead hrun]
    cases hsplit : rest.splitOnP BinOp.joins with
    | nil => exact absurd hsplit (List.splitOnP_ne_nil _ _)
    | cons segment others => exact ⟨segment, List.mem_cons_self⟩
  obtain ⟨front, hfront⟩ := exists_splitOnP_append before hsegment
  intro hone
  have hcount := hone (front ++ (first :: (after ++ [op]) ++ segment)) (by simpa using hfront)
  simp only [List.countP_append, List.countP_cons, List.countP_nil, hfirst, hop, if_true] at hcount
  omega

/-- There is no tree where two comparisons meet. -/
lemma Groups.oneComparison {e t : Expr} {links : List (BinOp × Expr)} (h : Groups e links t) :
    OneComparison (links.map Prod.fst) := by
  induction h with
  | single e => decide
  | @split e t f u left right op _ _ hlooser hcompare htighter ihleft ihright =>
      rw [List.map_append, List.map_cons]
      -- An operator that joins comparisons cuts the row in two.
      by_cases hjoins : op.joins = true
      · intro segment hsegment
        rw [List.splitOnP_append_cons _ _ hjoins] at hsegment
        rcases List.mem_append.mp hsegment with hsegment | hsegment
        · exact ihleft segment hsegment
        · exact ihright segment hsegment
      · have hrank : 2 ≤ op.rank := Nat.not_lt.mp fun hrank => hjoins (BinOp.joins_iff.mpr hrank)
        -- Otherwise a comparison beside it would be an operator of its own level, or a looser one.
        have hleft : (left.map Prod.fst).countP BinOp.compares = 0 := by
          refine List.countP_eq_zero.mpr fun o ho hcompares => ?_
          obtain ⟨l, hl, rfl⟩ := List.mem_map.mp ho
          have hrankl := hlooser l hl
          have hrankl' := BinOp.compares_iff.mp hcompares
          have hop : op.compares = true := BinOp.compares_iff.mpr (by omega)
          rw [hcompare hop l hl] at hcompares
          cases hcompares
        have hright : (right.map Prod.fst).countP BinOp.compares = 0 := by
          refine List.countP_eq_zero.mpr fun o ho hcompares => ?_
          obtain ⟨r, hr, rfl⟩ := List.mem_map.mp ho
          have hrankr := htighter r hr
          have hrankr' := BinOp.compares_iff.mp hcompares
          omega
        intro segment hsegment
        refine Nat.le_trans (countP_le_of_mem_splitOnP hsegment) ?_
        rw [List.countP_append, List.countP_cons, hleft, hright]
        split <;> decide

end BitPattern
