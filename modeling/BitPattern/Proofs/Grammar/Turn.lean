import BitPattern.Proofs.Grammar.Punctuation

/-!
# The equation of expressions

The grammar of expressions is a circle that `exprWithin` cuts after so many turns.  Every turn takes
an opening parenthesis, so readers that agree on shorter texts make levels that agree on a text
(`disjunction_agrees`), and no text needs more turns than it has characters.  What remains is the
equation of the grammar without any limit, `run_expr_eq`.
-/

namespace BitPattern.Grammar

namespace Reader

variable {α β : Type} {n : Nat} {p q : Reader α}

/-- Two readers read texts below a length alike, and leave no more than the text. -/
structure Agrees (n : Nat) (p q : Reader α) : Prop where
  run_eq : ∀ cs, cs.length < n → p.run cs = q.run cs
  shows : Tracks (Shows []) p

namespace Agrees

lemma refl (h : Tracks (Shows []) p) : Agrees n p p := ⟨fun _ _ => rfl, h⟩

lemma pure (a : α) : Agrees n (pure a : Reader α) (pure a) := refl (.pure a)

lemma rule (h : Agrees n p q) : Agrees n (rule p) (rule q) := by
  refine ⟨fun cs hcs => ?_, .rule h.shows⟩
  rw [run_rule, run_rule, h.run_eq cs hcs]

lemma bind {f g : α → Reader β} (h : Agrees n p q) (hf : ∀ a, Agrees n (f a) (g a)) :
    Agrees n (p >>= f) (q >>= g) := by
  refine ⟨fun cs hcs => ?_, h.shows.bind fun a => (hf a).shows⟩
  rw [run_bind, run_bind, ← h.run_eq cs hcs]
  cases hr : p.run cs with
  | none => rfl
  | some r => exact (hf r.1).run_eq r.2 (Nat.lt_of_le_of_lt (h.shows hr).1.length_le hcs)

/-- Behind a fixed text that is taken, texts are shorter. -/
lemma text_bind {s : String} {f g : Unit → Reader β} (hs : 0 < s.toList.length)
    (hshows : Tracks (Shows []) (text s)) (hf : ∀ u, Agrees n (f u) (g u)) :
    Agrees (n + 1) (text s >>= f) (text s >>= g) := by
  refine ⟨fun cs hcs => ?_, hshows.bind fun u => (hf u).shows⟩
  rw [run_bind, run_bind]
  cases hr : (text s).run cs with
  | none => rfl
  | some r =>
      obtain ⟨u, left⟩ := r
      refine (hf u).run_eq left ?_
      rw [text_eq_some.mp hr, List.length_append] at hcs
      omega

lemma or {p' q' : Reader α} (h : Agrees n p q) (h' : Agrees n p' q') :
    Agrees n (p <|> p') (q <|> q') := by
  refine ⟨fun cs hcs => ?_, h.shows.or h'.shows⟩
  rw [run_or, run_or, h.run_eq cs hcs, h'.run_eq cs hcs]

lemma optional (h : Agrees n p q) : Agrees n (optional p) (optional q) := by
  refine ⟨fun cs hcs => ?_, h.shows.optional⟩
  cases cs with
  | nil => rfl
  | cons c cs => rw [run_optional_cons, run_optional_cons, h.run_eq (c :: cs) hcs]

lemma manyWithin (h : Agrees n p q) {limit : Nat} {cs : List Char} (hcs : cs.length < n) :
    (manyWithin p limit).run cs = (Reader.manyWithin q limit).run cs := by
  induction limit generalizing cs with
  | zero => rfl
  | succ limit ih =>
      cases cs with
      | nil => rfl
      | cons c cs =>
          rw [run_manyWithin_cons, run_manyWithin_cons, ← h.run_eq (c :: cs) hcs]
          cases hr : p.run (c :: cs) with
          | none => rfl
          | some r =>
              simp only [ih (Nat.lt_of_le_of_lt (h.shows hr).1.length_le hcs)]

lemma many (h : Agrees n p q) : Agrees n (many p) (many q) :=
  ⟨fun _ hcs => h.manyWithin hcs, h.shows.many⟩

end Agrees

end Reader

open Reader

/-! ## Levels -/

variable {n : Nat} {p q : Reader (Denoted Expr)}

private lemma no_marks : ([] : List Char) ⊆ marks := List.nil_subset _

lemma operation_agrees (l : Level) (h : Agrees n p q) :
    Agrees n (operation l.op p) (operation l.op q) :=
  .rule (.bind (.refl blank_shows) fun _ => .bind (.refl (op_shows no_marks l)) fun _ =>
    .bind (.refl blank_shows) fun _ => .bind h fun _ => .pure _)

lemma chain_agrees (l : Level) (h : Agrees n p q) : Agrees n (chain l.op p) (chain l.op q) :=
  .rule (.bind h fun _ => .bind (operation_agrees l h).many fun _ => .pure _)

lemma comparison_agrees (h : Agrees n p q) : Agrees n (comparison p) (comparison q) :=
  .rule (.bind h fun _ => .bind (operation_agrees .comparison h).optional fun _ => .pure _)

lemma prefixed_agrees {op : Reader UnOp} {apply : UnOp → Expr → Expr}
    (hop : Tracks (Shows []) op) (h : Agrees n p q) :
    Agrees n (prefixed op apply p) (prefixed op apply q) := by
  have hwithin (limit : Nat) :
      Agrees n (prefixedWithin op apply p limit) (prefixedWithin op apply q limit) := by
    induction limit with
    | zero => exact h
    | succ limit ih =>
        exact .rule (.or (.rule (.bind (.refl hop) fun _ => .bind (.refl blank_shows) fun _ =>
          .bind ih fun _ => .pure _)) h)
  refine ⟨fun cs hcs => ?_, prefixed_shows hop h.shows⟩
  rw [run_prefixed, run_prefixed, (hwithin _).run_eq cs hcs]

lemma items_agrees (h : Agrees n p q) : Agrees n (items p) (items q) := by
  have hcomma : Tracks (Shows []) (text ",") :=
    text_shows "," (by decide) fun _ hc => absurd hc List.not_mem_nil
  exact .rule (.bind h fun _ => .bind (.many (.rule (.bind (.refl blank_shows) fun _ =>
    .bind (.refl hcomma) fun _ => .bind (.refl blank_shows) fun _ => h))) fun _ =>
      .bind (.optional (.rule (.bind (.refl blank_shows) fun _ => .refl hcomma))) fun _ => .pure _)

/-- Parentheses take a character before what is between them. -/
lemma brackets_agrees (h : Agrees n p q)
    (make : Option (List (Denoted Expr) × Bool) → Denoted Expr) :
    Agrees (n + 1) (brackets p make) (brackets q make) :=
  .text_bind (by decide) (sign_shows no_marks _ (by decide)) fun _ =>
    .bind (.refl blank_shows) fun _ => .bind (items_agrees h).optional fun _ =>
      .bind (.refl blank_shows) fun _ => .bind (.refl (sign_shows no_marks _ (by decide))) fun _ =>
        .pure _

lemma application_agrees (h : Agrees n p q) :
    Agrees (n + 1) (application p) (application q) := by
  have hidentifier : Tracks (Shows []) identifier := wordOf_shows no_marks _
  have hliteral : Tracks (Shows []) literal :=
    .rule (.or ((wordOf_shows no_marks _).bind fun _ => .pure _)
      (.or ((stringLiteral_shows no_marks).bind fun _ => .pure _)
        ((wordOf_shows no_marks _).bind fun _ => .pure _)))
  exact .rule (.or (.rule (.bind (.refl hidentifier) fun name => .bind (.refl blank_shows) fun _ =>
      brackets_agrees h fun args => (.call name) <$> ((args.map Prod.fst).getD []).mapM id))
    (.rule (.or (.rule (brackets_agrees h grouped)) (.or (.refl hliteral)
      (.bind (.refl hidentifier) fun _ => .pure _)))))

lemma disjunction_agrees (h : Agrees n p q) :
    Agrees (n + 1) (disjunction p) (disjunction q) := by
  have hoperand : Agrees (n + 1) (signedOperand p) (signedOperand q) :=
    prefixed_agrees (unaryOp_shows no_marks) (application_agrees h)
  have harithmetic : Agrees (n + 1) (arithmetic p) (arithmetic q) :=
    chain_agrees .bitOr (chain_agrees .bitXor (chain_agrees .bitAnd (chain_agrees .shift
      (chain_agrees .sum (chain_agrees .product hoperand)))))
  exact chain_agrees .or (chain_agrees .and (prefixed_agrees (notOp_shows no_marks)
    (comparison_agrees harithmetic)))

/-! ## Expressions -/

/-- Readers with enough turns for a text read it alike. -/
lemma exprWithin_agrees (limit more : Nat) :
    Agrees limit (exprWithin limit) (exprWithin (limit + more)) := by
  induction limit with
  | zero => exact ⟨fun _ hcs => absurd hcs (Nat.not_lt_zero _), fun _ _ _ hr => by cases hr⟩
  | succ limit ih =>
      rw [Nat.succ_add]
      exact disjunction_agrees ih

lemma exprWithin_agrees_expr (limit : Nat) : Agrees limit (exprWithin limit) expr := by
  refine ⟨fun cs hcs => ?_, (exprWithin_agrees limit 0).shows⟩
  obtain ⟨more, rfl⟩ : ∃ more, limit = cs.length + 1 + more := ⟨limit - (cs.length + 1), by omega⟩
  rw [run_expr, (exprWithin_agrees (cs.length + 1) more).run_eq cs (Nat.lt_succ_self _)]

/-- **The equation of expressions**: an expression is a disjunction whose operands are literals,
names, and expressions in parentheses. -/
theorem run_expr_eq (cs : List Char) : expr.run cs = (disjunction expr).run cs := by
  rw [run_expr]
  exact (disjunction_agrees (exprWithin_agrees_expr cs.length)).run_eq cs (Nat.lt_succ_self _)

end BitPattern.Grammar
