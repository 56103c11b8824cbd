import BitPattern.Proofs.Expr.Part
import BitPattern.Proofs.Grammar.Expr
import Mathlib.Data.List.TakeWhile

/-!
# What expressions are read

Not every tree is the reading of a text: the names in it are identifiers, and a minus sign before a
number is a part of the number.  `expr_gives` says that of whatever an expression is read as.
`Gives Q p`, every value that `p` reads has the property `Q`, passes through the combinators as the
properties of readers in `Reading` do.
-/

namespace BitPattern.Grammar

open BitPattern.Text

namespace Reader

variable {α β : Type} {Q : α → Prop} {R : β → Prop} {p q : Reader α}

/-- Every value that the reader reads has a property. -/
def Gives (Q : α → Prop) (p : Reader α) : Prop :=
  ∀ ⦃cs a left⦄, p.run cs = some (a, left) → Q a

namespace Gives

lemma trivial (p : Reader α) : Gives (fun _ => True) p := fun _ _ _ _ => True.intro

lemma pure {a : α} (h : Q a) : Gives Q (pure a : Reader α) := by
  intro cs b left hr
  cases hr
  exact h

lemma rule (h : Gives Q p) : Gives Q (rule p) := fun cs _ _ hr =>
  h (run_rule p cs ▸ hr)

lemma bind {f : α → Reader β} (h : Gives Q p) (hf : ∀ a, Q a → Gives R (f a)) :
    Gives R (p >>= f) := fun _ _ _ hr =>
  let ⟨a, _, ha, hb⟩ := bind_eq_some.mp hr
  hf a (h ha) hb

lemma or (h : Gives Q p) (h' : Gives Q q) : Gives Q (p <|> q) := fun _ _ _ hr =>
  (or_eq_some hr).elim (fun hr => h hr) fun hr => h' hr

lemma optional (h : Gives Q p) : Gives (fun o => ∀ a, o = some a → Q a) (optional p) := by
  intro cs o left hr a ho
  subst ho
  rcases optional_eq_some hr with ⟨hnone, -⟩ | ⟨-, b, hb, hr⟩
  · cases hnone
  · cases hb
    exact h hr

lemma many (h : Gives Q p) : Gives (fun as => ∀ a ∈ as, Q a) (many p) := by
  intro cs as left hr
  have hrow := (row_of_many hr).1
  clear hr
  induction hrow with
  | nil => exact fun _ ha => absurd ha List.not_mem_nil
  | cons ha _ ih => exact List.forall_mem_cons.mpr ⟨h ha, ih⟩

lemma withText (h : Gives Q p) : Gives (fun r => Q r.1) (withText p) := by
  intro cs r left hr
  rw [run_withText] at hr
  obtain ⟨⟨a, left'⟩, ha, heq⟩ := Option.map_eq_some_iff.mp hr
  cases heq
  exact h ha

end Gives

end Reader

open Reader BitPattern.Expr

/-! ## Names and signs -/

/-- A name as it is written. -/
def IsName (x : String) : Prop :=
  identifier.run x.toList = some (x, [])

lemma identifier_gives : Gives IsName identifier := by
  intro cs x left hr
  obtain ⟨hname, -⟩ := wordOf_eq_some.mp hr
  have htext : x = String.ofList (takeWord cs).1 := by
    unfold nameOf? at hname
    split at hname
    · cases hname
    · rename_i c rest hword
      rw [hword]
      exact Option.some.inj (Option.ite_none_left_eq_some.mp hname).2.symm
  have htake : takeWord (takeWord cs).1 = ((takeWord cs).1, []) := by
    rw [takeWord_eq, takeWord_eq, List.takeWhile_idem]
    exact congrArg _ (List.dropWhile_eq_nil_iff.mpr fun _ hc => List.mem_takeWhile_imp hc)
  rw [IsName, identifier, wordOf_eq_some, htext, String.toList_ofList, htake]
  exact ⟨htext ▸ hname, rfl⟩

/-- Names are identifiers, and no minus sign stands before a number. -/
def Written : Expr → Prop
  | .name x => IsName x
  | .call function _ => IsName function
  | .unary .neg (.int _) => False
  | _ => True

/-- What is read, if it denotes anything, is written everywhere. -/
def Legible (d : Denoted Expr) : Prop :=
  ∀ e, d = .ok e → e.Everywhere Written

lemma Legible.ok {e : Expr} (h : e.Everywhere Written) : Legible (.ok e) := by
  rintro _ ⟨⟩
  exact h

lemma Legible.join {first : Denoted Expr} {tail : BinOp × Denoted Expr} (h : Legible first)
    (htail : Legible tail.2) : Legible (joinOperands first tail) := by
  obtain ⟨op, second⟩ := tail
  cases first with
  | error m => exact fun _ he => by cases he
  | ok left =>
      cases second with
      | error m => exact fun _ he => by cases he
      | ok right =>
          exact .ok (everywhere_binary.mpr ⟨trivial, h _ rfl, htail _ rfl⟩)

lemma Legible.foldl {tails : List (BinOp × Denoted Expr)} {first : Denoted Expr}
    (h : Legible first) (htails : ∀ t ∈ tails, Legible t.2) :
    Legible (tails.foldl joinOperands first) := by
  induction tails generalizing first with
  | nil => exact h
  | cons t tails ih =>
      obtain ⟨ht, htails⟩ := List.forall_mem_cons.mp htails
      exact ih (h.join ht) htails

lemma Legible.applyUnary {apply : UnOp → Expr → Expr} {o : UnOp} {d : Denoted Expr}
    (happly : ∀ e : Expr, e.Everywhere Written → (apply o e).Everywhere Written) (h : Legible d) :
    Legible (apply o <$> d) := by
  cases d with
  | error m => exact fun _ he => by cases he
  | ok e => exact .ok (happly e (h e rfl))

lemma everywhere_applyUnary (o : UnOp) {e : Expr} (h : e.Everywhere Written) :
    (Grammar.applyUnary o e).Everywhere Written := by
  unfold Grammar.applyUnary
  split
  · exact everywhere_int.mpr trivial
  · rename_i hint
    refine everywhere_unary.mpr ⟨?_, h⟩
    unfold Written
    split <;> simp_all

/-! ## Levels -/

variable {q : Reader (Denoted Expr)}

lemma operation_gives (hq : Gives Legible q) (op : Reader BinOp) :
    Gives (fun r => Legible r.2) (operation op q) :=
  .rule (.bind (.trivial _) fun _ _ => .bind (.trivial _) fun _ _ => .bind (.trivial _) fun _ _ =>
    .bind hq fun _ he => .pure he)

lemma chain_gives (hq : Gives Legible q) (op : Reader BinOp) : Gives Legible (chain op q) :=
  .rule (.bind hq fun _ hfirst => .bind (operation_gives hq op).many fun _ htails =>
    .pure (hfirst.foldl htails))

lemma comparison_gives (hq : Gives Legible q) : Gives Legible (comparison q) := by
  refine .rule (.bind hq fun first hfirst => .bind (operation_gives hq _).optional
    fun tail htail => .pure ?_)
  cases tail with
  | none => exact hfirst
  | some tail => exact hfirst.join (htail tail rfl)

lemma prefixed_gives {op : Reader UnOp} {apply : UnOp → Expr → Expr} (hq : Gives Legible q)
    (hop : Gives (fun o => ∀ e : Expr, e.Everywhere Written → (apply o e).Everywhere Written) op) :
    Gives Legible (prefixed op apply q) := by
  have hwithin (limit : Nat) : Gives Legible (prefixedWithin op apply q limit) := by
    induction limit with
    | zero => exact hq
    | succ limit ih =>
        exact .rule (.or (.rule (.bind hop fun o ho => .bind (.trivial _) fun _ _ =>
          .bind ih fun _ he => .pure (he.applyUnary ho))) hq)
  intro cs e left hr
  rw [run_prefixed] at hr
  exact hwithin _ hr

lemma notOp_gives :
    Gives (fun o => ∀ e : Expr, e.Everywhere Written → (Expr.unary o e).Everywhere Written)
      notOp := by
  have hnot : Gives (· = UnOp.not) notOp :=
    .rule (.or (.bind (.trivial _) fun _ _ => .pure rfl)
      (.bind (.trivial _) fun _ _ => .bind (.trivial _) fun _ _ => .pure rfl))
  rintro cs o left hr e he
  obtain rfl := hnot hr
  exact everywhere_unary.mpr ⟨trivial, he⟩

/-! ## Operands -/

/-- All of several expressions are written everywhere. -/
def AllLegible (ds : List (Denoted Expr)) : Prop :=
  ∀ d ∈ ds, Legible d

lemma AllLegible.mapM {ds : List (Denoted Expr)} (h : AllLegible ds) {make : List Expr → Expr}
    (hmembers : ∀ es, (make es).members = es) (hmake : ∀ es, Written (make es)) :
    Legible (make <$> ds.mapM id) := by
  intro e he
  obtain ⟨es, hes, rfl⟩ := result_map_eq_ok.mp he
  obtain rfl := result_mapM_id_eq_ok.mp hes
  refine .intro (hmake es) fun f hf => ?_
  rw [hmembers] at hf
  exact h (.ok f) (List.mem_map_of_mem hf) f rfl

lemma items_gives (hq : Gives Legible q) : Gives (fun r => AllLegible r.1) (items q) :=
  .rule (.bind hq fun _ hfirst => .bind (Gives.many (.rule (.bind (.trivial _) fun _ _ =>
    .bind (.trivial _) fun _ _ => .bind (.trivial _) fun _ _ => hq))) fun _ hrest =>
      .bind (.trivial _) fun _ _ => .pure (List.forall_mem_cons.mpr ⟨hfirst, hrest⟩))

lemma brackets_gives (hq : Gives Legible q)
    {make : Option (List (Denoted Expr) × Bool) → Denoted Expr}
    (hmake : ∀ inner, (∀ r, inner = some r → AllLegible r.1) → Legible (make inner)) :
    Gives Legible (brackets q make) :=
  .bind (.trivial _) fun _ _ => .bind (.trivial _) fun _ _ => .bind (items_gives hq).optional
    fun inner hinner => .bind (.trivial _) fun _ _ => .bind (.trivial _) fun _ _ =>
      .pure (hmake inner hinner)

lemma grouped_legible {inner : Option (List (Denoted Expr) × Bool)}
    (h : ∀ r, inner = some r → AllLegible r.1) : Legible (grouped inner) := by
  unfold grouped
  split
  · exact .ok ((everywhere_leaf rfl).mpr trivial)
  · exact h _ rfl _ List.mem_cons_self
  · exact (h _ rfl).mapM (fun _ => rfl) fun _ => trivial

lemma application_gives (hq : Gives Legible q) : Gives Legible (application q) := by
  refine .rule (.or (.rule (.bind identifier_gives fun function hfunction => .bind (.trivial _)
    fun _ _ => brackets_gives hq ?_)) (.rule (.or (.rule (brackets_gives hq fun _ h =>
      grouped_legible h)) (.or (.rule ?_) (.bind identifier_gives fun x hx => .pure
        (.ok (everywhere_name.mpr hx)))))))
  · intro args hargs
    have hall : AllLegible ((args.map Prod.fst).getD []) := by
      cases args with
      | none => exact fun _ hd => absurd hd List.not_mem_nil
      | some r => exact hargs r rfl
    exact hall.mapM (fun _ => rfl) fun _ => hfunction
  · -- A literal is an expression without parts.
    have hvalue {α : Type} (make : α → Expr) (hmembers : ∀ a, (make a).members = [])
        (hmake : ∀ a, Written (make a)) (d : Denoted α) : Legible (make <$> d) := by
      intro e he
      obtain ⟨a, -, rfl⟩ := result_map_eq_ok.mp he
      exact (everywhere_leaf (hmembers a)).mpr (hmake a)
    exact .or
      (.bind (.trivial _) fun n _ => .pure (hvalue .int (fun _ => rfl) (fun _ => trivial) n))
      (.or (.bind (.trivial _) fun b _ => .pure (hvalue .bytes (fun _ => rfl) (fun _ => trivial) b))
        (.bind (.trivial _) fun _ _ => .pure (.ok (everywhere_bool.mpr trivial))))

/-! ## Expressions -/

/-- What an expression is read as has identifiers for names, and no minus sign before a number. -/
theorem expr_gives : Gives Legible expr := by
  have hdisjunction {q : Reader (Denoted Expr)} (hq : Gives Legible q) :
      Gives Legible (disjunction q) :=
    chain_gives (chain_gives (prefixed_gives (comparison_gives (chain_gives (chain_gives
      (chain_gives (chain_gives (chain_gives (chain_gives (prefixed_gives (application_gives hq)
        fun _ o _ _ _ he => everywhere_applyUnary o he) _) _) _) _) _) _)) notOp_gives) _) _
  have hwithin (limit : Nat) : Gives Legible (exprWithin limit) := by
    induction limit with
    | zero => exact fun _ _ _ hr => by cases hr
    | succ limit ih => exact hdisjunction ih
  intro cs e left hr
  rw [run_expr] at hr
  exact hwithin _ hr

end BitPattern.Grammar
