import BitPattern.Proofs.Grammar.Operator

/-!
# Expressions with more text behind

An expression is read from a text with more behind it as it is read from the text alone, if no
operator and no parenthesis follows: `expr_extends`.  The proof goes through the levels of the
grammar from the tightest to the loosest.  `Ends n` says of a text that no operator of the levels
from `n` on is read at its front, which is what a level asks of the text behind, and `Operands`
collects what a level has to know of the one below it.

A bar is an operator only if no head of an arm follows.  Text behind may complete such a head, but
then what is read of it ends at its arrow (`Heads`), and no expression ends there.
-/

namespace BitPattern.Grammar

open BitPattern.Text Reader

variable {more : List Char} {n m : Nat} {p q : Reader (Denoted Expr)}

/-! ## Where expressions end -/

/-- The first token is an arrow. -/
def ArrowAt (cs : List Char) : Prop :=
  "->".toList <+: skipBlank false cs

/-- Neither an operator of the levels from a rank on, nor an opening parenthesis, nor an arrow
follows. -/
structure Ends (n : Nat) (cs : List Char) : Prop where
  paren : next cs ≠ some '('
  arrow : ¬ArrowAt cs
  ops : ∀ l : Level, n ≤ l.rank → l.op.run (skipBlank false cs) = none

lemma Ends.mono {cs : List Char} (h : Ends n cs) (hnm : n ≤ m) : Ends m cs :=
  ⟨h.paren, h.arrow, fun l hl => h.ops l (Nat.le_trans hnm hl)⟩

/-- An arrow is no operator. -/
lemma ArrowAt.op_eq_none {cs : List Char} (h : ArrowAt cs) (l : Level) :
    l.op.run (skipBlank false cs) = none := by
  obtain ⟨rest, hrest⟩ := h
  rw [← hrest]
  have hof : Level.of? ('-' :: '>' :: rest) = none := Level.of?_cons (by decide) _
  refine (Level.op_level l).run_eq_none ?_
  rintro (hl | ⟨-, hl⟩)
  · cases hof.symm.trans hl
  · cases hof.symm.trans hl.of?

/-- The characters with which nothing in an expression goes on. -/
def closes (c : Char) : Bool :=
  !isWordChar c && c != '(' && !(Level.signs.filterMap fun s => s.1.head?).contains c

lemma ends_of_next {cs : List Char} (h : ∀ c ∈ next cs, closes c = true) : Ends n cs := by
  cases hcs : skipBlank false cs with
  | nil =>
      have hnext : next cs = none := by rw [next, hcs, List.head?_nil]
      refine ⟨by simp [hnext], fun harrow => ?_, fun l _ => by rw [hcs, l.op_nil]⟩
      rw [ArrowAt, hcs] at harrow
      exact absurd harrow (by decide)
  | cons c rest =>
      have hc := h c (next_eq_some.mpr ⟨rest, hcs⟩)
      simp only [closes, Bool.and_eq_true, Bool.not_eq_true', bne_iff_ne, ne_eq,
        List.contains_eq_mem, decide_eq_false_iff_not] at hc
      refine ⟨fun hnext => hc.1.2 ?_, fun harrow => ?_, fun l _ => ?_⟩
      · obtain ⟨rest', hrest⟩ := next_eq_some.mp hnext
        rw [hcs] at hrest
        cases hrest
        rfl
      · obtain ⟨rest', hrest⟩ := harrow
        cases hrest.trans hcs
        exact hc.2 (by decide)
      · rw [hcs]
        exact Level.op_cons_eq_none hc.1.1 hc.2 l rest

lemma ends_of_next_eq {cs : List Char} {c : Char} (h : next cs = some c) (hc : closes c = true) :
    Ends n cs :=
  ends_of_next fun d hd => by
    rw [h] at hd
    cases hd
    exact hc

/-- Neither a blank character nor a comment stands before an expression. -/
lemma ExprAt.cons_plain {cs : List Char} (h : ExprAt cs) :
    ∃ c rest, cs = c :: rest ∧ isBlank c = false ∧ c ≠ '#' := by
  obtain ⟨c, rest, hcs, hc | hc⟩ := h.cons
  · refine ⟨c, rest, hcs, isBlank_eq_false hc, ?_⟩
    rintro rfl
    exact absurd hc (by decide)
  · have hsigns : ['(', '"', '-', '~', '!'].all (fun c => !isBlank c && c != '#') = true := by
      decide
    exact ⟨c, rest, hcs, by simpa using List.all_eq_true.mp hsigns c hc⟩

lemma ExprAt.skipBlank_eq {cs : List Char} (h : ExprAt cs) : skipBlank false cs = cs := by
  obtain ⟨c, rest, rfl, hblank, hhash⟩ := h.cons_plain
  exact skipBlank_cons rest (isWhite_eq_false hblank) hhash

lemma ExprAt.next_eq {cs : List Char} (h : ExprAt cs) :
    ∃ c, next cs = some c ∧ (isWordChar c = true ∨ c ∈ ['(', '"', '-', '~', '!']) := by
  obtain ⟨c, rest, hcs, hc⟩ := h.cons
  exact ⟨c, next_eq_some.mpr ⟨rest, by rw [h.skipBlank_eq, hcs]⟩, hc⟩

/-- What an operator of a level follows ends all tighter levels. -/
lemma operation_ends {l : Level} {cs : List Char} {r : (BinOp × Denoted Expr) × List Char}
    (hq : Begins ExprAt q) (h : (operation l.op q).run cs = some r) : Ends (l.rank + 1) cs := by
  rw [operation, run_rule, run_blank_bind] at h
  obtain ⟨o, mid, ho, h⟩ := bind_eq_some.mp h
  rw [run_blank_bind] at h
  obtain ⟨e, left, he, -⟩ := bind_eq_some.mp h
  have hmid : ∀ c ∈ mid.head?, c ≠ '<' ∧ c ≠ '>' := by
    intro c hc
    obtain ⟨rest, rfl⟩ := List.head?_eq_some_iff.mp hc
    obtain ⟨d, hd, hstart⟩ := (hq he).next_eq
    rw [next_skipBlank] at hd
    constructor
    · rintro rfl
      cases (next_eq_some.mpr ⟨rest, skipBlank_cons rest (by decide) (by decide)⟩).symm.trans hd
      exact absurd hstart (by decide)
    · rintro rfl
      cases (next_eq_some.mpr ⟨rest, skipBlank_cons rest (by decide) (by decide)⟩).symm.trans hd
      exact absurd hstart (by decide)
  refine ⟨fun hnext => ?_, fun harrow => ?_, fun k hk => Level.op_eq_none ho hmid hk⟩
  · obtain ⟨rest, hrest⟩ := next_eq_some.mp hnext
    rw [hrest, Level.op_cons_eq_none (by decide) (by decide)] at ho
    cases ho
  · rw [harrow.op_eq_none l] at ho
    cases ho

/-! ## Levels -/

/-- What is read of the head of an arm ends at its arrow. -/
def Heads (p : Reader (Denoted Expr)) : Prop :=
  ∀ ⦃cs r e left⦄, armHead.run cs = some r → p.run cs = some (e, left) → ArrowAt left

/-- What a level knows of the one below it, on a text and on one with more behind. -/
structure Operands (more : List Char) (S : List Char → Prop) (n : Nat)
    (p q : Reader (Denoted Expr)) : Prop where
  begins : Begins S p
  begins_more : Begins S q
  heads_more : Heads q
  reads : Extends more (fun left => Ends n (left ++ more)) p q

variable {S : List Char → Prop}

lemma ExprAt.begins_nil (hp : Begins ExprAt p) : p.run [] = none :=
  hp.run_eq_none fun h => by
    obtain ⟨c, rest, hcs, -⟩ := h.cons
    cases hcs

lemma operation_extends (h : Behind more) (hS : ∀ cs, S cs → ExprAt cs) (l : Level)
    (hpq : Operands more S n p q) :
    Extends more (fun left => Ends n (left ++ more)) (operation l.op p) (operation l.op q) := by
  have hp : Begins ExprAt p := hpq.begins.mono hS
  refine .rule (blank_extends ((l.op_extends h).bind (fun o => blank_extends
    (hpq.reads.bind_pure fun e => (o, e)) ?_) ?_) ?_)
  · rw [run_bind, ExprAt.begins_nil hp, Option.bind_none]
  · intro o mid r left _ hr hleft
    rw [run_blank_bind] at hr
    obtain ⟨e, rest, he, heq⟩ := bind_eq_some.mp hr
    cases heq
    exact Option.eq_none_iff_forall_ne_some.mpr fun r hhead =>
      hleft.arrow (hpq.heads_more hhead he)
  · rw [run_bind, l.op_nil, Option.bind_none]

/-- Without an operator there is no operation. -/
lemma operation_eq_none {l : Level} {cs : List Char} (h : l.op.run (skipBlank false cs) = none) :
    (operation l.op q).run cs = none := by
  rw [operation, run_rule, run_blank_bind, run_bind, h, Option.bind_none]

lemma heads_chain (l : Level) (hq : Heads q) : Heads (chain l.op q) := by
  intro cs r e left hhead hr
  obtain ⟨first, mid, hfirst, hr⟩ := bind_eq_some.mp ((run_rule _ _).symm.trans hr)
  obtain ⟨tails, rest, htails, heq⟩ := bind_eq_some.mp hr
  cases heq
  have hmid : ArrowAt mid := hq hhead hfirst
  rw [((row_of_many htails).1.eq_nil (operation_eq_none (hmid.op_eq_none l))).2]
  exact hmid

/-- A level of operators that group to the left. -/
lemma chain_operands (h : Behind more) (hS : ∀ cs, S cs → ExprAt cs) (l : Level)
    (hpq : Operands more S (l.rank + 1) p q) :
    Operands more S l.rank (chain l.op p) (chain l.op q) := by
  have hbegins : Begins ExprAt q := hpq.begins_more.mono hS
  refine ⟨.rule (hpq.begins.bind _), .rule (hpq.begins_more.bind _),
    heads_chain l hpq.heads_more, .rule (hpq.reads.bind_many
    (operation_extends h hS l hpq) (operation_eq_none l.op_nil)
    (fun _ hq _ => operation_ends hbegins hq) (fun _ _ => .pure _) ?_)⟩
  intro first tails mid e left hr _ hleft
  cases hr
  exact ⟨hleft.mono (Nat.le_succ _), operation_eq_none (hleft.ops l (Nat.le_refl _))⟩

lemma heads_comparison (hq : Heads q) : Heads (comparison q) := by
  intro cs r e left hhead hr
  obtain ⟨first, mid, hfirst, hr⟩ := bind_eq_some.mp ((run_rule _ _).symm.trans hr)
  obtain ⟨tail, rest, htail, heq⟩ := bind_eq_some.mp hr
  cases heq
  have hmid : ArrowAt mid := hq hhead hfirst
  have hnone : (operation compareOp q).run mid = none :=
    operation_eq_none (hmid.op_eq_none .comparison)
  rw [run_optional_none hnone] at htail
  cases htail
  exact hmid

/-- The level of comparisons, which has one operator at most. -/
lemma comparison_operands (h : Behind more) (hS : ∀ cs, S cs → ExprAt cs)
    (hpq : Operands more S (Level.comparison.rank + 1) p q) :
    Operands more S Level.comparison.rank (comparison p) (comparison q) := by
  refine ⟨.rule (hpq.begins.bind _), .rule (hpq.begins_more.bind _),
    heads_comparison hpq.heads_more, .rule ?_⟩
  intro cs e left hr hleft
  obtain ⟨first, mid, hfirst, hr⟩ := bind_eq_some.mp hr
  obtain ⟨tail, rest, htail, hr⟩ := bind_eq_some.mp hr
  cases hr
  rcases optional_eq_some htail with ⟨rfl, rfl, -⟩ | ⟨-, tail, rfl, hop⟩
  · have hstop := operation_eq_none (q := q) (hleft.ops .comparison (Nat.le_refl _))
    have hmid := hleft.mono (Nat.le_succ _)
    exact bind_eq_some.mpr ⟨first, left ++ more, hpq.reads hfirst hmid, bind_eq_some.mpr
      ⟨none, left ++ more, run_optional_none hstop, rfl⟩⟩
  · have htail : (operation Level.comparison.op q).run (mid ++ more) = some (tail, left ++ more) :=
      operation_extends h hS .comparison hpq hop (hleft.mono (Nat.le_succ _))
    have hmid := operation_ends (hpq.begins_more.mono hS) htail
    have hne : mid ++ more ≠ [] := by
      intro hnil
      rw [hnil, operation_eq_none Level.comparison.op_nil] at htail
      cases htail
    exact bind_eq_some.mpr ⟨first, mid ++ more, hpq.reads hfirst hmid, bind_eq_some.mpr
      ⟨some tail, left ++ more, run_optional_some htail hne, rfl⟩⟩

/-- A level of signs before operands. -/
lemma prefixedWithin_begins {op : Reader UnOp} {apply : UnOp → Expr → Expr} (hp : Begins S p)
    (limit : Nat) :
    Begins (fun cs => S cs ∨ ∃ r, op.run cs = some r) (prefixedWithin op apply p limit) := by
  cases limit with
  | zero => exact hp.mono fun _ => .inl
  | succ limit =>
      refine .rule (.or (.rule (.bind ?_ _)) (hp.mono fun _ => .inl))
      exact fun cs r hr => .inr ⟨r, hr⟩

lemma prefixedWithin_extends {op : Reader UnOp} {apply : UnOp → Expr → Expr}
    (hop : Local more op) (hsign : ∀ {cs}, S cs → op.run cs = none)
    (hS : ∀ cs, S cs ∨ (∃ r, op.run cs = some r) → ExprAt cs)
    (hpq : Operands more S n p q) {limit limit' : Nat} (hlimit : limit ≤ limit') :
    Extends more (fun left => Ends n (left ++ more)) (prefixedWithin op apply p limit)
      (prefixedWithin op apply q limit') := by
  -- What begins without a sign is no signed operand, however long the text is.
  have hfirst {cs left : List Char} {e : Denoted Expr} {limit : Nat}
      (he : p.run cs = some (e, left)) : (Reader.rule (do
        let o ← op
        blank
        let e ← prefixedWithin op apply q limit
        pure (apply o <$> e) : Reader (Denoted Expr))).run (cs ++ more) = none := by
    rw [run_rule, run_bind, hop.run_eq_none (hsign (hpq.begins he)), Option.bind_none]
  induction limit generalizing limit' with
  | zero =>
      cases limit' with
      | zero => exact hpq.reads
      | succ limit' =>
          intro cs e left hr hleft
          rw [prefixedWithin, run_rule, run_or, hfirst hr, Option.none_or]
          exact hpq.reads hr hleft
  | succ limit ih =>
      cases limit' with
      | zero => exact absurd hlimit (Nat.not_succ_le_zero _)
      | succ limit' =>
          have ih := ih (Nat.le_of_succ_le_succ hlimit)
          refine .rule (.or (.rule (.local_bind hop fun o => blank_extends
            (ih.bind_pure fun e => apply o <$> e) ?_)) hpq.reads fun _ hr _ _ => hfirst hr)
          rw [run_bind, ExprAt.begins_nil ((prefixedWithin_begins hpq.begins limit).mono hS),
            Option.bind_none]

/-- No sign before an operand is the quote of the head of an arm. -/
lemma heads_prefixedWithin {op : Reader UnOp} {apply : UnOp → Expr → Expr}
    (hop : ∀ cs, op.run ('"' :: cs) = none) (hq : Heads q) (limit : Nat) :
    Heads (prefixedWithin op apply q limit) := by
  intro cs r e left hhead hr
  obtain ⟨fields, mid, hfields, -⟩ := armHead_eq_some.mp hhead
  obtain ⟨rest, rfl⟩ := stringLiteral_begins hfields
  cases limit with
  | zero => exact hq hhead hr
  | succ limit =>
      rw [prefixedWithin, run_rule, run_or, run_rule, run_bind, hop, Option.bind_none,
        Option.none_or] at hr
      exact hq hhead hr

lemma run_prefixed (op : Reader UnOp) (apply : UnOp → Expr → Expr) (cs : List Char) :
    (prefixed op apply p).run cs = (prefixedWithin op apply p (cs.length + 1)).run cs := by
  simp only [run, prefixed]

lemma prefixed_operands {op : Reader UnOp} {apply : UnOp → Expr → Expr}
    (hop : Local more op) (hquote : ∀ cs, op.run ('"' :: cs) = none)
    (hsign : ∀ {cs}, S cs → op.run cs = none)
    (hS : ∀ cs, S cs ∨ (∃ r, op.run cs = some r) → ExprAt cs) (hpq : Operands more S n p q) :
    Operands more (fun cs => S cs ∨ ∃ r, op.run cs = some r) n (prefixed op apply p)
      (prefixed op apply q) where
  begins cs r hr := by
    rw [run_prefixed] at hr
    exact prefixedWithin_begins hpq.begins _ hr
  begins_more cs r hr := by
    rw [run_prefixed] at hr
    exact prefixedWithin_begins hpq.begins_more _ hr
  heads_more cs r e left hhead hr := by
    rw [run_prefixed] at hr
    exact heads_prefixedWithin hquote hpq.heads_more _ hhead hr
  reads cs e left hr hleft := by
    have hlimit : cs.length + 1 ≤ (cs ++ more).length + 1 := by simp
    rw [run_prefixed] at hr ⊢
    exact prefixedWithin_extends hop hsign hS hpq hlimit hr hleft

/-! ## Lists of expressions -/

lemma not_exprAt {cs : List Char} {c : Char} (h : next cs = some c)
    (hc : isWordChar c = false ∧ c ∉ ['(', '"', '-', '~', '!']) : ¬ExprAt cs := by
  intro hcs
  obtain ⟨d, hd, hstart⟩ := hcs.next_eq
  cases h.symm.trans hd
  simp_all

/-- A comma and the expression after it. -/
def nextItem (p : Reader (Denoted Expr)) : Reader (Denoted Expr) := rule do
  blank
  text ","
  blank
  p

lemma nextItem_extends (h : Behind more) (hpq : Operands more ExprAt 0 p q) :
    Extends more (fun left => Ends 0 (left ++ more)) (nextItem p) (nextItem q) :=
  .rule (blank_extends (.local_bind (text_local h "," (by decide)) fun _ =>
    blank_extends hpq.reads (ExprAt.begins_nil hpq.begins)) rfl)

/-- A comma, which no expression needs to follow. -/
def trailingComma : Reader Unit := rule do
  blank
  text ","

lemma trailingComma_eq_some {cs left : List Char} {u : Unit} :
    trailingComma.run cs = some (u, left) ↔ skipBlank false cs = ',' :: left := by
  rw [trailingComma, run_rule, run_blank_bind, text_eq_some]
  rfl

lemma trailingComma_extends (h : Behind more) :
    Extends more (fun _ => True) trailingComma trailingComma :=
  .rule (blank_extends (.of_local (text_local h "," (by decide))) rfl)

/-- A comma is read before an expression in a list. -/
lemma next_of_nextItem {cs : List Char} {r : Denoted Expr × List Char}
    (h : (nextItem p).run cs = some r) :
    ∃ mid, skipBlank false cs = ',' :: mid ∧ p.run (skipBlank false mid) = some r := by
  rw [nextItem, run_rule, run_blank_bind] at h
  obtain ⟨u, mid, hmid, h⟩ := bind_eq_some.mp h
  rw [run_blank_bind] at h
  exact ⟨mid, text_eq_some.mp hmid, h⟩

lemma items_begins (hp : Begins ExprAt p) : Begins ExprAt (items p) := .rule (hp.bind _)

/-- Expressions between parentheses. -/
lemma items_extends (h : Behind more) (hpq : Operands more ExprAt 0 p q) :
    Extends more (fun left => next (left ++ more) = some ')') (items p) (items q) := by
  -- The list ends at a closing parenthesis, with a comma before it or not.
  have hstop {mid left : List Char} {trailing : Option Unit}
      (htrailing : (optional trailingComma).run mid = some (trailing, left))
      (hleft : next (left ++ more) = some ')') :
      (optional trailingComma).run (mid ++ more) = some (trailing, left ++ more) ∧
        Ends 0 (mid ++ more) ∧ (nextItem q).run (mid ++ more) = none := by
    rcases optional_eq_some htrailing with ⟨rfl, rfl, -⟩ | ⟨-, u, rfl, hcomma⟩
    · have hnone {α : Type} {r : Reader α} (hr : ∀ a, r.run (left ++ more) = some a →
          ∃ rest, skipBlank false (left ++ more) = ',' :: rest) : r.run (left ++ more) = none := by
        refine Option.eq_none_iff_forall_ne_some.mpr fun a ha => ?_
        cases hleft.symm.trans (next_eq_some.mpr (hr a ha))
      refine ⟨run_optional_none (hnone fun a ha => ⟨_, trailingComma_eq_some.mp ha⟩),
        ends_of_next_eq hleft (by decide), hnone fun a ha => ?_⟩
      obtain ⟨rest, hrest, -⟩ := next_of_nextItem ha
      exact ⟨rest, hrest⟩
    · have hcomma := trailingComma_extends h hcomma trivial
      have hnext := trailingComma_eq_some.mp hcomma
      refine ⟨run_optional_some hcomma fun hnil => ?_,
        ends_of_next_eq (next_eq_some.mpr ⟨_, hnext⟩) (by decide), ?_⟩
      · rw [hnil] at hnext
        cases hnext
      · refine Option.eq_none_iff_forall_ne_some.mpr fun r hr => ?_
        obtain ⟨rest, hrest, hr⟩ := next_of_nextItem hr
        cases hnext.symm.trans hrest
        exact not_exprAt (by rw [next_skipBlank, hleft]) (by decide) (hpq.begins_more hr)
  have htrailing (first : Denoted Expr) (rest : List (Denoted Expr)) :
      Extends more (fun left => next (left ++ more) = some ')')
        (do let trailing ← optional trailingComma; pure (first :: rest, trailing.isSome))
        (do let trailing ← optional trailingComma; pure (first :: rest, trailing.isSome)) :=
    .bind_pure (fun _ _ _ hr hleft => (hstop hr hleft).1) fun trailing =>
      (first :: rest, trailing.isSome)
  refine .rule (hpq.reads.bind_many (nextItem_extends h hpq) rfl (fun _ hq _ => ?_) htrailing ?_)
  · obtain ⟨_, hcomma, _⟩ := next_of_nextItem hq
    exact ends_of_next_eq (next_eq_some.mpr ⟨_, hcomma⟩) (by decide)
  · -- What is behind the last item is the end of the list, whether a comma stands there or not.
    intro first rest mid es left hr _ hleft
    obtain ⟨trailing, mid', hr, heq⟩ := bind_eq_some.mp hr
    cases heq
    exact (hstop hr hleft).2

/-- Parentheses with expressions between them. -/
def brackets (p : Reader (Denoted Expr))
    (make : Option (List (Denoted Expr) × Bool) → Denoted Expr) : Reader (Denoted Expr) := do
  text "("
  blank
  let inner ← optional (items p)
  blank
  text ")"
  pure (make inner)

lemma brackets_extends (h : Behind more) (hpq : Operands more ExprAt 0 p q)
    (make : Option (List (Denoted Expr) × Bool) → Denoted Expr) {fits : List Char → Prop} :
    Extends more fits (brackets p make) (brackets q make) := by
  refine .local_bind (text_local h "(" (by decide)) fun _ => blank_extends ?_ rfl
  intro cs e left hr hleft
  obtain ⟨inner, mid, hinner, hr⟩ := bind_eq_some.mp hr
  rw [run_blank_bind] at hr
  obtain ⟨u, mid', hclose, hr⟩ := bind_eq_some.mp hr
  cases hr
  have hmid : skipBlank false mid = ')' :: left := text_eq_some.mp hclose
  have hnext : next (mid ++ more) = some ')' := next_append more (next_eq_some.mpr ⟨_, hmid⟩)
  have hstop : (items q).run (mid ++ more) = none :=
    (items_begins hpq.begins_more).run_eq_none (not_exprAt hnext (by decide))
  refine bind_eq_some.mpr ⟨inner, mid ++ more,
    (items_extends h hpq).optional hinner ⟨hnext, hstop⟩, ?_⟩
  rw [run_blank_bind, skipBlank_append more (by simp [hmid]), hmid]
  exact bind_eq_some.mpr ⟨(), left ++ more, text_eq_some.mpr rfl, rfl⟩

/-! ## Operands -/

lemma parenthesized_begins : Begins (fun cs => cs.head? = some '(') (parenthesized p) := by
  refine .rule (.bind ?_ _)
  rintro cs ⟨u, left⟩ hr
  rw [text_eq_some.mp hr]
  rfl

lemma parenthesized_extends (h : Behind more) (hpq : Operands more ExprAt 0 p q)
    {fits : List Char → Prop} : Extends more fits (parenthesized p) (parenthesized q) :=
  .rule (brackets_extends h hpq grouped)

/-- A word that no sign is. -/
lemma wordOf_begins {α : Type} {value? : List Char → Option α} (hnil : value? [] = none)
    (hsign : ∀ s ∈ ["not", "lnot", "_"], value? s.toList = none) :
    Begins OperandAt (wordOf value?) := by
  rintro cs ⟨a, left⟩ hr
  obtain ⟨ha, -⟩ := wordOf_eq_some.mp hr
  refine .word (fun hword => ?_) fun s hs hword => ?_
  · simp [hword, hnil] at ha
  · simp [hword, hsign s hs] at ha

lemma literal_begins : Begins OperandAt literal :=
  .rule (.or (.bind (wordOf_begins rfl (by decide)) _)
    (.or (.bind (fun _ r hr => .literal ⟨r, hr⟩) _) (.bind (wordOf_begins rfl (by decide)) _)))

/-- A literal begins with a word or a quote. -/
lemma literal_head : Begins (fun cs => ∃ c ∈ cs.head?, isWordChar c = true ∨ c = '"') literal := by
  have hword {α : Type} {value? : List Char → Option α} (hnil : value? [] = none) :
      Begins (fun cs => ∃ c ∈ cs.head?, isWordChar c = true ∨ c = '"') (wordOf value?) :=
    (wordOf_head hnil).mono fun _ ⟨c, hc, h⟩ => ⟨c, hc, .inl h⟩
  refine .rule (.or (.bind (hword rfl) _) (.or (.bind ?_ _) (.bind (hword rfl) _)))
  intro cs r hr
  obtain ⟨rest, rfl⟩ := stringLiteral_begins hr
  exact ⟨'"', rfl, .inr rfl⟩

lemma stringLiteral_eq_none {cs : List Char} {c : Char} (hc : c ∈ cs.head?)
    (hword : isWordChar c = true) : stringLiteral.run cs = none := by
  refine stringLiteral_begins.run_eq_none ?_
  rintro ⟨rest, rfl⟩
  cases hc
  exact absurd hword (by decide)

lemma literal_extends (h : Behind more) {fits : List Char → Prop} :
    Extends more fits literal literal := by
  refine .rule (.local_or ((wordOf_local h _).bind fun _ => .pure _)
    (.or (stringLiteral_extends.bind_pure fun b => Expr.bytes <$> b)
      (.of_local ((wordOf_local h _).bind fun _ => .pure _)) ?_))
  intro cs e left _ _ hlong _
  obtain ⟨b, mid, hb, -⟩ := bind_eq_some.mp hlong
  obtain ⟨c, hc, hword⟩ := wordOf_head rfl hb
  rw [run_bind, stringLiteral_eq_none hc hword, Option.bind_none]

/-- Text behind makes no literal of a word that is none. -/
lemma literal_append_eq_none (h : Behind more) {cs : List Char} {c : Char} (hc : c ∈ cs.head?)
    (hword : isWordChar c = true) (hnone : literal.run cs = none) :
    literal.run (cs ++ more) = none := by
  have hc' : c ∈ (cs ++ more).head? := by
    obtain ⟨rest, rfl⟩ := List.head?_eq_some_iff.mp hc
    rfl
  rw [literal, run_rule, run_or, run_or, Option.or_eq_none_iff, Option.or_eq_none_iff] at hnone ⊢
  refine ⟨((wordOf_local h _).bind fun _ => .pure _).run_eq_none hnone.1, ?_,
    ((wordOf_local h _).bind fun _ => .pure _).run_eq_none hnone.2.2⟩
  rw [run_bind, stringLiteral_eq_none hc' hword, Option.bind_none]

lemma identifier_begins : Begins OperandAt identifier := wordOf_begins rfl (by decide)

lemma primary_begins : Begins OperandAt (primary p) :=
  .rule (.or (parenthesized_begins.mono fun _ => .group) (.or literal_begins
    (identifier_begins.bind _)))

lemma primary_extends (h : Behind more) (hpq : Operands more ExprAt 0 p q)
    {fits : List Char → Prop} : Extends more fits (primary p) (primary q) := by
  have hhead : Begins (fun cs => ∃ c ∈ cs.head?, isWordChar c = true ∨ c = '"')
      (literal <|> do let x ← identifier; pure (.ok (.name x))) :=
    literal_head.or (.bind ((wordOf_head rfl).mono fun _ ⟨c, hc, hword⟩ => ⟨c, hc, .inl hword⟩) _)
  refine .rule ((parenthesized_extends h hpq).or ((literal_extends h).or
    (.of_local ((wordOf_local h _).bind fun _ => .pure _)) ?_) ?_)
  · intro cs e left hnone hr _ _
    obtain ⟨x, mid, hx, -⟩ := bind_eq_some.mp hr
    obtain ⟨c, hc, hword⟩ := wordOf_head rfl hx
    exact literal_append_eq_none h hc hword hnone
  · intro cs e left _ _ hlong _
    refine parenthesized_begins.run_eq_none fun hopen => ?_
    obtain ⟨c, hc, hstart⟩ := hhead hlong
    cases hopen.symm.trans hc
    exact absurd hstart (by decide)

/-- What an operand that begins with a word leaves is what follows the word. -/
lemma primary_left {cs left : List Char} {e : Denoted Expr} {c : Char} (hc : c ∈ cs.head?)
    (hword : isWordChar c = true) (h : (primary p).run cs = some (e, left)) :
    left = (takeWord cs).2 := by
  have hparen : (parenthesized p).run cs = none := by
    refine parenthesized_begins.run_eq_none fun hopen => ?_
    cases hopen.symm.trans hc
    exact absurd hword (by decide)
  have hwordOf {α : Type} {value? : List Char → Option α} {f : α → Denoted Expr}
      (hr : (do let a ← wordOf value?; pure (f a)).run cs = some (e, left)) :
      left = (takeWord cs).2 := by
    obtain ⟨a, mid, ha, hr⟩ := bind_eq_some.mp hr
    cases hr
    exact (wordOf_eq_some.mp ha).2.symm
  rw [primary, run_rule, run_or, hparen, Option.none_or] at h
  rcases or_eq_some h with h | h
  · rw [literal, run_rule] at h
    rcases or_eq_some h with h | h
    · exact hwordOf h
    rcases or_eq_some h with h | h
    · rw [run_bind, stringLiteral_eq_none hc hword] at h
      cases h
    · exact hwordOf h
  · exact hwordOf h

lemma call_begins : Begins OperandAt (call p) := .rule (identifier_begins.bind _)

lemma call_extends (h : Behind more) (hpq : Operands more ExprAt 0 p q)
    {fits : List Char → Prop} : Extends more fits (call p) (call q) :=
  .rule (.local_bind (wordOf_local h _) fun name => blank_extends
    (brackets_extends h hpq fun args =>
      (.call name) <$> ((args.map Prod.fst).getD []).mapM id) rfl)

/-- The string literal of the head of an arm is an operand, and nothing else of it is. -/
lemma heads_application : Heads (application p) := by
  intro cs r e left hhead hr
  obtain ⟨fields, mid, hfields, harrow, -⟩ := armHead_eq_some.mp hhead
  obtain ⟨rest', rfl⟩ := stringLiteral_begins hfields
  have hword {α : Type} {value? : List Char → Option α} (hnil : value? [] = none) :
      (wordOf value?).run ('"' :: rest') = none := by
    refine (wordOf_head hnil).run_eq_none ?_
    rintro ⟨c, hc, hc'⟩
    cases hc
    exact absurd hc' (by decide)
  have hcall : (call p).run ('"' :: rest') = none := by
    rw [call, run_rule, identifier, run_bind, hword rfl, Option.bind_none]
  have hgroup : (parenthesized p).run ('"' :: rest') = none :=
    parenthesized_begins.run_eq_none (by simp)
  rw [application, run_rule, run_or, hcall, primary, run_rule, run_or, hgroup, Option.none_or,
    Option.none_or, literal, run_or, run_rule, run_or, integer, run_bind, hword rfl,
    Option.bind_none, Option.none_or, run_or, run_bind, hfields] at hr
  cases hr
  exact ⟨_, harrow.symm⟩

/-- A name is a call only if an opening parenthesis follows. -/
lemma application_operands (h : Behind more) (hpq : Operands more ExprAt 0 p q) :
    Operands more OperandAt (Level.product.rank + 1) (application p) (application q) := by
  refine ⟨.rule (call_begins.or primary_begins), .rule (call_begins.or primary_begins),
    heads_application, .rule ((call_extends h hpq).or (primary_extends h hpq) ?_)⟩
  intro cs e left _ hr _ hleft
  refine Option.eq_none_iff_forall_ne_some.mpr fun r hcall => ?_
  rw [call, run_rule] at hcall
  obtain ⟨x, mid, hx, hcall⟩ := bind_eq_some.mp hcall
  rw [run_blank_bind] at hcall
  obtain ⟨u, mid', hopen, -⟩ := bind_eq_some.mp hcall
  have hnext : next mid = some '(' := next_eq_some.mpr ⟨mid', text_eq_some.mp hopen⟩
  rw [identifier_local h] at hx
  obtain ⟨⟨y, mid''⟩, hy, heq⟩ := Option.map_eq_some_iff.mp hx
  cases heq
  obtain ⟨c, hc, hword⟩ := wordOf_head rfl hy
  have hmid : left = mid'' := (primary_left hc hword hr).trans (wordOf_eq_some.mp hy).2
  exact hleft.paren (hmid ▸ hnext)

/-! ## Expressions -/

/-- A text that begins as an operand with signs before it does. -/
def SignedAt (cs : List Char) : Prop :=
  OperandAt cs ∨ ∃ r, unaryOp.run cs = some r

lemma SignedAt.exprAt {cs : List Char} (h : SignedAt cs) : ExprAt cs :=
  h.imp_right .inl

lemma SignedAt.notOp_eq_none {cs : List Char} (h : SignedAt cs) : notOp.run cs = none := by
  rcases h with h | ⟨r, hr⟩
  · exact h.notOp_eq_none
  · exact notOp_eq_none_of_unaryOp hr

lemma disjunction_operands (h : Behind more) (hpq : Operands more ExprAt 0 p q) :
    Operands more ExprAt 0 (disjunction p) (disjunction q) := by
  have hsigned : ∀ cs, SignedAt cs → ExprAt cs := fun _ => SignedAt.exprAt
  have hexpr : ∀ cs, SignedAt cs ∨ (∃ r, notOp.run cs = some r) → ExprAt cs := fun _ hcs =>
    hcs.elim SignedAt.exprAt fun hnot => .inr (.inr hnot)
  have hoperand : Operands more SignedAt 9 (signedOperand p) (signedOperand q) :=
    prefixed_operands (unaryOp_local h) (fun _ => rfl) OperandAt.unaryOp_eq_none hsigned
      (application_operands h hpq)
  have hproduct := chain_operands h hsigned .product hoperand
  have hsum := chain_operands h hsigned .sum hproduct
  have hshift := chain_operands h hsigned .shift hsum
  have hbitAnd := chain_operands h hsigned .bitAnd hshift
  have hbitXor := chain_operands h hsigned .bitXor hbitAnd
  have hbitOr := chain_operands h hsigned .bitOr hbitXor
  have hcomparison := comparison_operands h hsigned hbitOr
  have hprefixed : Operands more _ 2 (prefixed notOp .unary _) (prefixed notOp .unary _) :=
    prefixed_operands (notOp_local h) (fun _ => rfl) SignedAt.notOp_eq_none hexpr hcomparison
  have hnot : Operands more ExprAt 2 _ _ :=
    ⟨hprefixed.begins.mono hexpr, hprefixed.begins_more.mono hexpr, hprefixed.heads_more,
      hprefixed.reads⟩
  have hand := chain_operands h (fun _ => id) .and hnot
  exact chain_operands h (fun _ => id) .or hand

/-- Where nothing is read, there is nothing to know. -/
lemma nothing_operands (hq : Begins ExprAt q) (hheads : Heads q) :
    Operands more ExprAt n nothing q where
  begins _ _ hr := by cases hr
  begins_more := hq
  heads_more := hheads
  reads _ _ _ hr := by cases hr

lemma exprWithin_begins_heads (limit : Nat) :
    Begins ExprAt (exprWithin limit) ∧ Heads (exprWithin limit) := by
  induction limit with
  | zero => exact ⟨fun _ _ hr => (by cases hr), fun _ _ _ _ _ hr => (by cases hr)⟩
  | succ limit ih =>
      have hoperands := disjunction_operands .nil (nothing_operands ih.1 ih.2)
      exact ⟨hoperands.begins_more, hoperands.heads_more⟩

lemma exprWithin_begins (limit : Nat) : Begins ExprAt (exprWithin limit) :=
  (exprWithin_begins_heads limit).1

/-- With more turns through parentheses and calls allowed, an expression reads the same. -/
lemma exprWithin_operands (h : Behind more) {limit limit' : Nat} (hlimit : limit ≤ limit') :
    Operands more ExprAt 0 (exprWithin limit) (exprWithin limit') := by
  induction limit generalizing limit' with
  | zero => exact nothing_operands (exprWithin_begins limit') (exprWithin_begins_heads limit').2
  | succ limit ih =>
      obtain ⟨limit', rfl⟩ : ∃ n, limit' = n + 1 := ⟨limit' - 1, by omega⟩
      exact disjunction_operands h (ih (Nat.le_of_succ_le_succ hlimit))

lemma run_expr (cs : List Char) : expr.run cs = (exprWithin (cs.length + 1)).run cs := by
  simp only [run, expr]

/-- An expression is read from a text with more behind it as from the text alone, if no operator
and no parenthesis follows it. -/
theorem expr_operands (h : Behind more) : Operands more ExprAt 0 expr expr where
  begins cs r hr := by
    rw [run_expr] at hr
    exact exprWithin_begins _ hr
  begins_more cs r hr := by
    rw [run_expr] at hr
    exact exprWithin_begins _ hr
  heads_more cs r e left hhead hr := by
    rw [run_expr] at hr
    exact (exprWithin_begins_heads _).2 hhead hr
  reads cs e left hr hleft := by
    have hlimit : cs.length + 1 ≤ (cs ++ more).length + 1 := by simp
    rw [run_expr] at hr ⊢
    exact (exprWithin_operands h hlimit).reads hr hleft

end BitPattern.Grammar
