import BitPattern.Proofs.Grammar.Reread

/-!
# The round trip of renderings

`Expr.parse_toText`: an expression that has been read is rendered and read again from its rendering
if and only if its integers are short and its negations loose.  The proof is an induction on the
expression; `Reread` has the cases of operators and signs, and here are those of calls and tuples,
whose renderings hold a list.
-/

namespace BitPattern.Grammar

open BitPattern.Text Reader

variable {e f : Expr} {es : List Expr} {rest left : List Char}

/-! ## Lists -/

lemma moreChars_cons (f : Expr) (es : List Expr) (rest : List Char) :
    moreChars (f :: es) ++ rest = ',' :: ' ' :: (chars f ++ (moreChars es ++ rest)) := by
  simp [moreChars]

lemma length_le_moreChars (es : List Expr) : es.length ≤ (moreChars es).length := by
  induction es with
  | nil => exact Nat.le_refl _
  | cons f es ih =>
      rw [moreChars, List.flatMap_cons, ← moreChars]
      simp only [List.length_cons, List.length_append]
      omega

lemma next_more (es : List Expr) (rest : List Char) :
    next (moreChars es ++ ')' :: rest) = some ')' ∨
      next (moreChars es ++ ')' :: rest) = some ',' := by
  cases es with
  | nil => exact .inl rfl
  | cons f es => exact .inr rfl

lemma follows_more (es : List Expr) (rest : List Char) : Follows (moreChars es ++ ')' :: rest) := by
  cases es with
  | nil => exact .close rest
  | cons f es =>
      rw [moreChars_cons]
      exact .comma _

lemma halts_more (es : List Expr) (rest : List Char) : Halts (moreChars es ++ ')' :: rest) := by
  rcases next_more es rest with h | h
  · exact halts_of_ends (ends_of_next_eq h (by decide))
  · exact halts_of_ends (ends_of_next_eq h (by decide))

/-- The next expression of a list. -/
lemma nextItem_more (hf : Sound f) (es : List Expr) (rest : List Char) :
    (nextItem expr).run (moreChars (f :: es) ++ ')' :: rest) =
      expr.run (chars f ++ (moreChars es ++ ')' :: rest)) := by
  have hskip : skipBlank false (' ' :: (chars f ++ (moreChars es ++ ')' :: rest))) =
      chars f ++ (moreChars es ++ ')' :: rest) :=
    (exprAt_chars hf (follows_more es rest)).skipBlank_eq
  have hcomma (cs : List Char) : skipBlank false (',' :: cs) = ',' :: cs := rfl
  have htext (cs : List Char) : (text ",").run (',' :: cs) = some ((), cs) := text_eq_some.mpr rfl
  rw [moreChars_cons, nextItem, run_rule, run_blank_bind, hcomma, run_bind, htext, Option.bind_some,
    run_blank_bind, hskip]

/-- The rest of a list is read if all negations in it are loose. -/
lemma row_more (hsound : ∀ f ∈ es, Sound f) (h : ∀ f ∈ es, Regroups f)
    (hloose : ∀ f ∈ es, f.NegationsLoose) (rest : List Char) :
    Row (nextItem expr) (moreChars es ++ ')' :: rest) (es.map .ok) (')' :: rest) := by
  induction es with
  | nil => exact .nil _
  | cons f es ih =>
      obtain ⟨hf, hsound⟩ := List.forall_mem_cons.mp hsound
      obtain ⟨hfread, h⟩ := List.forall_mem_cons.mp h
      obtain ⟨hfloose, hloose⟩ := List.forall_mem_cons.mp hloose
      have hread := (hfread.whole (follows_more es rest) (halts_more es rest)).reads hfloose
      exact .cons ((nextItem_more hf es rest).trans hread) (ih hsound h hloose)

/-- Neither the parenthesis that closes a list follows, nor a comma before it. -/
def Astray (left : List Char) : Prop :=
  next left ≠ some ')' ∧ ∀ left', skipBlank false left = ',' :: left' → next left' ≠ some ')'

lemma astray_paren (h : next left = some '(') : Astray left := by
  refine ⟨by rw [h]; decide, fun left' hleft => ?_⟩
  cases h.symm.trans (next_eq_some.mpr ⟨left', hleft⟩)

lemma astray_more (hf : Sound f) (es : List Expr) (rest : List Char) :
    Astray (moreChars (f :: es) ++ ')' :: rest) := by
  rw [moreChars_cons]
  refine ⟨fun h => (by cases h), fun left' hleft hnext => ?_⟩
  cases hleft
  obtain ⟨c, hc, hstart⟩ := (exprAt_chars hf (follows_more es rest)).next_eq
  cases hc.symm.trans hnext
  exact absurd hstart (by decide)

/-- What is read of the rest of a list is all of it, or does not come to the end of the list. -/
lemma row_lands (hsound : ∀ f ∈ es, Sound f) (h : ∀ f ∈ es, Regroups f)
    {ds : List (Denoted Expr)}
    (hrow : Row (nextItem expr) (moreChars es ++ ')' :: rest) ds left) :
    left = ')' :: rest ∧ ds.length = es.length ∧
      (ds = es.map .ok → ∀ f ∈ es, f.NegationsLoose) ∨ Astray left := by
  -- On the expressions that are still to be read, since every one that is read is behind a comma.
  induction es generalizing ds with
  | nil =>
      obtain ⟨rfl, rfl⟩ := hrow.eq_nil (nextItem_eq_none fun hcomma => by cases hcomma)
      exact .inl ⟨rfl, rfl, fun _ _ hf => absurd hf List.not_mem_nil⟩
  | cons f es ih =>
      obtain ⟨hf, hsound⟩ := List.forall_mem_cons.mp hsound
      obtain ⟨hfread, h⟩ := List.forall_mem_cons.mp h
      cases ds with
      | nil =>
          have hleft : left = moreChars (f :: es) ++ ')' :: rest := by
            cases hrow
            rfl
          rw [hleft]
          exact .inr (astray_more hf es rest)
      | cons d ds =>
          obtain ⟨mid, hd, hrow⟩ := hrow.of_cons
          rw [nextItem_more hf] at hd
          rcases (hfread.whole (follows_more es rest) (halts_more es rest)).lands d mid hd with
            hparen | ⟨rfl, hshown, -⟩
          · -- The next one takes its text for a call, and the list cannot be closed behind it.
            have hnone : (nextItem expr).run mid = none :=
              nextItem_eq_none (by rw [hparen]; decide)
            obtain ⟨-, rfl⟩ := hrow.eq_nil hnone
            exact .inr (astray_paren hparen)
          · refine (ih hsound h hrow).imp_left fun ⟨hleft, hlength, hloose⟩ =>
              ⟨hleft, congrArg Nat.succ hlength, fun hds => ?_⟩
            obtain ⟨hd, hds⟩ := List.cons.inj hds
            exact List.forall_mem_cons.mpr ⟨hshown hd, hloose hds⟩

/-- A list of expressions is read if all negations in it are loose. -/
lemma items_list (hsound : ∀ g ∈ f :: es, Sound g) (h : ∀ g ∈ f :: es, Regroups g)
    (hloose : ∀ g ∈ f :: es, g.NegationsLoose) (rest : List Char) :
    (items expr).run (listChars (f :: es) ++ ')' :: rest) =
      some (((f :: es).map .ok, false), ')' :: rest) := by
  obtain ⟨hfread, hread⟩ := List.forall_mem_cons.mp h
  have hfirst := (hfread.whole (follows_more es rest) (halts_more es rest)).reads
    (hloose f (.head _))
  have hlength : (es.map Except.ok : List (Denoted Expr)).length ≤
      (moreChars es ++ ')' :: rest).length := by
    rw [List.length_map, List.length_append]
    exact Nat.le_add_right_of_le (length_le_moreChars es)
  rw [listChars, List.append_assoc]
  exact items_reads hfirst (row_more (fun g hg => hsound g (.tail _ hg)) hread
    (fun g hg => hloose g (.tail _ hg)) rest) hlength

/-- What is read of a list up to a closing parenthesis is all of it. -/
lemma items_lands (hsound : ∀ g ∈ f :: es, Sound g) (h : ∀ g ∈ f :: es, Regroups g)
    {r : List (Denoted Expr) × Bool} {mid : List Char}
    (hitems : (items expr).run (listChars (f :: es) ++ ')' :: rest) = some (r, mid))
    (hmid : skipBlank false mid = ')' :: left) :
    left = rest ∧ r.2 = false ∧ r.1.length = (f :: es).length ∧
      (r.1 = (f :: es).map .ok → ∀ g ∈ f :: es, g.NegationsLoose) := by
  obtain ⟨hfread, hread⟩ := List.forall_mem_cons.mp h
  rw [listChars, List.append_assoc] at hitems
  obtain ⟨d, mid', ds, mid'', hd, hrow, hr, hend⟩ := items_eq_some hitems
  -- The list has come to its end if a closing parenthesis follows, with a comma before it or not.
  have hastray : ¬Astray mid'' := by
    intro hastray
    rcases hend with ⟨rfl, -⟩ | ⟨hcomma, -⟩
    · exact hastray.1 (next_eq_some.mpr ⟨left, hmid⟩)
    · exact hastray.2 mid hcomma (next_eq_some.mpr ⟨left, hmid⟩)
  rcases (hfread.whole (follows_more es rest) (halts_more es rest)).lands d mid' hd with
    hparen | ⟨rfl, hshown, -⟩
  · obtain ⟨-, rfl⟩ := hrow.eq_nil (nextItem_eq_none (by rw [hparen]; decide))
    exact absurd (astray_paren hparen) hastray
  · obtain ⟨rfl, hlength, hloose⟩ :=
      (row_lands (fun g hg => hsound g (.tail _ hg)) hread hrow).resolve_right hastray
    rcases hend with ⟨rfl, hsingle⟩ | ⟨hcomma, -⟩
    · cases hmid
      refine ⟨rfl, hsingle, hr ▸ congrArg Nat.succ hlength, fun hes => ?_⟩
      rw [hr] at hes
      obtain ⟨hd, hds⟩ := List.cons.inj hes
      exact List.forall_mem_cons.mpr ⟨hshown hd, hloose hds⟩
    · cases hcomma

lemma exprAt_list (hf : Sound f) (es : List Expr) (rest : List Char) :
    ExprAt (listChars (f :: es) ++ ')' :: rest) := by
  rw [listChars, List.append_assoc]
  exact exprAt_chars hf (follows_more es rest)

/-! ## Calls and tuples -/

lemma shown_list {make : List Expr → Expr} {ds : List (Denoted Expr)} {args : List Expr}
    (hmake : Function.Injective make) (hint : ∀ es n, make es ≠ .int n)
    (hloose : ds = args.map .ok → (make args).NegationsLoose) :
    Shown (make args) (make <$> ds.mapM id) := by
  refine ⟨fun hd => ?_, fun n hd => ?_⟩
  · obtain ⟨es, hes, heq⟩ := result_map_eq_ok.mp hd
    obtain rfl := hmake heq
    exact hloose (result_mapM_id_eq_ok.mp hes)
  · obtain ⟨es, -, heq⟩ := result_map_eq_ok.mp hd
    exact absurd heq (hint es n)

lemma map_mapM_ok (make : List Expr → Expr) (es : List Expr) :
    make <$> (es.map Except.ok : List (Denoted Expr)).mapM id = .ok (make es) :=
  result_map_eq_ok.mpr ⟨es, result_mapM_id_eq_ok.mpr rfl, rfl⟩

/-- A list in parentheses: what its brackets are read as. -/
lemma brackets_list {make : List Expr → Expr} {args : List Expr}
    {g : Option (List (Denoted Expr) × Bool) → Denoted Expr} (hmake : Function.Injective make)
    (hint : ∀ es n, make es ≠ .int n)
    (hloose : (make args).NegationsLoose ↔ ∀ f ∈ args, f.NegationsLoose)
    (hsound : ∀ f ∈ args, Sound f) (h : ∀ f ∈ args, Regroups f)
    (hnone : args = [] → g none = .ok (make []))
    (hsome : ∀ ds, ds.length = args.length → g (some (ds, false)) = make <$> ds.mapM id)
    (rest : List Char) :
    ((make args).NegationsLoose → (brackets expr g).run ('(' :: (listChars args ++ ')' :: rest)) =
        some (.ok (make args), rest)) ∧
      ∀ d left, (brackets expr g).run ('(' :: (listChars args ++ ')' :: rest)) = some (d, left) →
        left = rest ∧ Shown (make args) d := by
  cases args with
  | nil =>
      have hread : (brackets expr g).run ('(' :: (listChars [] ++ ')' :: rest)) =
          some (.ok (make []), rest) := (brackets_empty rest).trans (by rw [hnone rfl])
      refine ⟨fun _ => hread, fun d left hr => ?_⟩
      cases hread.symm.trans hr
      refine ⟨rfl, fun _ => hloose.mpr fun _ hf => absurd hf List.not_mem_nil, fun n hd => ?_⟩
      exact Except.ok.inj hd
  | cons f args =>
      have hbegins := exprAt_list (hsound f (.head _)) args rest
      refine ⟨fun hl => ?_, fun d left hr => ?_⟩
      · have hitems := items_list hsound h (hloose.mp hl) rest
        rw [brackets_reads hbegins hitems, hsome _ (List.length_map _), map_mapM_ok]
      · obtain ⟨⟨ds, trailing⟩, mid, hitems, hmid, rfl⟩ := brackets_eq_some hbegins hr
        obtain ⟨rfl, rfl, hlength, hall⟩ := items_lands hsound h hitems hmid
        rw [hsome ds hlength]
        exact ⟨rfl, shown_list hmake hint fun hds => hloose.mpr (hall hds)⟩

/-- A call. -/
lemma Regroups.of_call {function : String} {args : List Expr}
    (he : (Expr.call function args).Everywhere Sound) (h : ∀ f ∈ args, Regroups f) :
    Regroups (.call function args) := by
  have hsound : ∀ f ∈ args, Sound f := fun f hf => Expr.Everywhere.self (he.member hf)
  refine .of_operand he.self rfl fun rest hrest => ?_
  have hname : identifier.run (function.toList ++ '(' :: (listChars args ++ ')' :: rest)) =
      some (function, '(' :: (listChars args ++ ')' :: rest)) := by
    refine identifier_name he.self.1 ?_
    rintro c ⟨⟩
    decide
  have hat : OperandAt (function.toList ++ '(' :: (listChars args ++ ')' :: rest)) :=
    identifier_begins hname
  have hcall : (call expr).run (function.toList ++ '(' :: (listChars args ++ ')' :: rest)) =
      (brackets expr fun inner => .call function <$> ((inner.map Prod.fst).getD []).mapM id).run
        ('(' :: (listChars args ++ ')' :: rest)) := by
    rw [call, run_rule, run_bind, hname, Option.bind_some, run_blank_bind]
    rfl
  -- Behind the name stands a list in brackets as for a tuple.
  obtain ⟨hreads, hlands⟩ := @brackets_list (Expr.call function) args
    (fun inner => .call function <$> ((inner.map Prod.fst).getD []).mapM id)
    (fun _ _ heq => (Expr.call.inj heq).2) (fun _ _ heq => by cases heq) Expr.loose_call hsound h
    (fun _ => rfl) (fun _ _ => rfl) rest
  refine ⟨fun hloose => ?_, fun d left hr => ?_⟩
  · rw [chars_call, signedOperand_eq hat, application, run_rule, run_or, hcall, hreads hloose,
      Option.some_or]
  · rw [chars_call, signedOperand_eq hat, application, run_rule] at hr
    rcases or_eq_some hr with hr | hr
    · rw [hcall] at hr
      exact .inr (hlands d left hr)
    · -- A call that is not read leaves its name, with the arguments behind it.
      obtain ⟨c, hc, hword⟩ := wordOf_head rfl hname
      have hleft := primary_left hc hword hr
      rw [(wordOf_eq_some.mp hname).2] at hleft
      exact .inl (hleft ▸ rfl)

/-- Parentheses around a list that is no single expression are a tuple. -/
lemma grouped_of_ne {ds : List (Denoted Expr)} (h : ds.length ≠ 1) (trailing : Bool) :
    grouped (some (ds, trailing)) = .tuple <$> ds.mapM id := by
  unfold grouped
  split
  · rename_i heq
    cases heq
  · rename_i heq
    cases heq
    exact absurd rfl h
  · rename_i heq
    cases heq
    rfl

/-- A tuple of one item, which has a comma behind it. -/
lemma rereads_single (hf : Sound f) (h : Regroups f) (rest : List Char) :
    Rereads (signedOperand expr) (.tuple [f]) rest := by
  have hfollows := Follows.comma (')' :: rest)
  have hbegins := exprAt_chars hf hfollows
  have hread := h.whole hfollows (halts_of_ends (ends_of_next_eq rfl (by decide)))
  have hloose : (Expr.tuple [f]).NegationsLoose ↔ f.NegationsLoose := by
    rw [Expr.loose_tuple, List.forall_mem_singleton]
  refine ⟨fun hl => ?_, fun d left hr => .inr ?_⟩
  · have hitems := items_trailing (hread.reads (hloose.mp hl))
    rw [chars_single, signedOperand_paren, brackets_reads hbegins hitems]
    rfl
  · rw [chars_single, signedOperand_paren] at hr
    obtain ⟨⟨ds, trailing⟩, mid, hitems, hmid, rfl⟩ := brackets_eq_some hbegins hr
    obtain ⟨d, mid', ds', mid'', hd, hrow, hds, hend⟩ := items_eq_some hitems
    have hnext : next mid = some ')' := next_eq_some.mpr ⟨left, hmid⟩
    -- What is read first is the item, or a part of it before a parenthesis; only behind the item
    -- does the list close.
    rcases hread.lands d mid' hd with hparen | ⟨rfl, hshown, -⟩
    · obtain ⟨rfl, rfl⟩ := hrow.eq_nil (nextItem_eq_none (by rw [hparen]; decide))
      rcases hend with ⟨rfl, -⟩ | ⟨hcomma, -⟩
      · cases hparen.symm.trans hnext
      · cases hparen.symm.trans (next_eq_some.mpr ⟨_, hcomma⟩)
    · obtain ⟨rfl, rfl⟩ := hrow.eq_nil (nextItem_trailing rest)
      cases hds
      rcases hend with ⟨rfl, -⟩ | ⟨hcomma, htrailing⟩
      · cases hnext
      · cases hcomma
        cases hmid
        cases htrailing
        refine ⟨rfl, @shown_list Expr.tuple [d] [f] (fun _ _ heq => Expr.tuple.inj heq)
          (fun _ _ heq => by cases heq) fun heq => hloose.mpr (hshown (List.cons.inj heq).1)⟩

/-- A tuple. -/
lemma Regroups.of_tuple {items : List Expr} (he : (Expr.tuple items).Everywhere Sound)
    (h : ∀ f ∈ items, Regroups f) : Regroups (.tuple items) := by
  have hsound : ∀ f ∈ items, Sound f := fun f hf => Expr.Everywhere.self (he.member hf)
  refine .of_operand he.self rfl fun rest hrest => ?_
  by_cases hsingle : ∃ f, items = [f]
  · obtain ⟨f, rfl⟩ := hsingle
    exact rereads_single (hsound f (.head _)) (h f (.head _)) rest
  · have hsingle := not_exists.mp hsingle
    obtain ⟨hreads, hlands⟩ := @brackets_list Expr.tuple items grouped
      (fun _ _ heq => Expr.tuple.inj heq) (fun _ _ heq => by cases heq) Expr.loose_tuple hsound h
      (fun _ => rfl) (fun ds hlength => grouped_of_ne (fun hone => by
        obtain ⟨f, hf⟩ := List.length_eq_one_iff.mp (hlength.symm.trans hone)
        exact hsingle f hf) false) rest
    refine ⟨fun hloose => ?_, fun d left hr => ?_⟩
    · rw [chars_tuple hsingle, signedOperand_paren, hreads hloose]
    · rw [chars_tuple hsingle, signedOperand_paren] at hr
      exact .inr (hlands d left hr)

/-! ## Whole renderings -/

lemma Regroups.of_leaf (he : Sound e) (hleaf : e.members = [])
    (h : ∀ rest, Follows rest → (signedOperand expr).run (chars e ++ rest) = some (.ok e, rest)) :
    Regroups e := by
  have hplain : e.bindsNoNegation = true ∧ e.negates = false := by
    cases e <;> first
      | exact ⟨rfl, rfl⟩
      | cases hleaf
  exact .of_operand he hplain.2 fun rest hrest =>
    .of_eq ((Expr.everywhere_leaf hleaf).mpr hplain.1) (h rest hrest)

lemma signedOperand_literal {d : Denoted Expr} {cs : List Char}
    (h : literal.run cs = some (d, left)) : (signedOperand expr).run cs = some (d, left) :=
  (signedOperand_eq (literal_begins h)).trans (application_literal h)

lemma signedOperand_int {n : Int} (h : isWritable n = true) (hrest : Follows rest) :
    (signedOperand expr).run (chars (.int n) ++ rest) = some (.ok (.int n), rest) := by
  by_cases hn : n < 0
  · -- A minus sign before the digits of the absolute value.
    have htext : chars (.int n) ++ rest = '-' :: (chars (.int n.natAbs) ++ rest) := by
      rw [chars_int, if_pos hn, chars_int, if_neg (Int.not_lt.mpr (Int.natCast_nonneg _)),
        Int.natAbs_natCast]
      rfl
    have habs := @literal_nonneg rest n.natAbs h (Int.not_lt.mpr (Int.natCast_nonneg _)) hrest
    have hsign : unaryOp.run ('-' :: (chars (.int n.natAbs) ++ rest)) =
        some (.neg, chars (.int n.natAbs) ++ rest) := rfl
    have hskip : skipBlank false (chars (.int n.natAbs) ++ rest) = chars (.int n.natAbs) ++ rest :=
      ExprAt.skipBlank_eq (.inl (literal_begins habs))
    have hvalue : -(n.natAbs : Int) = n := by omega
    rw [htext, signedOperand_sign hsign, hskip, signedOperand_literal habs, Option.map_some]
    change some ((Except.ok (Expr.int (-(n.natAbs : Int))) : Denoted Expr), rest) = _
    rw [hvalue]
  · exact signedOperand_literal (literal_nonneg h hn hrest)

/-- What the levels make of the rendering of an expression. -/
theorem regroups (he : e.Everywhere Sound) : Regroups e := by
  induction e with
  | int n =>
      exact .of_leaf he.self rfl fun rest hrest => signedOperand_int he.self.2.2 hrest
  | bytes b =>
      exact .of_leaf he.self rfl fun rest _ =>
        signedOperand_literal (literal_bytes he.self.2.1 rest)
  | bool b =>
      exact .of_leaf he.self rfl fun rest hrest =>
        signedOperand_literal (literal_bool b hrest)
  | name x =>
      refine .of_leaf he.self rfl fun rest hrest => ?_
      have hname := identifier_name he.self.1 hrest.word
      exact (signedOperand_eq (identifier_begins hname)).trans (application_name hname hrest.paren)
  | binary op l r ihl ihr =>
      exact .of_binary he (ihl (he.member List.mem_cons_self))
        (ihr (he.member (List.mem_cons_of_mem _ List.mem_cons_self)))
  | unary o f ih =>
      have hf : f.Everywhere Sound := he.member List.mem_cons_self
      by_cases ho : o = .not
      · rw [ho]
        exact (ih hf).of_not hf.self
      · exact (ih hf).of_sign hf.self he.self ho
  | call function args ih => exact .of_call he fun f hf => ih f hf (he.member hf)
  | tuple items ih => exact .of_tuple he fun f hf => ih f hf (he.member hf)

/-! ## Where renderings end -/

/-- The last character of a text is not blank. -/
def EndsVisibly (s : String) : Prop :=
  ∃ c, [c] <:+ s.toList ∧ isBlank c = false

lemma EndsVisibly.behind {s t : String} (h : EndsVisibly t) : EndsVisibly (s ++ t) := by
  obtain ⟨c, hc, hblank⟩ := h
  refine ⟨c, ?_, hblank⟩
  rw [String.toList_append]
  exact hc.trans (List.suffix_append _ _)

lemma endsVisibly_word {s : String} {cs : List Char} (hs : cs <:+ s.toList) (hne : cs ≠ [])
    (h : ∀ c ∈ cs, isWordChar c = true) : EndsVisibly s :=
  ⟨cs.getLast hne, .trans ⟨cs.dropLast, List.dropLast_append_getLast hne⟩ hs,
    isBlank_eq_false (h _ (List.getLast_mem hne))⟩

lemma endsVisibly_toText (he : e.Everywhere Sound) : EndsVisibly e.toText := by
  induction e with
  | int n =>
      have hdigits : Nat.toDigits 10 n.natAbs <:+ (decimal n).toList :=
        toList_decimal n ▸ List.suffix_append _ _
      refine endsVisibly_word hdigits Nat.toDigits_ne_nil fun c hc => ?_
      exact isWordChar_iff.mpr (.inl (Nat.isDigit_of_mem_toDigits (by decide) (by decide) hc))
  | bytes b =>
      refine ⟨'"', ?_, rfl⟩
      change ['"'] <:+ (literalText b).toList
      rw [toList_literalText he.self.2.1, ← List.cons_append]
      exact List.suffix_append _ _
  | bool b =>
      cases b
      · exact ⟨'e', ⟨"fals".toList, rfl⟩, rfl⟩
      · exact ⟨'e', ⟨"tru".toList, rfl⟩, rfl⟩
  | name x =>
      obtain ⟨-, hword⟩ := wordOf_eq_some.mp he.self.1
      rw [takeWord_eq] at hword
      obtain ⟨c, rest, hcons, -⟩ := (identifier_begins he.self.1).cons
      exact endsVisibly_word (List.suffix_refl _) (hcons ▸ List.cons_ne_nil _ _)
        (List.dropWhile_eq_nil_iff.mp hword)
  | binary op l r => exact .behind ⟨')', List.suffix_refl _, rfl⟩
  | unary o f ih =>
      have hf := ih (he.member List.mem_cons_self)
      cases o <;> exact .behind hf
  | call function args => exact .behind ⟨')', List.suffix_refl _, rfl⟩
  | tuple items =>
      by_cases hsingle : ∃ f, items = [f]
      · obtain ⟨f, rfl⟩ := hsingle
        exact .behind (t := ",)") ⟨')', ⟨[','], rfl⟩, rfl⟩
      · rw [toText_tuple (not_exists.mp hsingle)]
        exact .behind ⟨')', List.suffix_refl _, rfl⟩

lemma stripChars_chars (he : e.Everywhere Sound) : stripChars (chars e) = chars e := by
  refine stripChars_eq_self (fun c hc => ?_) fun c hc => ?_
  · obtain ⟨d, rest, hcons, hblank, -⟩ := (exprAt_chars he.self .nil).cons_plain
    rw [List.append_nil] at hcons
    rw [hcons] at hc
    cases hc
    exact hblank
  · obtain ⟨d, ⟨cs, hcs⟩, hblank⟩ := endsVisibly_toText he
    rw [chars, ← hcs, List.getLast?_concat] at hc
    cases hc
    exact hblank

end BitPattern.Grammar

namespace BitPattern

open Grammar Text

namespace Expr

/-- **Renderings.** An expression is rendered, and its rendering parses to the expression, if and
only if its integers are short enough to be written and no negation is an operand of a sign or of
an operator other than a conjunction or disjunction: such a negation would need parentheses, which
the rendering does not have. -/
theorem parse_toText {text : String} {e : Expr} (h : Expr.parse text = .ok e)
    (hbytes : e.Everywhere PlainBytes) :
    (∃ t, e.written = .ok t ∧ Expr.parse t = .ok e) ↔ e.isWritable = true ∧ e.NegationsLoose := by
  simp only [written_eq_ok, and_assoc, exists_and_left, exists_eq_left']
  refine and_congr_right fun hwritable => ?_
  have hwritten : e.Everywhere Written := expr_gives (Expr.parse_eq_ok.mp h) e rfl
  have hsound : e.Everywhere Sound := hwritten.and (hbytes.and (isWritable_iff.mp hwritable))
  have hread := (regroups hsound).whole .nil (halts_of_ends (ends_of_next fun c hc => by cases hc))
  rw [Expr.parse_eq_ok]
  change expr.run (stripChars (chars e)) = some (.ok e, []) ↔ _
  rw [stripChars_chars hsound, ← List.append_nil (chars e)]
  constructor
  · -- What is read of the rendering to its end shows whether negations are loose.
    intro hrun
    rcases hread.lands _ _ hrun with hparen | ⟨-, hshown, -⟩
    · cases hparen
    · exact hshown rfl
  · exact hread.reads

/-- The negation of a comparison, with a negative number in a call and a string literal. -/
theorem parse_toText_comparison : ∃ e, Expr.parse "not f(-1) == \"a\"" = .ok e ∧
    e.Everywhere PlainBytes ∧ e.isWritable = true ∧ e.NegationsLoose ∧
    ∃ t, e.written = .ok t ∧ Expr.parse t = .ok e := by
  have hparse : Expr.parse "not f(-1) == \"a\"" =
      .ok (.unary .not (.binary .eq (.call "f" [.int (-1)]) (.bytes [97]))) := by
    decide +kernel
  have hbytes : (Expr.unary .not
      (.binary .eq (.call "f" [.int (-1)]) (.bytes [97]))).Everywhere PlainBytes := by
    simp [PlainBytes, isPlainByte]
  have hwritable : (Expr.unary .not
      (.binary .eq (.call "f" [.int (-1)]) (.bytes [97]))).isWritable = true := by
    decide
  have hloose : (Expr.unary .not
      (.binary .eq (.call "f" [.int (-1)]) (.bytes [97]))).NegationsLoose := by
    simp [bindsNoNegation, negates]
  exact ⟨_, hparse, hbytes, hwritable, hloose, (parse_toText hparse hbytes).mpr
    ⟨hwritable, hloose⟩⟩

/-- A negation that is the first operand of a sum takes the rest of its rendering along. -/
theorem parse_toText_sum :
    Expr.parse "(not x) + 1" = .ok (.binary .add (.unary .not (.name "x")) (.int 1)) ∧
      Expr.parse (Expr.binary .add (.unary .not (.name "x")) (.int 1)).toText =
        .ok (.unary .not (.binary .add (.name "x") (.int 1))) := by
  constructor <;> decide +kernel

end Expr

end BitPattern
