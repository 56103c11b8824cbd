import BitPattern.Proofs.Grammar.Rendered

/-!
# Renderings that are read again

A rendering has parentheses around the operands of every operator, but none around a negation, and
a negation is read below the conjunctions only.  So a negation that is an operand of a tighter
operator or of a sign is lost: it takes the operator along, or it is not read at all.
`Expr.NegationsLoose` says that there is none such.

`Regroups e` is what each group of levels makes of the rendering of `e`, whatever stands behind it.
Renderings with tied negations are a part of it, because the rendering of an expression around one
must not be read as that expression either: what is read of it ends elsewhere, or shows a tree that
is not the one rendered (`Shown`).
-/

namespace BitPattern

/-! ## Negations -/

namespace Expr

/-- A negation. -/
def negates : Expr → Bool
  | unary .not _ => true
  | _ => false

lemma negates_iff {e : Expr} : e.negates = true ↔ ∃ f, e = .unary .not f := by
  constructor
  · intro h
    unfold negates at h
    split at h
    · exact ⟨_, rfl⟩
    · cases h
  · rintro ⟨f, rfl⟩
    rfl

/-- No negation is an operand, unless of another negation, a conjunction or a disjunction. -/
def bindsNoNegation : Expr → Bool
  | binary op left right => op.joins || (!left.negates && !right.negates)
  | unary op operand => op == .not || !operand.negates
  | _ => true

/-- Negations stand only where they need no parentheses. -/
abbrev NegationsLoose (e : Expr) : Prop :=
  e.Everywhere fun e => e.bindsNoNegation = true

lemma loose_binary {op : BinOp} {l r : Expr} : (binary op l r).NegationsLoose ↔
    (op.joins = true ∨ l.negates = false ∧ r.negates = false) ∧
      l.NegationsLoose ∧ r.NegationsLoose :=
  everywhere_binary.trans (and_congr_left' (by simp [bindsNoNegation]))

lemma loose_unary {o : UnOp} {f : Expr} : (unary o f).NegationsLoose ↔
    (o = .not ∨ f.negates = false) ∧ f.NegationsLoose :=
  everywhere_unary.trans (and_congr_left' (by simp [bindsNoNegation]))

lemma loose_call {function : String} {args : List Expr} : (call function args).NegationsLoose ↔
    ∀ f ∈ args, f.NegationsLoose :=
  everywhere_call.trans (and_iff_right rfl)

lemma loose_tuple {items : List Expr} : (tuple items).NegationsLoose ↔
    ∀ f ∈ items, f.NegationsLoose :=
  everywhere_tuple.trans (and_iff_right rfl)

/-- The bytes of a string literal are plain characters. -/
def PlainBytes : Expr → Prop
  | bytes b => ∀ byte ∈ b, Grammar.isPlainByte byte = true
  | _ => True

/-- An integer is short enough to be written. -/
def ShortInt : Expr → Prop
  | int n => Text.isWritable n = true
  | _ => True

lemma isWritable_iff {e : Expr} : e.isWritable = true ↔ e.Everywhere ShortInt := by
  have hall {es : List Expr} (ih : ∀ e ∈ es, e.isWritable = true ↔ e.Everywhere ShortInt) :
      areWritable es = true ↔ ∀ e ∈ es, e.Everywhere ShortInt := by
    induction es with
    | nil => simp [areWritable]
    | cons e es ihes =>
        obtain ⟨he, hes⟩ := List.forall_mem_cons.mp ih
        rw [areWritable, Bool.and_eq_true, he, ihes hes, List.forall_mem_cons]
  induction e with
  | int n => rw [isWritable, everywhere_int, ShortInt]
  | bytes | bool | name => simp [isWritable, ShortInt]
  | binary op l r ihl ihr => simp [isWritable, ShortInt, ihl, ihr]
  | unary o f ih => simp [isWritable, ShortInt, ih]
  | call function args ih => simp [isWritable, ShortInt, hall ih]
  | tuple items ih => simp [isWritable, ShortInt, hall ih]

lemma written_eq_ok {e : Expr} {t : String} :
    e.written = .ok t ↔ e.isWritable = true ∧ e.toText = t := by
  unfold written
  split
  · rename_i h
    exact ⟨fun heq => ⟨h, Except.ok.inj heq⟩, fun heq => congrArg Except.ok heq.2⟩
  · rename_i h
    exact ⟨fun heq => (by cases heq), fun heq => absurd heq.1 h⟩

end Expr

namespace Grammar

open BitPattern.Text Reader

variable {e f : Expr} {op : BinOp} {rest ds : List Char}

/-- An expression as it is read, with plain characters in its string literals and integers that are
short enough to be written. -/
def Sound (e : Expr) : Prop :=
  Written e ∧ e.PlainBytes ∧ e.ShortInt

/-! ## Renderings -/

/-- The characters of a rendering. -/
def chars (e : Expr) : List Char :=
  e.toText.toList

/-- The expressions behind the first one of a list. -/
def moreChars (es : List Expr) : List Char :=
  es.flatMap fun e => ',' :: ' ' :: chars e

/-- A list of expressions. -/
def listChars : List Expr → List Char
  | [] => []
  | e :: es => chars e ++ moreChars es

lemma toList_textsOf (es : List Expr) :
    (", ".intercalate (Expr.textsOf es)).toList = listChars es := by
  have htexts (es : List Expr) : Expr.textsOf es = es.map Expr.toText := by
    induction es with
    | nil => rfl
    | cons e es ih => rw [Expr.textsOf, ih, List.map_cons]
  cases es with
  | nil => rfl
  | cons e es =>
      rw [htexts, List.map_cons, toList_intercalate_cons, List.flatMap_map]
      rfl

/-- The minus sign, if there is one, and the digits. -/
lemma chars_int (n : Int) :
    chars (.int n) = (if n < 0 then ['-'] else []) ++ Nat.toDigits 10 n.natAbs :=
  toList_decimal n

lemma chars_binary (op : BinOp) (l r : Expr) (rest : List Char) :
    chars (.binary op l r) ++ rest = '(' :: (chars l ++ between op (chars r ++ ')' :: rest)) := by
  change ("(" ++ l.toText ++ " " ++ op.spelling ++ " " ++ r.toText ++ ")").toList ++ rest = _
  simp [chars, between]

lemma chars_negative (f : Expr) (rest : List Char) :
    chars (.unary .neg f) ++ rest = '-' :: (chars f ++ rest) := by
  change ("-" ++ f.toText).toList ++ rest = _
  simp [chars]

lemma chars_complement (f : Expr) (rest : List Char) :
    chars (.unary .complement f) ++ rest = "lnot".toList ++ ' ' :: (chars f ++ rest) := by
  change ("lnot" ++ " " ++ f.toText).toList ++ rest = _
  simp [chars]

lemma chars_not (f : Expr) (rest : List Char) :
    chars (.unary .not f) ++ rest = "not".toList ++ ' ' :: (chars f ++ rest) := by
  change ("not" ++ " " ++ f.toText).toList ++ rest = _
  simp [chars]

lemma chars_call (function : String) (args : List Expr) (rest : List Char) :
    chars (.call function args) ++ rest =
      function.toList ++ '(' :: (listChars args ++ ')' :: rest) := by
  change (function ++ "(" ++ ", ".intercalate (Expr.textsOf args) ++ ")").toList ++ rest = _
  simp only [String.toList_append, toList_textsOf, List.append_assoc]
  rfl

lemma chars_single (f : Expr) (rest : List Char) :
    chars (.tuple [f]) ++ rest = '(' :: (chars f ++ ',' :: ')' :: rest) := by
  change ("(" ++ f.toText ++ ",)").toList ++ rest = _
  simp [chars]

lemma toText_tuple {items : List Expr} (h : ∀ f, items ≠ [f]) :
    (Expr.tuple items).toText = "(" ++ ", ".intercalate (Expr.textsOf items) ++ ")" := by
  cases items with
  | nil => rfl
  | cons f items =>
      cases items with
      | nil => exact absurd rfl (h f)
      | cons g items => rfl

lemma chars_tuple {items : List Expr} (h : ∀ f, items ≠ [f]) (rest : List Char) :
    chars (.tuple items) ++ rest = '(' :: (listChars items ++ ')' :: rest) := by
  simp only [chars, toText_tuple h, String.toList_append, toList_textsOf, List.append_assoc]
  rfl

/-! ## How renderings begin -/

lemma literal_integer {d : Denoted Int} {cs left : List Char}
    (h : integer.run cs = some (d, left)) : literal.run cs = some (.int <$> d, left) := by
  rw [literal, run_rule, run_or, run_bind, h]
  rfl

lemma literal_string {d : Denoted (List UInt8)} {cs left : List Char}
    (h : stringLiteral.run cs = some (d, left)) : literal.run cs = some (.bytes <$> d, left) := by
  obtain ⟨rest, rfl⟩ := stringLiteral_begins h
  have hinteger : integer.run ('"' :: rest) = none := rfl
  rw [literal, run_rule, run_or, run_bind, hinteger, Option.bind_none, Option.none_or, run_or,
    run_bind, h]
  rfl

lemma literal_nonneg {n : Int} (h : isWritable n = true) (hn : ¬n < 0) (hrest : Follows rest) :
    literal.run (chars (.int n) ++ rest) = some (.ok (.int n), rest) := by
  have htext : chars (.int n) = Nat.toDigits 10 n.natAbs := by
    rw [chars_int, if_neg hn, List.nil_append]
  have hinteger := wordOf_append (integer_toDigits (n := n.natAbs) h) hrest.word
  have hvalue : (n.natAbs : Int) = n := Int.natAbs_of_nonneg (Int.not_lt.mp hn)
  rw [hvalue] at hinteger
  rw [htext]
  exact literal_integer hinteger

lemma literal_bytes {b : List UInt8} (hb : (Expr.bytes b).PlainBytes) (rest : List Char) :
    literal.run (chars (.bytes b) ++ rest) = some (.ok (.bytes b), rest) :=
  literal_string (stringLiteral_literalText hb rest)

lemma literal_bool (b : Bool) (hrest : Follows rest) :
    literal.run (chars (.bool b) ++ rest) = some (.ok (.bool b), rest) := by
  have hword : ∀ c ∈ chars (.bool b), isWordChar c = true := by
    have htrue : "true".toList.all isWordChar = true := by decide
    have hfalse : "false".toList.all isWordChar = true := by decide
    cases b
    · exact List.all_eq_true.mp hfalse
    · exact List.all_eq_true.mp htrue
  have hinteger : integer.run (chars (.bool b) ++ rest) = none := by
    rw [integer, run_wordOf_append _ hword hrest.word]
    cases b <;> rfl
  have hstring : stringLiteral.run (chars (.bool b) ++ rest) = none := by
    obtain ⟨c, hc⟩ : ∃ c, (chars (.bool b)).head? = some c := by cases b <;> exact ⟨_, rfl⟩
    obtain ⟨cs, hcs⟩ := List.head?_eq_some_iff.mp hc
    exact stringLiteral_eq_none (by rw [hcs]; rfl) (hword c (hcs ▸ .head _))
  have hboolean : boolean.run (chars (.bool b) ++ rest) = some (b, rest) := by
    rw [boolean, run_wordOf_append _ hword hrest.word]
    cases b <;> rfl
  rw [literal, run_rule, run_or, run_bind, hinteger, Option.bind_none, Option.none_or, run_or,
    run_bind, hstring, Option.bind_none, Option.none_or, run_bind, hboolean]
  rfl

lemma identifier_name {x : String} (hx : IsName x)
    (hrest : ∀ c ∈ rest.head?, isWordChar c = false) :
    identifier.run (x.toList ++ rest) = some (x, rest) :=
  wordOf_append hx hrest

/-- A rendering begins as an operand does, or as a negation. -/
lemma signedAt_chars (he : Sound e) (hn : e.negates = false) (hrest : Follows rest) :
    SignedAt (chars e ++ rest) := by
  cases e with
  | int n =>
      by_cases hn : n < 0
      · right
        have htext : chars (.int n) = '-' :: Nat.toDigits 10 n.natAbs := by
          rw [chars_int, if_pos hn]
          rfl
        rw [htext]
        exact ⟨_, rfl⟩
      · exact .inl (literal_begins (literal_nonneg he.2.2 hn hrest))
  | bytes b => exact .inl (literal_begins (literal_bytes he.2.1 rest))
  | bool b => exact .inl (literal_begins (literal_bool b hrest))
  | name x => exact .inl (identifier_begins (identifier_name he.1 hrest.word))
  | binary op l r =>
      rw [chars_binary]
      exact .inl (.group rfl)
  | unary o f =>
      cases o with
      | neg =>
          rw [chars_negative]
          exact .inr ⟨_, rfl⟩
      | complement =>
          rw [chars_complement]
          exact .inr ⟨_, rfl⟩
      | not => cases hn
  | call function args =>
      rw [chars_call]
      refine .inl (identifier_begins (identifier_name he.1 ?_))
      rintro c ⟨⟩
      decide
  | tuple items =>
      by_cases hsingle : ∃ f, items = [f]
      · obtain ⟨f, rfl⟩ := hsingle
        rw [chars_single]
        exact .inl (.group rfl)
      · rw [chars_tuple (not_exists.mp hsingle)]
        exact .inl (.group rfl)

lemma exprAt_chars (he : Sound e) (hrest : Follows rest) : ExprAt (chars e ++ rest) := by
  by_cases hn : e.negates = true
  · obtain ⟨f, rfl⟩ := Expr.negates_iff.mp hn
    rw [chars_not]
    exact .inr (.inr ⟨_, rfl⟩)
  · exact (signedAt_chars he (Bool.eq_false_iff.mpr hn) hrest).exprAt

/-! ## Reading again -/

/-- What is read of a rendering shows whether negations are loose, and is a number only if the
expression is. -/
def Shown (e : Expr) (d : Denoted Expr) : Prop :=
  (d = .ok e → e.NegationsLoose) ∧ ∀ n, d = .ok (.int n) → e = .int n

lemma Shown.map {d : Denoted Expr} {make : Expr → Expr} (h : Shown f d)
    (hmake : ∀ f', make f' = e → f' = f) (hloose : f.NegationsLoose → e.NegationsLoose)
    (hint : ∀ f' n, d = .ok f' → make f' ≠ .int n) : Shown e (make <$> d) := by
  refine ⟨fun hd => ?_, fun n hd => ?_⟩
  · obtain ⟨f', hf', heq⟩ := result_map_eq_ok.mp hd
    exact hloose (h.1 (hmake f' heq ▸ hf'))
  · obtain ⟨f', hf', heq⟩ := result_map_eq_ok.mp hd
    exact absurd heq (hint f' n hf')

lemma joinOperands_eq_ok {first : Denoted Expr} {tail : BinOp × Denoted Expr} {e : Expr} :
    joinOperands first tail = .ok e ↔
      ∃ a, first = .ok a ∧ ∃ b, tail.2 = .ok b ∧ .binary tail.1 a b = e := by
  simp only [joinOperands, result_bind_eq_ok]
  refine exists_congr fun a => and_congr_right fun _ => exists_congr fun b =>
    and_congr_right fun _ => ?_
  exact ⟨Except.ok.inj, congrArg Except.ok⟩

lemma Shown.join {l r : Expr} {d d' : Denoted Expr} (hl : Shown l d) (hr : Shown r d')
    (hbinds : op.joins = true ∨ l.negates = false ∧ r.negates = false) :
    Shown (.binary op l r) (joinOperands d (op, d')) := by
  refine ⟨fun hd => ?_, fun n hd => ?_⟩
  · obtain ⟨a, rfl, b, rfl, heq⟩ := joinOperands_eq_ok.mp hd
    cases heq
    exact Expr.loose_binary.mpr ⟨hbinds, hl.1 rfl, hr.1 rfl⟩
  · obtain ⟨a, -, b, -, heq⟩ := joinOperands_eq_ok.mp hd
    cases heq

/-- What a reader makes of a rendering with a text behind it. With loose negations it reads the
expression. Otherwise it reads something else, if it does not stop at a parenthesis. -/
structure Rereads (q : Reader (Denoted Expr)) (e : Expr) (rest : List Char) : Prop where
  reads : e.NegationsLoose → q.run (chars e ++ rest) = some (.ok e, rest)
  lands : ∀ d left, q.run (chars e ++ rest) = some (d, left) →
    next left = some '(' ∨ left = rest ∧ Shown e d

/-- What the levels make of a rendering. A negation is not read as an operand. In front of a tight
operator the levels go on with it, or stop there or at a parenthesis. -/
structure Regroups (e : Expr) : Prop where
  operand : e.negates = false → ∀ rest, Follows rest → Rereads (signedOperand expr) e rest
  negation : ∀ rest, Follows rest →
    (∀ l ∈ tightLevels, l.op.run (skipBlank false rest) = none) → Rereads (tower tightLevels) e rest
  tight : ∀ (op : BinOp) (ds : List Char), op.joins = false → skipBlank false ds = ds →
    (∀ d mid, (signedOperand expr).run ds = some (d, mid) → Halts mid) →
      ∀ d left, (tower tightLevels).run (chars e ++ between op ds) = some (d, left) →
        next left = some '(' ∨ left = between op ds ∨
          ∃ d', (signedOperand expr).run ds = some (d', left)

lemma level_mem_tight {op : BinOp} : op.level ∈ tightLevels ↔ op.joins = false := by
  cases op <;> decide

lemma level_mem_joins {op : BinOp} : op.level ∈ [Level.or, .and] ↔ op.joins = true := by
  cases op <;> decide

/-- A text that is read as the expression, whatever it is. -/
lemma Rereads.of_eq {q : Reader (Denoted Expr)} (hloose : e.NegationsLoose)
    (h : q.run (chars e ++ rest) = some (.ok e, rest)) : Rereads q e rest := by
  refine ⟨fun _ => h, fun d left hr => .inr ?_⟩
  cases h.symm.trans hr
  refine ⟨rfl, fun _ => hloose, ?_⟩
  rintro n ⟨⟩
  rfl

lemma Rereads.congr {q p : Reader (Denoted Expr)} (h : Rereads q e rest)
    (heq : p.run (chars e ++ rest) = q.run (chars e ++ rest)) : Rereads p e rest :=
  ⟨fun hloose => heq.trans (h.reads hloose), fun d left hr => h.lands d left (heq.symm.trans hr)⟩

/-- All of a rendering is read, or whatever is read of it stops at a parenthesis. -/
lemma Rereads.whole_or_paren {q : Reader (Denoted Expr)} (h : Rereads q e rest) :
    (∃ d, q.run (chars e ++ rest) = some (d, rest)) ∨
      ∀ d left, q.run (chars e ++ rest) = some (d, left) → next left = some '(' := by
  refine or_iff_not_imp_left.mpr fun hwhole d left hr => ?_
  rcases h.lands d left hr with hparen | ⟨rfl, -⟩
  · exact hparen
  · exact absurd ⟨d, hr⟩ hwhole

/-- Whatever is read of a rendering, no operator is read behind it. -/
lemma Rereads.halts {q : Reader (Denoted Expr)} (h : Rereads q e rest) (hrest : Halts rest)
    {d : Denoted Expr} {mid : List Char} (hr : q.run (chars e ++ rest) = some (d, mid)) :
    Halts mid := by
  rcases h.lands d mid hr with hparen | ⟨rfl, -⟩
  · exact halts_paren hparen
  · exact hrest

/-- The levels below conjunctions are those above the one of a tight operator, that one, and those
below it. -/
lemma tight_split {op : BinOp} (h : op.joins = false) : ∃ ups downs,
    tightLevels = ups ++ op.level :: downs ∧ op.level ∉ ups ∧ op.level ∉ downs ∧
      .comparison ∉ downs := by
  have hrank : 2 ≤ op.level.rank := Nat.not_lt.mp fun hlt => by
    rw [BinOp.joins_iff.mpr hlt] at h
    cases h
  generalize op.level = l at hrank
  cases l with
  | or => exact absurd hrank (by decide)
  | and => exact absurd hrank (by decide)
  | comparison => exact ⟨[], _, rfl, by decide, by decide, by decide⟩
  | bitOr => exact ⟨[.comparison], _, rfl, by decide, by decide, by decide⟩
  | bitXor => exact ⟨[.comparison, .bitOr], _, rfl, by decide, by decide, by decide⟩
  | bitAnd => exact ⟨[.comparison, .bitOr, .bitXor], _, rfl, by decide, by decide, by decide⟩
  | shift =>
      exact ⟨[.comparison, .bitOr, .bitXor, .bitAnd], _, rfl, by decide, by decide, by decide⟩
  | sum =>
      exact ⟨[.comparison, .bitOr, .bitXor, .bitAnd, .shift], _, rfl, by decide, by decide,
        by decide⟩
  | product =>
      exact ⟨[.comparison, .bitOr, .bitXor, .bitAnd, .shift, .sum], _, rfl, by decide, by decide,
        by decide⟩

/-- The levels below conjunctions at a tight operator, on operands that are no negations. -/
lemma tower_tight {cs : List Char} {d : Denoted Expr} (hop : op.joins = false)
    (hnot : notOp.run cs = none) (hcs : (signedOperand expr).run cs = some (d, between op ds))
    (hds : skipBlank false ds = ds)
    (h : ∀ d' mid, (signedOperand expr).run ds = some (d', mid) → Halts mid) :
    (tower tightLevels).run cs = some (joined op ds d ((signedOperand expr).run ds)) := by
  obtain ⟨ups, downs, hsplit, hups, hdowns, hcomparison⟩ := tight_split hop
  have hbinary := @tower_binary cs ds op ups downs [] d hups hdowns (fun _ => hnot) hcomparison hcs
    hds h
  rwa [List.append_nil, ← hsplit] at hbinary

/-- The levels below conjunctions without any of their operators. -/
lemma tower_tight_eq {cs : List Char} (hnot : notOp.run cs = none)
    (h : ∀ d mid, (signedOperand expr).run cs = some (d, mid) →
      ∀ l ∈ tightLevels, l.op.run (skipBlank false mid) = none) :
    (tower tightLevels).run cs = (signedOperand expr).run cs := by
  have htower := @tower_eq cs tightLevels [] (fun _ => hnot) h
  rwa [List.append_nil] at htower

lemma Regroups.of_operand (he : Sound e) (hn : e.negates = false)
    (h : ∀ rest, Follows rest → Rereads (signedOperand expr) e rest) : Regroups e where
  operand _ := h
  negation rest hrest hlevels := by
    have hnot := (signedAt_chars he hn hrest).notOp_eq_none
    refine (h rest hrest).congr (tower_tight_eq hnot fun d mid hr l hl => ?_)
    rcases (h rest hrest).lands d mid hr with hparen | ⟨rfl, -⟩
    · exact halts_paren hparen l
    · exact hlevels l hl
  tight op ds hop hds hhalts d left hr := by
    have hrest := Follows.between op ds
    have hnot := (signedAt_chars he hn hrest).notOp_eq_none
    -- The operand is read whole, or the reading stops at a parenthesis before the operator.
    rcases (h _ hrest).whole_or_paren with ⟨d', hread⟩ | hstuck
    · have htower := tower_tight hop hnot hread hds hhalts
      right
      cases hsecond : (signedOperand expr).run ds with
      | none =>
          rw [hsecond] at htower
          cases htower.symm.trans hr
          exact .inl rfl
      | some r =>
          rw [hsecond] at htower
          cases htower.symm.trans hr
          exact .inr ⟨r.1, rfl⟩
    · rw [tower_tight_eq hnot fun d mid hr l _ => halts_paren (hstuck d mid hr) l] at hr
      exact .inl (hstuck d left hr)

/-- A negation is read below the conjunctions, and behind it what it negates. -/
lemma tower_not (hf : Sound f) (hrest : Follows rest) :
    (tower tightLevels).run (chars (.unary .not f) ++ rest) =
      ((tower tightLevels).run (chars f ++ rest)).map fun r => (Expr.unary .not <$> r.1, r.2) := by
  have hskip : skipBlank false (' ' :: (chars f ++ rest)) = chars f ++ rest :=
    (exprAt_chars hf hrest).skipBlank_eq
  rw [chars_not, tower_sign rfl, hskip]

lemma Regroups.of_not (hf : Sound f) (h : Regroups f) : Regroups (.unary .not f) where
  operand hn := by cases hn
  negation rest hrest hlevels := by
    have hread := h.negation rest hrest hlevels
    refine ⟨fun hloose => ?_, fun d left hr => ?_⟩
    · rw [tower_not hf hrest, hread.reads (Expr.loose_unary.mp hloose).2]
      rfl
    · rw [tower_not hf hrest] at hr
      obtain ⟨⟨d', left'⟩, hr', heq⟩ := Option.map_eq_some_iff.mp hr
      cases heq
      refine (hread.lands d' _ hr').imp_right fun ⟨hleft, hshown⟩ => ⟨hleft, ?_⟩
      exact hshown.map (fun f' heq => (Expr.unary.inj heq).2)
        (fun hloose => Expr.loose_unary.mpr ⟨.inl rfl, hloose⟩) fun f' n _ heq => by cases heq
  tight op ds hop hds hhalts d left hr := by
    rw [tower_not hf (.between op ds)] at hr
    obtain ⟨⟨d', left'⟩, hr', heq⟩ := Option.map_eq_some_iff.mp hr
    cases heq
    exact h.tight op ds hop hds hhalts d' _ hr'

/-- An expression without conjunctions and disjunctions. -/
lemma expr_eq_tower {cs : List Char} (h : ∀ d mid, (tower tightLevels).run cs = some (d, mid) →
    ∀ l ∈ [Level.or, .and], l.op.run (skipBlank false mid) = none) :
    expr.run cs = (tower tightLevels).run cs :=
  (run_expr_eq_tower cs).trans
    (@tower_eq cs [.or, .and] tightLevels (fun hmem => absurd hmem (by decide)) h)

/-- The rendering of a whole expression. -/
lemma Regroups.whole (h : Regroups e) (hrest : Follows rest) (hhalts : Halts rest) :
    Rereads expr e rest := by
  have hread := h.negation rest hrest fun l _ => hhalts l
  exact hread.congr (expr_eq_tower fun d mid hr l _ => hread.halts hhalts hr l)

/-! ## Signs -/

lemma signedOperand_unary {o : UnOp} (ho : o ≠ .not) (hf : Sound f) (hrest : Follows rest) :
    (signedOperand expr).run (chars (.unary o f) ++ rest) =
      ((signedOperand expr).run (chars f ++ rest)).map fun r => (applyUnary o <$> r.1, r.2) := by
  have hskip : skipBlank false (chars f ++ rest) = chars f ++ rest :=
    (exprAt_chars hf hrest).skipBlank_eq
  have hskip' : skipBlank false (' ' :: (chars f ++ rest)) = chars f ++ rest := hskip
  cases o with
  | neg =>
      have hsign : unaryOp.run ('-' :: (chars f ++ rest)) = some (.neg, chars f ++ rest) := rfl
      rw [chars_negative, signedOperand_sign hsign, hskip]
  | complement =>
      have hsign : unaryOp.run ("lnot".toList ++ ' ' :: (chars f ++ rest)) =
          some (.complement, ' ' :: (chars f ++ rest)) := rfl
      rw [chars_complement, signedOperand_sign hsign, hskip']
  | not => exact absurd rfl ho

/-- A sign makes a number or an expression with the sign. -/
lemma applyUnary_cases (o : UnOp) (f : Expr) :
    (∃ n : Int, o = .neg ∧ f = .int n) ∨ applyUnary o f = .unary o f := by
  unfold applyUnary
  split
  · exact .inl ⟨_, rfl, rfl⟩
  · exact .inr rfl

/-- A sign before an operand, which is no number if the sign is a minus. -/
lemma Regroups.of_sign {o : UnOp} (hf : Sound f) (he : Sound (.unary o f)) (ho : o ≠ .not)
    (h : Regroups f) : Regroups (.unary o f) := by
  have hsign : applyUnary o f = .unary o f := by
    refine (applyUnary_cases o f).resolve_left ?_
    rintro ⟨n, rfl, rfl⟩
    exact he.1
  have hn : (Expr.unary o f).negates = false := by
    cases o <;> first
      | rfl
      | exact absurd rfl ho
  refine .of_operand he hn fun rest hrest => ⟨fun hloose => ?_, fun d left hr => ?_⟩
  · obtain ⟨hbinds, hloose⟩ := Expr.loose_unary.mp hloose
    -- Loose, the operand is read back behind the sign; what the sign and it make is no number.
    have hfn : f.negates = false := hbinds.resolve_left ho
    rw [signedOperand_unary ho hf hrest, (h.operand hfn rest hrest).reads hloose, ← hsign]
    rfl
  · rw [signedOperand_unary ho hf hrest] at hr
    obtain ⟨⟨d', left'⟩, hr', heq⟩ := Option.map_eq_some_iff.mp hr
    cases heq
    -- A sign reads no negation, so there the text is refused.
    by_cases hfn : f.negates = true
    · obtain ⟨g, rfl⟩ := Expr.negates_iff.mp hfn
      rw [chars_not, signedOperand_eq_none rfl] at hr'
      cases hr'
    · have hfn := Bool.eq_false_iff.mpr hfn
      refine ((h.operand hfn rest hrest).lands d' _ hr').imp_right
        fun ⟨hleft, hshown⟩ => ⟨hleft, ?_⟩
      refine hshown.map (fun f' heq => ?_) (fun hloose => Expr.loose_unary.mpr ⟨.inr hfn, hloose⟩)
        fun f' n hd heq => ?_
      · rcases applyUnary_cases o f' with ⟨n, rfl, rfl⟩ | hf'
        · cases heq
        · exact (Expr.unary.inj (hf'.symm.trans heq)).2
      · rcases applyUnary_cases o f' with ⟨m, rfl, rfl⟩ | hf'
        · -- The operand would have been a number.
          rw [hshown.2 m hd] at he
          exact absurd he.1 id
        · cases hf'.symm.trans heq

/-! ## Operators -/

lemma next_between (op : BinOp) (ds : List Char) :
    next (between op ds) ≠ some ')' ∧ next (between op ds) ≠ some ',' := by
  rw [next, skipBlank_between]
  cases op <;> exact ⟨fun h => (by cases h), fun h => (by cases h)⟩

/-- Nothing but parentheses is read where one opens. -/
lemma signedOperand_paren (cs : List Char) :
    (signedOperand expr).run ('(' :: cs) = (brackets expr grouped).run ('(' :: cs) := by
  have hcall : (call expr).run ('(' :: cs) = none := rfl
  have hrest : (literal <|> do let x ← identifier; pure (.ok (.name x))).run ('(' :: cs) = none :=
    rfl
  rw [signedOperand_eq (.group rfl), application, run_rule, run_or, hcall, Option.none_or, primary,
    run_rule, run_or, hrest, Option.or_none, parenthesized, run_rule]
  rfl

/-- What is read of an expression between parentheses ends at the one that closes them, and shows
the expression, or it does not come to any parenthesis that closes. -/
def Stays (e : Expr) (rest : List Char) (d : Denoted Expr) (left : List Char) : Prop :=
  next left ≠ some ',' ∧ (left = ')' :: rest ∧ Shown e d ∨ next left ≠ some ')')

lemma Stays.of_shown {d : Denoted Expr} (h : Shown e d) : Stays e rest d (')' :: rest) :=
  ⟨fun hcomma => (by cases hcomma), .inl ⟨rfl, h⟩⟩

lemma Stays.of_paren {d : Denoted Expr} {left : List Char} (h : next left = some '(') :
    Stays e rest d left := by
  rw [Stays, h]
  exact ⟨by decide, .inr (by decide)⟩

lemma Stays.of_between {d : Denoted Expr} (op : BinOp) (ds : List Char) :
    Stays e rest d (between op ds) :=
  ⟨(next_between op ds).2, .inr (next_between op ds).1⟩

/-- What is read of an expression between parentheses. -/
structure Closes (e : Expr) (body rest : List Char) : Prop where
  reads : e.NegationsLoose → expr.run body = some (.ok e, ')' :: rest)
  lands : ∀ d left, expr.run body = some (d, left) → Stays e rest d left

lemma Closes.operand {body : List Char} (h : Closes e body rest) (hbody : ExprAt body)
    (hchars : chars e ++ rest = '(' :: body) : Rereads (signedOperand expr) e rest := by
  refine ⟨fun hloose => ?_, fun d left hr => .inr ?_⟩
  · rw [hchars, signedOperand_paren]
    exact brackets_reads hbody (items_reads (h.reads hloose) (.nil _) (Nat.zero_le _))
  · rw [hchars, signedOperand_paren] at hr
    obtain ⟨⟨es, trailing⟩, mid, hitems, hmid, rfl⟩ := brackets_eq_some hbody hr
    obtain ⟨d, mid', ds, mid'', hd, hrow, hinner, hleft⟩ := items_eq_some hitems
    obtain ⟨hcomma, hclose⟩ := h.lands d mid' hd
    obtain ⟨rfl, rfl⟩ := hrow.eq_nil (nextItem_eq_none hcomma)
    cases hinner
    rcases hleft with ⟨rfl, hsingle⟩ | ⟨hleft, -⟩
    · cases hsingle
      rcases hclose with ⟨rfl, hshown⟩ | hparen
      · cases hmid
        exact ⟨rfl, hshown⟩
      · exact absurd (next_eq_some.mpr ⟨left, hmid⟩) hparen
    · exact absurd (next_eq_some.mpr ⟨_, hleft⟩) hcomma

/-- A conjunction or disjunction. -/
lemma expr_joins {cs : List Char} {d : Denoted Expr} (hop : op.joins = true)
    (hcs : (tower tightLevels).run cs = some (d, between op ds)) (hds : skipBlank false ds = ds)
    (h : ∀ d' mid, (tower tightLevels).run ds = some (d', mid) → Halts mid) :
    expr.run cs = some (joined op ds d ((tower tightLevels).run ds)) := by
  have hnot {ls : List Level} (hmem : .comparison ∉ ls) : .comparison ∈ ls → notOp.run cs = none :=
    fun h => absurd h hmem
  rw [run_expr_eq_tower]
  cases op with
  | or =>
      exact @tower_binary cs ds .or [] [.and] tightLevels d (by decide) (by decide)
        (hnot (by decide)) (by decide) hcs hds h
  | and =>
      exact @tower_binary cs ds .and [.or] [] tightLevels d (by decide) (by decide)
        (hnot (by decide)) (by decide) hcs hds h
  | _ => cases hop

/-- An operator whose operands a reader reads one after the other. -/
lemma closes_of_joined {q : Reader (Denoted Expr)} {l r : Expr}
    (hl : Rereads q l (between op (chars r ++ ')' :: rest))) (hr : Rereads q r (')' :: rest))
    (hbinds : op.joins = true ∨ l.negates = false ∧ r.negates = false)
    (hjoined : ∀ d, q.run (chars l ++ between op (chars r ++ ')' :: rest)) =
        some (d, between op (chars r ++ ')' :: rest)) →
      expr.run (chars l ++ between op (chars r ++ ')' :: rest)) =
        some (joined op (chars r ++ ')' :: rest) d (q.run (chars r ++ ')' :: rest))))
    (hstuck : (∀ d mid, q.run (chars l ++ between op (chars r ++ ')' :: rest)) = some (d, mid) →
        next mid = some '(') →
      expr.run (chars l ++ between op (chars r ++ ')' :: rest)) =
        q.run (chars l ++ between op (chars r ++ ')' :: rest))) :
    Closes (.binary op l r) (chars l ++ between op (chars r ++ ')' :: rest)) rest := by
  constructor
  · intro hloose
    obtain ⟨-, hlloose, hrloose⟩ := Expr.loose_binary.mp hloose
    rw [hjoined _ (hl.reads hlloose), hr.reads hrloose]
    rfl
  · intro d left hrun
    -- Only if the first operand is read up to the operator is there a second one.
    rcases hl.whole_or_paren with ⟨d₁, hfirst⟩ | hparen
    · have hrun := (hjoined d₁ hfirst).symm.trans hrun
      have hshown : Shown l d₁ :=
        ((hl.lands _ _ hfirst).resolve_left (Follows.between op _).paren).2
      cases hsecond : q.run (chars r ++ ')' :: rest) with
      | none =>
          rw [hsecond] at hrun
          cases hrun
          exact .of_between _ _
      | some r' =>
          rw [hsecond] at hrun
          cases hrun
          rcases hr.lands _ _ hsecond with hparen | ⟨hleft, hshown'⟩
          · exact .of_paren hparen
          · rw [hleft]
            exact .of_shown (hshown.join hshown' hbinds)
    · exact .of_paren (hparen d left ((hstuck hparen).symm.trans hrun))

lemma halts_close (rest : List Char) : Halts (')' :: rest) :=
  halts_of_ends (ends_of_next_eq rfl (by decide))

/-- What the second operand of a tight operator is read as ends at its own end, unless it is a
negation, which is not read at all. -/
lemma Regroups.second_lands {r : Expr} (hr : Regroups r) {d : Denoted Expr} {mid : List Char}
    (hread : (signedOperand expr).run (chars r ++ ')' :: rest) = some (d, mid)) :
    next mid = some '(' ∨ r.negates = false ∧ mid = ')' :: rest := by
  by_cases hn : r.negates = true
  · obtain ⟨g, rfl⟩ := Expr.negates_iff.mp hn
    rw [chars_not, signedOperand_eq_none rfl] at hread
    cases hread
  · have hn := Bool.eq_false_iff.mpr hn
    exact ((hr.operand hn _ (.close rest)).lands d mid hread).imp_right fun h => ⟨hn, h.1⟩

/-- What the levels leave of a tight operator and its operands. -/
lemma Regroups.tight_lands {l r : Expr} (hl : Regroups l) (hr : Regroups r) (hrsound : Sound r)
    (hop : op.joins = false) {d : Denoted Expr} {left : List Char}
    (hrun : (tower tightLevels).run (chars l ++ between op (chars r ++ ')' :: rest)) =
      some (d, left)) :
    next left = some '(' ∨ left = between op (chars r ++ ')' :: rest) ∨
      r.negates = false ∧ left = ')' :: rest := by
  have hskip := (exprAt_chars hrsound (.close rest)).skipBlank_eq
  have hhalts (d : Denoted Expr) (mid : List Char)
      (hread : (signedOperand expr).run (chars r ++ ')' :: rest) = some (d, mid)) : Halts mid := by
    rcases hr.second_lands hread with hparen | ⟨-, rfl⟩
    · exact halts_paren hparen
    · exact halts_close rest
  rcases hl.tight op _ hop hskip hhalts d left hrun with hparen | hleft | ⟨d', hread⟩
  · exact .inl hparen
  · exact .inr (.inl hleft)
  · exact (hr.second_lands hread).imp_right .inr

/-- A negation as an operand of a tight operator: as the second one it is not read, and as the first
one it takes the operator along. -/
lemma closes_of_tied {l r : Expr} (hl : Regroups l) (hr : Regroups r) (hrsound : Sound r)
    (hop : op.joins = false) (htied : (∃ f, l = .unary .not f ∧ Sound f) ∨ r.negates = true)
    (rest : List Char) :
    Closes (.binary op l r) (chars l ++ between op (chars r ++ ')' :: rest)) rest := by
  have hexpr : expr.run (chars l ++ between op (chars r ++ ')' :: rest)) =
      (tower tightLevels).run (chars l ++ between op (chars r ++ ')' :: rest)) := by
    refine expr_eq_tower fun d mid hrun k hk => ?_
    rcases hl.tight_lands hr hrsound hop hrun with hparen | rfl | ⟨-, rfl⟩
    · exact halts_paren hparen k
    · exact op_between_eq_none (fun heq => by simp [level_mem_joins.mp (heq ▸ hk)] at hop) _
    · exact halts_close rest k
  refine ⟨fun hloose => ?_, fun d left hrun => ?_⟩
  · obtain ⟨hn, hn'⟩ := (Expr.loose_binary.mp hloose).1.resolve_left (by simp [hop])
    rcases htied with ⟨f, rfl, -⟩ | htied
    · cases hn
    · cases htied.symm.trans hn'
  · rw [hexpr] at hrun
    rcases hl.tight_lands hr hrsound hop hrun with hparen | rfl | ⟨hn, rfl⟩
    · exact .of_paren hparen
    · exact .of_between _ _
    · -- What is read is the negation of something, and not a number.
      obtain ⟨f, rfl, hf⟩ := htied.resolve_right (by simp [hn])
      rw [tower_not hf (.between op _)] at hrun
      obtain ⟨⟨d', left'⟩, -, heq⟩ := Option.map_eq_some_iff.mp hrun
      cases heq
      refine .of_shown ⟨fun hd => ?_, fun n hd => ?_⟩
      · obtain ⟨f', -, heq⟩ := result_map_eq_ok.mp hd
        cases heq
      · obtain ⟨f', -, heq⟩ := result_map_eq_ok.mp hd
        cases heq

/-- A conjunction or disjunction: its operands may be negations. -/
lemma closes_of_joins {l r : Expr} (hl : Regroups l) (hr : Regroups r) (hrsound : Sound r)
    (hop : op.joins = true) (rest : List Char) :
    Closes (.binary op l r) (chars l ++ between op (chars r ++ ')' :: rest)) rest := by
  have hds := (exprAt_chars hrsound (.close rest)).skipBlank_eq
  have hlread : Rereads (tower tightLevels) l (between op (chars r ++ ')' :: rest)) :=
    hl.negation _ (.between op _) fun k hk => op_between_eq_none
      (fun heq => by simp [level_mem_tight.mp (heq ▸ hk)] at hop) _
  have hrread : Rereads (tower tightLevels) r (')' :: rest) :=
    hr.negation _ (.close rest) fun k _ => halts_close rest k
  exact closes_of_joined hlread hrread (.inl hop)
    (fun d h => expr_joins hop h hds fun _ _ hrun => hrread.halts (halts_close rest) hrun)
    fun h => expr_eq_tower fun d mid hrun k _ => halts_paren (h d mid hrun) k

/-- A tight operator between operands that are no negations. -/
lemma closes_of_tight {l r : Expr} (hl : Regroups l) (hr : Regroups r) (hlsound : Sound l)
    (hrsound : Sound r) (hop : op.joins = false) (hn : l.negates = false ∧ r.negates = false)
    (rest : List Char) :
    Closes (.binary op l r) (chars l ++ between op (chars r ++ ')' :: rest)) rest := by
  have hds := (exprAt_chars hrsound (.close rest)).skipBlank_eq
  have hlread := hl.operand hn.1 _ (.between op (chars r ++ ')' :: rest))
  have hrread := hr.operand hn.2 _ (.close rest)
  have hnot := (signedAt_chars hlsound hn.1
    (.between op (chars r ++ ')' :: rest))).notOp_eq_none
  -- Behind the second operand no level goes on, whatever is read of it.
  have hhalts (d : Denoted Expr) (mid : List Char)
      (hrun : (signedOperand expr).run (chars r ++ ')' :: rest) = some (d, mid)) : Halts mid :=
    hrread.halts (halts_close rest) hrun
  refine closes_of_joined hlread hrread (.inr hn) (fun d h => ?_) fun h => ?_
  · have htower := tower_tight hop hnot h hds hhalts
    refine (expr_eq_tower fun d' mid hrun k hk => ?_).trans htower
    have hrun := htower.symm.trans hrun
    cases hsecond : (signedOperand expr).run (chars r ++ ')' :: rest) with
    | none =>
        rw [hsecond] at hrun
        cases hrun
        exact op_between_eq_none (fun heq => by simp [level_mem_joins.mp (heq ▸ hk)] at hop) _
    | some s =>
        rw [hsecond] at hrun
        cases hrun
        exact hhalts s.1 s.2 hsecond k
  · have htower := tower_tight_eq hnot fun d mid hrun k _ => halts_paren (h d mid hrun) k
    refine (expr_eq_tower fun d mid hrun k _ => ?_).trans htower
    exact halts_paren (h d mid (htower.symm.trans hrun)) k

/-- An operator between two operands. -/
lemma Regroups.of_binary {l r : Expr} (he : (Expr.binary op l r).Everywhere Sound)
    (hl : Regroups l) (hr : Regroups r) : Regroups (.binary op l r) := by
  obtain ⟨hself, hlsound, hrsound⟩ := Expr.everywhere_binary.mp he
  refine .of_operand hself rfl fun rest hrest => ?_
  have hbody := exprAt_chars hlsound.self (.between op (chars r ++ ')' :: rest))
  refine Closes.operand ?_ hbody (chars_binary op l r rest)
  by_cases hop : op.joins = true
  · exact closes_of_joins hl hr hrsound.self hop rest
  have hop := Bool.eq_false_iff.mpr hop
  by_cases hnr : r.negates = true
  · exact closes_of_tied hl hr hrsound.self hop (.inr hnr) rest
  by_cases hnl : l.negates = true
  · obtain ⟨f, rfl⟩ := Expr.negates_iff.mp hnl
    have hf := (Expr.everywhere_unary.mp hlsound).2
    exact closes_of_tied hl hr hrsound.self hop (.inl ⟨f, rfl, hf.self⟩) rest
  exact closes_of_tight hl hr hlsound.self hrsound.self hop
    ⟨Bool.eq_false_iff.mpr hnl, Bool.eq_false_iff.mpr hnr⟩ rest

end Grammar

end BitPattern
