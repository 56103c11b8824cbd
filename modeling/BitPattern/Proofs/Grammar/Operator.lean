import BitPattern.Grammar.Expr
import BitPattern.Proofs.Grammar.Token

/-!
# Levels of operators

Where an operator is read, no operator of a tighter level is.  This is what lets an expression end
where it does: the levels below the one that goes on have nothing to read there.  `Level.of?` tells
the level from the text alone, by the longest sign at the front or by the word, and `op_level` says
that the operators of a level are read there only.  The one exception is a comparison by `<` or `>`
in front of the same sign, which no operand follows.

The other half of the question is what an operand begins with, which is `ExprAt`.
-/

namespace BitPattern.Grammar

open BitPattern.Text Reader

variable {α : Type} {more : List Char} {fits : List Char → Prop}

/-! ## Spellings -/

lemma text_eq_some {s : String} {cs left : List Char} {u : Unit} :
    (text s).run cs = some (u, left) ↔ cs = s.toList ++ left := by
  rw [run_text]
  constructor
  · intro h
    split at h
    · rename_i hspelled
      obtain ⟨rest, rfl⟩ := List.isPrefixOf_iff_prefix.mp hspelled
      cases h
      rw [List.drop_left]
    · cases h
  · rintro rfl
    simp

lemma text_eq_none {s : String} {cs : List Char} :
    (text s).run cs = none ↔ ¬s.toList <+: cs := by
  rw [run_text, ← List.isPrefixOf_iff_prefix]
  simp

lemma spelled_eq_some {s : String} {a b : α} {cs left : List Char} :
    (spelled s a).run cs = some (b, left) ↔ cs = s.toList ++ left ∧ b = a := by
  simp only [spelled, bind_eq_some, text_eq_some, run_pure]
  constructor
  · rintro ⟨u, mid, hmid, h⟩
    cases h
    exact ⟨hmid, rfl⟩
  · rintro ⟨h, rfl⟩
    exact ⟨(), left, h, rfl⟩

lemma worded_eq_some {s : String} {a b : α} {cs left : List Char} :
    (worded s a).run cs = some (b, left) ↔
      (takeWord cs).1 = s.toList ∧ (takeWord cs).2 = left ∧ b = a := by
  simp only [worded, bind_eq_some, keyword_eq_some, run_pure]
  constructor
  · rintro ⟨u, mid, ⟨hword, hmid⟩, h⟩
    cases h
    exact ⟨hword, hmid, rfl⟩
  · rintro ⟨hword, hmid, rfl⟩
    exact ⟨(), left, ⟨hword, hmid⟩, rfl⟩

lemma spelledBut_eq_some {s next : String} {a b : α} {cs left : List Char} :
    (spelledBut s next a).run cs = some (b, left) ↔
      cs = s.toList ++ left ∧ ¬next.toList <+: left ∧ b = a := by
  simp only [spelledBut, bind_eq_some, text_eq_some, absent_eq_some, text_eq_none, run_pure]
  constructor
  · rintro ⟨u, mid, hmid, v, rest, ⟨hnext, heq⟩, h⟩
    cases heq
    cases h
    exact ⟨hmid, hnext, rfl⟩
  · rintro ⟨h, hnext, rfl⟩
    exact ⟨(), left, h, (), left, ⟨hnext, rfl⟩, rfl⟩

lemma spelled_begins {S : List Char → Prop} {s : String} {a : α}
    (h : ∀ left, S (s.toList ++ left)) : Begins S (spelled s a) := by
  rintro cs ⟨b, left⟩ hr
  obtain ⟨rfl, -⟩ := spelled_eq_some.mp hr
  exact h left

lemma worded_begins {S : List Char → Prop} {s : String} {a : α}
    (h : ∀ {cs}, (takeWord cs).1 = s.toList → S cs) : Begins S (worded s a) := by
  rintro cs ⟨b, left⟩ hr
  exact h (worded_eq_some.mp hr).1

lemma spelledBut_begins {S : List Char → Prop} {s next : String} {a : α}
    (h : ∀ left, ¬next.toList <+: left → S (s.toList ++ left)) :
    Begins S (spelledBut s next a) := by
  rintro cs ⟨b, left⟩ hr
  obtain ⟨rfl, hnext, -⟩ := spelledBut_eq_some.mp hr
  exact h left hnext

lemma spelled_local (h : Behind more) (s : String) (a : α)
    (hs : s.toList.any isBlank = false) : Local more (spelled s a) :=
  (text_local h s hs).bind fun _ => .pure a

lemma worded_local (h : Behind more) (s : String) (a : α) : Local more (worded s a) :=
  (wordOf_local h _).bind fun _ => .pure a

lemma spelledBut_local (h : Behind more) (s next : String) (a : α)
    (hs : s.toList.any isBlank = false) (hnext : next.toList.any isBlank = false) :
    Local more (spelledBut s next a) :=
  (text_local h s hs).bind fun _ => (text_local h next hnext).absent.bind fun _ => .pure a

/-! ## Levels -/

/-- The levels of operators between operands, from the loosest to the tightest. -/
inductive Level where
  | or | and | comparison | bitOr | bitXor | bitAnd | shift | sum | product
  deriving DecidableEq, Repr

namespace Level

/-- The place among the levels. -/
def rank : Level → Nat
  | or => 0
  | and => 1
  | comparison => 2
  | bitOr => 3
  | bitXor => 4
  | bitAnd => 5
  | shift => 6
  | sum => 7
  | product => 8

lemma rank_injective : Function.Injective rank := by
  intro l k h
  cases l <;> cases k <;> first | rfl | cases h

/-- The operators of the level. -/
def op : Level → Reader BinOp
  | or => orOp
  | and => andOp
  | comparison => compareOp
  | bitOr => bitOrOp
  | bitXor => bitXorOp
  | bitAnd => bitAndOp
  | shift => shiftOp
  | sum => addOp
  | product => mulOp

/-- The words that are operators. -/
def words : List (List Char × Level) := [
  ("or".toList, or), ("and".toList, and), ("lor".toList, bitOr), ("lxor".toList, bitXor),
  ("land".toList, bitAnd), ("lsl".toList, shift), ("lsr".toList, shift), ("asr".toList, shift),
  ("mod".toList, product)]

/-- The signs that are operators, longer ones first; an arrow is none. -/
def signs : List (List Char × Option Level) := [
  ("||".toList, or), ("&&".toList, and), ("<<".toList, shift), (">>".toList, shift),
  ("!=".toList, comparison), ("->".toList, none), ("<".toList, comparison),
  (">".toList, comparison), ("=".toList, comparison), ("|".toList, bitOr), ("^".toList, bitXor),
  ("&".toList, bitAnd), ("+".toList, sum), ("-".toList, sum), ("*".toList, product),
  ("/".toList, product), ("%".toList, product)]

/-- The level of the operator at the front of a text. -/
def of? (cs : List Char) : Option Level :=
  if (takeWord cs).1.isEmpty then (signs.find? fun s => s.1.isPrefixOf cs).bind Prod.snd
  else words.lookup (takeWord cs).1

lemma of?_of_word {cs : List Char} {word : List Char} (h : (takeWord cs).1 = word)
    (hne : word ≠ []) : of? cs = words.lookup word := by
  rw [of?, if_neg (by simpa [h] using hne), h]

lemma of?_cons {c : Char} (hc : isWordChar c = false) (cs : List Char) :
    of? (c :: cs) = (signs.find? fun s => s.1.isPrefixOf (c :: cs)).bind Prod.snd := by
  rw [of?, if_pos (by simp [takeWord_eq, hc])]

/-- A text that begins with the sign of a shift is one for a comparison, too. -/
def Doubled (cs : List Char) : Prop :=
  ['<', '<'] <+: cs ∨ ['>', '>'] <+: cs

lemma Doubled.of? {cs : List Char} (h : Doubled cs) : of? cs = some shift := by
  rcases h with ⟨rest, rfl⟩ | ⟨rest, rfl⟩ <;> exact of?_cons (by decide) _

private lemma of?_single {c : Char} {level : Level} {cs : List Char} (hc : isWordChar c = false)
    (h : (signs.find? fun s => s.1.isPrefixOf (c :: cs)) = some ([c], some level)) :
    Level.of? (c :: cs) = some level := by
  rw [of?_cons hc, h]
  rfl

/-- A single bar is the sign of a bitwise disjunction. -/
lemma of?_bar {cs : List Char} (h : ¬['|'] <+: cs) : of? ('|' :: cs) = some bitOr :=
  of?_single (by decide) (by simp [signs, h])

private lemma compareOp_level :
    Begins (fun cs => of? cs = some comparison ∨ Doubled cs) compareOp := by
  have hless (left : List Char) :
      of? ('<' :: left) = some comparison ∨ Doubled ('<' :: left) := by
    by_cases hleft : ['<'] <+: left
    · obtain ⟨rest, rfl⟩ := hleft
      exact .inr (.inl ⟨rest, rfl⟩)
    · exact .inl (of?_single (by decide) (by simp [signs, hleft]))
  have hgreater (left : List Char) :
      of? ('>' :: left) = some comparison ∨ Doubled ('>' :: left) := by
    by_cases hleft : ['>'] <+: left
    · obtain ⟨rest, rfl⟩ := hleft
      exact .inr (.inr ⟨rest, rfl⟩)
    · exact .inl (of?_single (by decide) (by simp [signs, hleft]))
  refine .rule (.or (spelled_begins ?_) <| .or (spelled_begins ?_) <| .or (spelled_begins ?_) <|
    .or (spelled_begins ?_) <| .or (spelled_begins ?_) <| .or (spelled_begins hless) <|
    .or (spelled_begins hgreater) (spelled_begins ?_))
  · exact fun _ => .inl (of?_cons (by decide) _)
  · exact fun _ => .inl (of?_cons (by decide) _)
  · exact fun _ => .inl (of?_cons (by decide) _)
  · exact fun _ => .inl (of?_cons (by decide) _)
  · exact fun _ => .inl (of?_cons (by decide) _)
  · exact fun _ => .inl (of?_cons (by decide) _)

/-- An operator is read only from a text whose level is that of the operator, but for a comparison
that is the beginning of a shift. -/
lemma op_level (l : Level) :
    Begins (fun cs => of? cs = some l ∨ (l = comparison ∧ Doubled cs)) l.op := by
  have hword {s : String} {o : BinOp} (hs : s.toList ≠ []) (hl : words.lookup s.toList = some l) :
      Begins (fun cs => of? cs = some l ∨ (l = comparison ∧ Doubled cs)) (worded s o) :=
    worded_begins fun h => .inl ((of?_of_word h hs).trans hl)
  cases l with
  | or =>
      exact .rule (.or (spelled_begins fun _ => .inl (of?_cons (by decide) _))
        (hword (by decide) (by decide)))
  | and =>
      exact .rule (.or (spelled_begins fun _ => .inl (of?_cons (by decide) _))
        (hword (by decide) (by decide)))
  | comparison => exact compareOp_level.mono fun cs h => h.imp_right fun h => ⟨rfl, h⟩
  -- A single bar, sign or `&` is told from a doubled one and from an arrow by what follows.
  | bitOr =>
      refine .rule (.or (hword (by decide) (by decide)) ?_)
      rintro cs r hr
      obtain ⟨u, left, hbar, hr⟩ := bind_eq_some.mp hr
      obtain ⟨u', left', hnone, -⟩ := bind_eq_some.mp hr
      obtain rfl := text_eq_some.mp hbar
      have hleft : ¬['|'] <+: left := text_eq_none.mp (absent_eq_some.mp hnone).1
      exact .inl (of?_bar hleft)
  | bitXor =>
      exact .rule (.or (spelled_begins fun _ => .inl (of?_cons (by decide) _))
        (hword (by decide) (by decide)))
  | bitAnd =>
      refine .rule (.or (hword (by decide) (by decide)) (spelledBut_begins fun left hleft => ?_))
      have hleft : ¬['&'] <+: left := hleft
      have hof : of? ('&' :: left) = some bitAnd := of?_single (by decide) (by simp [signs, hleft])
      exact .inl hof
  | shift =>
      exact .rule (.or (spelled_begins fun _ => .inl (of?_cons (by decide) _))
        (.or (spelled_begins fun _ => .inl (of?_cons (by decide) _))
          (.or (hword (by decide) (by decide))
            (.or (hword (by decide) (by decide)) (hword (by decide) (by decide))))))
  | sum =>
      refine .rule (.or (spelled_begins fun _ => .inl (of?_cons (by decide) _))
        (spelledBut_begins fun left hleft => ?_))
      have hleft : ¬['>'] <+: left := hleft
      have hof : of? ('-' :: left) = some sum := of?_single (by decide) (by simp [signs, hleft])
      exact .inl hof
  | product =>
      exact .rule (.or (spelled_begins fun _ => .inl (of?_cons (by decide) _))
        (.or (spelled_begins fun _ => .inl (of?_cons (by decide) _))
          (.or (spelled_begins fun _ => .inl (of?_cons (by decide) _))
            (hword (by decide) (by decide)))))

/-- Where an operator is read that no further sign of a comparison follows, no operator of a
tighter level is read. -/
lemma op_eq_none {l k : Level} {cs left : List Char} {o : BinOp}
    (h : l.op.run cs = some (o, left)) (hleft : ∀ c ∈ left.head?, c ≠ '<' ∧ c ≠ '>')
    (hlk : l.rank < k.rank) : k.op.run cs = none := by
  refine (op_level k).run_eq_none ?_
  rintro (hk | ⟨rfl, hk⟩)
  · rcases op_level l h with hl | ⟨rfl, hl⟩
    · rw [hk] at hl
      cases hl
      exact Nat.lt_irrefl _ hlk
    · rcases hl with ⟨rest, rfl⟩ | ⟨rest, rfl⟩
      · cases h
        exact (hleft '<' rfl).1 rfl
      · cases h
        exact (hleft '>' rfl).2 rfl
  · have hshift := hk.of?
    rcases op_level l h with hl | ⟨rfl, -⟩
    · rw [hshift] at hl
      cases hl
      exact absurd hlk (by decide)
    · exact Nat.lt_irrefl _ hlk

/-- No operator begins otherwise than with a word or a sign. -/
lemma op_cons_eq_none {c : Char} (hword : isWordChar c = false)
    (hsign : c ∉ signs.filterMap fun s => s.1.head?) (l : Level) (cs : List Char) :
    l.op.run (c :: cs) = none := by
  have hnone : ∀ s ∈ signs, ¬s.1.isPrefixOf (c :: cs) = true := by
    intro s hs hspelled
    refine hsign (List.mem_filterMap.mpr ⟨s, hs, ?_⟩)
    have hne : s.1 ≠ [] := (by decide : ∀ s ∈ signs, s.1 ≠ []) s hs
    obtain ⟨d, rest, hd⟩ := List.exists_cons_of_ne_nil hne
    rw [hd] at hspelled ⊢
    simp only [List.isPrefixOf, Bool.and_eq_true, beq_iff_eq] at hspelled
    rw [hspelled.1, List.head?_cons]
  have hof : Level.of? (c :: cs) = none := by
    rw [of?_cons hword, List.find?_eq_none.mpr hnone, Option.bind_none]
  refine (op_level l).run_eq_none ?_
  rintro (hl | ⟨-, hl⟩)
  · simp [hof] at hl
  · simp [hl.of?] at hof

lemma op_nil (l : Level) : l.op.run [] = none := by
  refine (op_level l).run_eq_none ?_
  rintro (hl | ⟨-, hl⟩)
  · simp [of?, signs, takeWord_eq] at hl
  · simp [Doubled] at hl

end Level

/-! ## What an expression begins with -/

/-- A text that begins as an operand without signs before it does. -/
inductive OperandAt (cs : List Char) : Prop where
  | group (h : cs.head? = some '(')
  | literal (h : ∃ r, stringLiteral.run cs = some r)
  | word (h : (takeWord cs).1 ≠ [])
    (hword : ∀ s ∈ ["not", "lnot", "_"], (takeWord cs).1 ≠ s.toList)

/-- A text that begins as an expression does. -/
def ExprAt (cs : List Char) : Prop :=
  OperandAt cs ∨ (∃ r, unaryOp.run cs = some r) ∨ ∃ r, notOp.run cs = some r

lemma unaryOp_begins : Begins (fun cs => (cs.head? = some '-' ∨ cs.head? = some '~') ∨
    (takeWord cs).1 = "lnot".toList) unaryOp :=
  .rule (.or (spelled_begins fun _ => .inl (.inl rfl))
    (.or (spelled_begins fun _ => .inl (.inr rfl)) (worded_begins .inr)))

lemma notOp_begins :
    Begins (fun cs => cs.head? = some '!' ∨ (takeWord cs).1 = "not".toList) notOp :=
  .rule (.or (worded_begins .inr) (spelledBut_begins fun _ _ => .inl rfl))

namespace OperandAt

variable {cs : List Char}

/-- An operand begins with a word, a parenthesis or a quote. -/
lemma cons (h : OperandAt cs) :
    ∃ c rest, cs = c :: rest ∧ (isWordChar c = true ∨ c = '(' ∨ c = '"') := by
  cases h with
  | group h =>
      obtain ⟨rest, rfl⟩ := List.head?_eq_some_iff.mp h
      exact ⟨_, rest, rfl, .inr (.inl rfl)⟩
  | literal h =>
      obtain ⟨r, hr⟩ := h
      obtain ⟨rest, rfl⟩ := stringLiteral_begins hr
      exact ⟨_, rest, rfl, .inr (.inr rfl)⟩
  | word h =>
      obtain ⟨c, rest, rfl, hc⟩ := isWordChar_of_takeWord h
      exact ⟨c, rest, rfl, .inl hc⟩

/-- The word at the beginning of an operand is no sign. -/
lemma takeWord_ne (h : OperandAt cs) {s : String} (hs : s ∈ ["not", "lnot", "_"]) :
    (takeWord cs).1 ≠ s.toList := by
  have hne : s.toList ≠ [] := (by decide : ∀ s ∈ ["not", "lnot", "_"], s.toList ≠ []) s hs
  obtain ⟨c, rest, rfl, hc⟩ := h.cons
  rcases hc with hc | rfl | rfl
  · cases h with
    | group h =>
        cases h
        exact absurd hc (by decide)
    | literal h =>
        obtain ⟨r, hr⟩ := h
        obtain ⟨rest', heq⟩ := stringLiteral_begins hr
        cases heq
        exact absurd hc (by decide)
    | word _ hword => exact hword s hs
  · rw [takeWord_cons_eq_nil (by decide)]
    exact hne.symm
  · rw [takeWord_cons_eq_nil (by decide)]
    exact hne.symm

lemma unaryOp_eq_none (h : OperandAt cs) : unaryOp.run cs = none := by
  refine unaryOp_begins.run_eq_none ?_
  rintro (hsign | hword)
  · obtain ⟨c, rest, rfl, hc⟩ := h.cons
    simp only [List.head?_cons, Option.some.injEq] at hsign
    rcases hsign with rfl | rfl <;> revert hc <;> decide
  · exact h.takeWord_ne (by simp) hword

lemma notOp_eq_none (h : OperandAt cs) : notOp.run cs = none := by
  refine notOp_begins.run_eq_none ?_
  rintro (hsign | hword)
  · obtain ⟨c, rest, rfl, hc⟩ := h.cons
    simp only [List.head?_cons, Option.some.injEq] at hsign
    subst hsign
    revert hc
    decide
  · exact h.takeWord_ne (by simp) hword

end OperandAt

/-- No negation is read where a sign is. -/
lemma notOp_eq_none_of_unaryOp {cs : List Char} {r : UnOp × List Char}
    (h : unaryOp.run cs = some r) : notOp.run cs = none := by
  refine notOp_begins.run_eq_none ?_
  rintro (hnot | hnot)
  · have hword := takeWord_eq_nil hnot (by decide)
    rcases unaryOp_begins h with hsign | hlnot
    · simp [hnot] at hsign
    · exact absurd (hlnot.symm.trans hword) (by decide)
  · rcases unaryOp_begins h with (hsign | hsign) | hlnot
    · exact absurd (hnot.symm.trans (takeWord_eq_nil hsign (by decide))) (by decide)
    · exact absurd (hnot.symm.trans (takeWord_eq_nil hsign (by decide))) (by decide)
    · exact absurd (hnot.symm.trans hlnot) (by decide)

namespace ExprAt

variable {cs : List Char}

/-- An expression begins with a word, a parenthesis, a quote or a sign. -/
lemma cons (h : ExprAt cs) :
    ∃ c rest, cs = c :: rest ∧ (isWordChar c = true ∨ c ∈ ['(', '"', '-', '~', '!']) := by
  have hsign {c : Char} (hc : cs.head? = some c) (hmem : c ∈ ['(', '"', '-', '~', '!']) :
      ∃ c rest, cs = c :: rest ∧ (isWordChar c = true ∨ c ∈ ['(', '"', '-', '~', '!']) := by
    obtain ⟨rest, rfl⟩ := List.head?_eq_some_iff.mp hc
    exact ⟨c, rest, rfl, .inr hmem⟩
  have hword {s : String} (hs : s.toList ≠ []) (hcs : (takeWord cs).1 = s.toList) :
      ∃ c rest, cs = c :: rest ∧ (isWordChar c = true ∨ c ∈ ['(', '"', '-', '~', '!']) := by
    obtain ⟨c, rest, hcs, hc⟩ := isWordChar_of_takeWord (hcs ▸ hs)
    exact ⟨c, rest, hcs, .inl hc⟩
  rcases h with h | ⟨r, hr⟩ | ⟨r, hr⟩
  · obtain ⟨c, rest, hcs, hc | rfl | rfl⟩ := h.cons
    · exact ⟨c, rest, hcs, .inl hc⟩
    · exact hsign (by rw [hcs, List.head?_cons]) (by decide)
    · exact hsign (by rw [hcs, List.head?_cons]) (by decide)
  · rcases unaryOp_begins hr with (hc | hc) | hlnot
    · exact hsign hc (by decide)
    · exact hsign hc (by decide)
    · exact hword (by decide) hlnot
  · rcases notOp_begins hr with hc | hnot
    · exact hsign hc (by decide)
    · exact hword (by decide) hnot

/-- No expression begins with a lone wildcard. -/
lemma wildcard_eq_none (h : ExprAt cs) : wildcard.run cs = none := by
  refine keyword_eq_none fun hword => ?_
  rcases h with h | ⟨r, hr⟩ | ⟨r, hr⟩
  · exact h.takeWord_ne (by simp) hword
  · rcases unaryOp_begins hr with (hc | hc) | hlnot
    · exact absurd (hword.symm.trans (takeWord_eq_nil hc (by decide))) (by decide)
    · exact absurd (hword.symm.trans (takeWord_eq_nil hc (by decide))) (by decide)
    · exact absurd (hword.symm.trans hlnot) (by decide)
  · rcases notOp_begins hr with hc | hnot
    · exact absurd (hword.symm.trans (takeWord_eq_nil hc (by decide))) (by decide)
    · exact absurd (hword.symm.trans hnot) (by decide)

end ExprAt

/-! ## Operators with more text behind -/

/-- The head of an arm: a string literal and an arrow. -/
lemma armHead_eq_some {cs left : List Char} {r : Nat × Denoted (List UInt8)} :
    armHead.run cs = some (r, left) ↔ ∃ fields mid, stringLiteral.run cs = some (fields, mid) ∧
      skipBlank false mid = "->".toList ++ left ∧ r = (cs.length, fields) := by
  simp only [armHead, run_rule, bind_eq_some, run_left, run_blank, text_eq_some, run_pure]
  constructor
  · rintro ⟨start, cs', hstart, fields, mid, hfields, u, rest, hblank, v, left', harrow, h⟩
    cases hstart
    cases hblank
    cases h
    exact ⟨fields, mid, hfields, harrow, rfl⟩
  · rintro ⟨fields, mid, hfields, harrow, rfl⟩
    exact ⟨_, _, rfl, fields, mid, hfields, (), _, rfl, (), left, harrow, rfl⟩

lemma bitOrSign_eq_some {cs left : List Char} {o : BinOp} :
    (do
      text "|"
      absent (text "|")
      absent (do blank; armHead)
      pure BinOp.bitOr : Reader BinOp).run cs = some (o, left) ↔
    cs = "|".toList ++ left ∧ (text "|").run left = none ∧
      armHead.run (skipBlank false left) = none ∧ o = .bitOr := by
  simp only [bind_eq_some, text_eq_some, absent_eq_some, run_blank_bind, run_pure]
  constructor
  · rintro ⟨u, mid, hmid, u', mid', ⟨hbar, heq⟩, u'', mid'', ⟨harm, heq'⟩, h⟩
    cases heq
    cases heq'
    cases h
    exact ⟨hmid, hbar, harm, rfl⟩
  · rintro ⟨hcs, hbar, harm, rfl⟩
    exact ⟨(), left, hcs, (), left, ⟨hbar, rfl⟩, (), left, ⟨harm, rfl⟩, rfl⟩

namespace Level

/-- No operator is read where a bar introduces an arm. -/
lemma op_bar_eq_none {cs : List Char} {r : (Nat × Denoted (List UInt8)) × List Char}
    (h : armHead.run (skipBlank false cs) = some r) (l : Level) : l.op.run ('|' :: cs) = none := by
  have hbar : ¬['|'] <+: cs := by
    rintro ⟨rest, rfl⟩
    obtain ⟨fields, mid, hfields, -⟩ := armHead_eq_some.mp h
    obtain ⟨rest', hquote⟩ := stringLiteral_begins hfields
    cases hquote
  by_cases hl : l = bitOr
  · subst hl
    refine Option.eq_none_iff_forall_ne_some.mpr fun ⟨o, left⟩ hr => ?_
    rcases or_eq_some ((run_rule _ _).symm.trans hr) with hr | hr
    · have hword := (worded_eq_some.mp hr).1
      rw [takeWord_cons_eq_nil (by decide)] at hword
      exact absurd hword (by decide)
    · obtain ⟨hcs, -, hnone, -⟩ := bitOrSign_eq_some.mp hr
      cases hcs
      exact Option.some_ne_none _ (h.symm.trans hnone)
  · refine (op_level l).run_eq_none ?_
    rintro (hof | ⟨-, hdoubled⟩)
    · exact hl (Option.some.inj (hof.symm.trans (of?_bar hbar)))
    · cases hdoubled.of?.symm.trans (of?_bar hbar)

/-- An operator in front of what is no head of an arm. -/
lemma op_extends (h : Behind more) (l : Level) :
    Extends more (fun left => armHead.run (skipBlank false (left ++ more)) = none) l.op l.op := by
  cases l with
  | or => exact .of_local (.rule (.or (spelled_local h _ _ (by decide)) (worded_local h _ _)))
  | and => exact .of_local (.rule (.or (spelled_local h _ _ (by decide)) (worded_local h _ _)))
  | comparison =>
      exact .of_local (.rule (.or (spelled_local h _ _ (by decide))
        (.or (spelled_local h _ _ (by decide)) (.or (spelled_local h _ _ (by decide))
        (.or (spelled_local h _ _ (by decide)) (.or (spelled_local h _ _ (by decide))
        (.or (spelled_local h _ _ (by decide)) (.or (spelled_local h _ _ (by decide))
        (spelled_local h _ _ (by decide))))))))))
  -- A bar is an operator unless it opens the next arm, so this one depends on what follows.
  | bitOr =>
      refine .rule (.local_or (worded_local h _ _) fun cs o left hr hleft => ?_)
      obtain ⟨rfl, hbar, -, rfl⟩ := bitOrSign_eq_some.mp hr
      exact bitOrSign_eq_some.mpr
        ⟨by simp, (text_local h "|" (by decide)).run_eq_none hbar, hleft, rfl⟩
  | bitXor => exact .of_local (.rule (.or (spelled_local h _ _ (by decide)) (worded_local h _ _)))
  | bitAnd =>
      exact .of_local (.rule (.or (worded_local h _ _)
        (spelledBut_local h _ _ _ (by decide) (by decide))))
  | shift =>
      exact .of_local (.rule (.or (spelled_local h _ _ (by decide))
        (.or (spelled_local h _ _ (by decide))
          (.or (worded_local h _ _) (.or (worded_local h _ _) (worded_local h _ _))))))
  | sum =>
      exact .of_local (.rule (.or (spelled_local h _ _ (by decide))
        (spelledBut_local h _ _ _ (by decide) (by decide))))
  | product =>
      exact .of_local (.rule (.or (spelled_local h _ _ (by decide))
        (.or (spelled_local h _ _ (by decide)) (.or (spelled_local h _ _ (by decide))
          (worded_local h _ _)))))

end Level

lemma unaryOp_local (h : Behind more) : Local more unaryOp :=
  .rule (.or (spelled_local h _ _ (by decide)) (.or (spelled_local h _ _ (by decide))
    (worded_local h _ _)))

lemma notOp_local (h : Behind more) : Local more notOp :=
  .rule (.or (worded_local h _ _) (spelledBut_local h _ _ _ (by decide) (by decide)))

end BitPattern.Grammar
