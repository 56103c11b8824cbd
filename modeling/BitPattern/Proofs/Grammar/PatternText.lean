import BitPattern.Proofs.Grammar.Numeral
import BitPattern.Proofs.Grammar.Pattern
import BitPattern.Proofs.Grammar.Rendering

/-!
# Patterns that are read again

A rendering of a pattern has parentheses around whatever is given a further name, and nowhere else.
`patternWithin_toText` says that it is read as the pattern it is the rendering of, by the induction
on further names: what stands in the parentheses is read up to the one that closes them, neither a
bar nor the word `as` can stand there (`Ended`), and each pair of them takes one of the groups that
may be inside each other.

This holds of the patterns that are read at all, whose names are identifiers (`pattern_gives`), if
their string literals are plain characters and their integers are short enough to be written.  The
main result is `parse_toText_of_plain`.
-/

namespace BitPattern

namespace Pattern

/-- A pattern as it is read: its names are identifiers. -/
def Formed : Pattern → Prop
  | var x => Grammar.IsName x
  | named p x => p.Formed ∧ Grammar.IsName x
  | wildcard | constant _ | oneOf _ _ _ => True

/-- The constants of a pattern. -/
def constants : Pattern → List Constant
  | constant c => [c]
  | oneOf c d cs => c :: d :: cs
  | named p _ => p.constants
  | wildcard | var _ => []

/-- The number of parentheses inside each other in the rendering of a pattern. -/
def depth : Pattern → ℕ
  | named p _ => p.depth + 1
  | wildcard | var _ | constant _ | oneOf _ _ _ => 0

end Pattern

/-- The bytes of a string literal are plain characters. -/
def Constant.Plain : Constant → Prop
  | int _ => True
  | bytes b => ∀ byte ∈ b, Grammar.isPlainByte byte = true

/-- The bytes of all string literals are plain characters. -/
abbrev Pattern.Plain (p : Pattern) : Prop :=
  ∀ c ∈ p.constants, c.Plain

/-- A constant is written, and read again from what is written. -/
def Constant.Legible (c : Constant) : Prop :=
  c.Plain ∧ c.isWritable = true

/-- All constants are written, and read again from what is written. -/
abbrev Pattern.Legible (p : Pattern) : Prop :=
  ∀ c ∈ p.constants, c.Legible

lemma Pattern.isWritable_iff {p : Pattern} :
    p.isWritable = true ↔ ∀ c ∈ p.constants, c.isWritable = true := by
  induction p with
  | named p x ih => exact ih
  | oneOf c d cs => exact List.all_eq_true
  | _ => simp [isWritable, constants]

lemma Pattern.written_eq_ok {p : Pattern} {t : String} :
    p.written = .ok t ↔ p.isWritable = true ∧ p.toText = t := by
  unfold written
  split
  · rename_i h
    exact ⟨fun heq => ⟨h, Except.ok.inj heq⟩, fun heq => congrArg Except.ok heq.2⟩
  · rename_i h
    exact ⟨fun heq => (by cases heq), fun heq => absurd heq.1 h⟩

namespace Grammar

open BitPattern.Text Reader

/-! ## What patterns are read -/

section Image

variable {q : Reader (Denoted Pattern)}

/-- What is read, if it denotes anything, is a pattern as it is read. -/
def DenotesFormed (d : Denoted Pattern) : Prop :=
  ∀ p, d = .ok p → p.Formed

lemma DenotesFormed.ok {p : Pattern} (h : p.Formed) : DenotesFormed (.ok p) := by
  intro p' hp
  cases hp
  exact h

lemma constant_gives : Gives DenotesFormed constant := by
  have hvalue {α : Type} (make : α → Constant) (d : Denoted α) :
      DenotesFormed ((fun a => Pattern.constant (make a)) <$> d) := by
    intro p hp
    obtain ⟨a, -, rfl⟩ := result_map_eq_ok.mp hp
    trivial
  exact .rule (.or (.bind (.trivial _) fun n _ => .pure (hvalue .int n))
    (.bind (.trivial _) fun b _ => .pure (hvalue .bytes b)))

lemma atomPattern_gives (hq : Gives DenotesFormed q) : Gives DenotesFormed (atomPattern q) := by
  have hgroup : Gives DenotesFormed (groupPattern q) :=
    .rule (.bind (.trivial _) fun _ _ => .bind (.trivial _) fun _ _ => .bind hq fun _ hd =>
      .bind (.trivial _) fun _ _ => .bind (.trivial _) fun _ _ => .pure hd)
  exact .rule (.or (.bind (.trivial _) fun _ _ => .pure (.ok trivial)) (.or constant_gives
    (.or (.bind identifier_gives fun _ hx => .pure (.ok hx)) hgroup)))

/-- Patterns that are constants all of them, and the constants. -/
lemma mapM_constantOf?_eq_some {ps : List Pattern} {cs : List Constant} :
    ps.mapM constantOf? = some cs ↔ ps = cs.map .constant := by
  induction ps generalizing cs with
  | nil =>
      rw [List.mapM_nil]
      cases cs <;> simp
  | cons p ps ih =>
      rw [List.mapM_cons]
      constructor
      · intro h
        obtain ⟨c, hc, h⟩ := Option.bind_eq_some_iff.mp h
        obtain ⟨cs', hcs, h⟩ := Option.bind_eq_some_iff.mp h
        cases h
        unfold constantOf? at hc
        split at hc
        · cases hc
          rw [ih.mp hcs, List.map_cons]
        · cases hc
      · intro h
        cases cs with
        | nil => cases h
        | cons c cs =>
            obtain ⟨rfl, hps⟩ := List.cons.inj h
            rw [ih.mpr hps]
            rfl

/-- Alternatives are a single pattern, or constants. -/
lemma alternatives_denotesFormed {text : List Char} {first : Denoted Pattern}
    {rest : List (Denoted Pattern)} (h : DenotesFormed first) :
    DenotesFormed (alternatives text first rest) := by
  intro p hp
  unfold alternatives at hp
  obtain ⟨p', hfirst, hp⟩ := result_bind_eq_ok.mp hp
  obtain ⟨ps, -, hp⟩ := result_bind_eq_ok.mp hp
  by_cases hsingle : ps.isEmpty = true
  · rw [if_pos hsingle] at hp
    cases hp
    exact h _ hfirst
  · rw [if_neg hsingle] at hp
    cases hconstants : (p' :: ps).mapM constantOf? with
    | none =>
        rw [hconstants] at hp
        cases hp
    | some cs =>
        rw [hconstants] at hp
        split at hp
        · cases hp
          trivial
        · cases hp

lemma orPattern_gives (hq : Gives DenotesFormed q) : Gives DenotesFormed (orPattern q) := by
  have hfirst : Gives (fun r => DenotesFormed r.1) (do
      let first ← atomPattern q
      let rest ← many (nextAtom q)
      pure (first, rest) : Reader (Denoted Pattern × List (Denoted Pattern))) :=
    .bind (atomPattern_gives hq) fun _ hfirst => .bind (.trivial _) fun _ _ => .pure hfirst
  exact .rule (.bind hfirst.withText fun _ hr => .pure (alternatives_denotesFormed hr))

lemma furtherName_gives : Gives IsName furtherName :=
  .bind (.trivial _) fun _ _ => .bind (.trivial _) fun _ _ => .bind (.trivial _) fun _ _ =>
    identifier_gives

/-- What a pattern is read as has identifiers for names. -/
theorem pattern_gives : Gives DenotesFormed pattern := by
  have hwithin (limit : ℕ) : Gives DenotesFormed (patternWithin limit) := by
    induction limit with
    | zero => exact fun _ _ _ hr => by cases hr
    | succ limit ih =>
        refine .rule (.bind (orPattern_gives ih) fun d hd => .or (.bind furtherName_gives
          fun x hx => .pure fun p hp => ?_) (.pure hd))
        obtain ⟨p', hp', rfl⟩ := result_map_eq_ok.mp hp
        exact ⟨hd p' hp', hx⟩
  intro cs d left hr
  rw [run_pattern] at hr
  exact hwithin _ hr

end Image

/-! ## Constants and names -/

section Atoms

variable {q : Reader (Denoted Pattern)} {cs rest left : List Char}

/-- A minus sign before a number. -/
lemma signedInteger_minus {n : ℤ} (h : integer.run cs = some (.ok n, left)) :
    signedInteger.run ('-' :: cs) = some (.ok (-n), left) := by
  obtain ⟨hword, rfl⟩ := wordOf_eq_some.mp h
  obtain ⟨⟨radix, digits⟩, hparts, hvalue⟩ := Option.map_eq_some_iff.mp hword
  dsimp only at hvalue
  unfold numberValue at hvalue
  split at hvalue
  · rename_i hnumber
    cases hvalue
    rw [signedInteger, run_token]
    simp only [hparts, Option.map_some, negativeValue, if_pos hnumber]
  · cases hvalue

/-- An integer that is short enough is written as it is read. -/
lemma signedInteger_decimal {n : ℤ} (h : isWritable n = true)
    (hrest : ∀ c ∈ rest.head?, isWordChar c = false) :
    signedInteger.run ((decimal n).toList ++ rest) = some (.ok n, rest) := by
  have hinteger : integer.run (Nat.toDigits 10 n.natAbs ++ rest) =
      some (.ok (n.natAbs : ℤ), rest) := wordOf_append (integer_toDigits (n := n.natAbs) h) hrest
  rw [toList_decimal]
  by_cases hn : n < 0
  · have hvalue : -(n.natAbs : ℤ) = n := by omega
    rw [if_pos hn, List.append_assoc, List.singleton_append, signedInteger_minus hinteger, hvalue]
  · have hvalue : (n.natAbs : ℤ) = n := Int.natAbs_of_nonneg (not_lt.mp hn)
    have hhead : (Nat.toDigits 10 n.natAbs ++ rest).head? ≠ some '-' := by
      obtain ⟨c, hc, hword⟩ := wordOf_head rfl hinteger
      rw [hc]
      rintro ⟨⟩
      exact absurd hword (by decide)
    rw [if_neg hn, List.nil_append, signedInteger_unsigned hhead, hinteger, hvalue]

lemma constant_integer {d : Denoted ℤ} (h : signedInteger.run cs = some (d, left)) :
    constant.run cs = some ((fun n => .constant (.int n)) <$> d, left) := by
  rw [constant, run_rule, run_or, run_bind, h]
  rfl

lemma constant_string {d : Denoted (List UInt8)} (h : stringLiteral.run cs = some (d, left)) :
    constant.run cs = some ((fun b => .constant (.bytes b)) <$> d, left) := by
  obtain ⟨rest, rfl⟩ := stringLiteral_begins h
  have hinteger : signedInteger.run ('"' :: rest) = none := rfl
  rw [constant, run_rule, run_or, run_bind, hinteger, Option.bind_none, Option.none_or, run_bind, h]
  rfl

lemma constant_toText {c : Constant} (hc : c.Legible)
    (hrest : ∀ ch ∈ rest.head?, isWordChar ch = false) :
    constant.run (c.toText.toList ++ rest) = some (.ok (.constant c), rest) := by
  cases c with
  | int n => exact constant_integer (signedInteger_decimal hc.2 hrest)
  | bytes b => exact constant_string (stringLiteral_literalText hc.1 rest)

/-- No identifier is a constant. -/
lemma constant_eq_none {x : String} (h : identifier.run cs = some (x, left)) :
    constant.run cs = none := by
  obtain ⟨c, hc, hword⟩ := wordOf_head rfl h
  have hhead : cs.head? ≠ some '-' := by
    rw [hc]
    rintro ⟨⟩
    exact absurd hword (by decide)
  have hinteger : integer.run cs = none := by
    refine Option.eq_none_iff_forall_ne_some.mpr fun r hr => ?_
    obtain ⟨parts, hparts, -⟩ := Option.map_eq_some_iff.mp (wordOf_eq_some.mp hr).1
    have hname := (wordOf_eq_some.mp h).1
    rw [nameOf?_eq_none hparts] at hname
    cases hname
  rw [constant, run_rule, run_or, run_bind, signedInteger_unsigned hhead, hinteger,
    Option.bind_none, Option.none_or, run_bind, stringLiteral_eq_none hc hword, Option.bind_none]

lemma exprAt_constant {c : Constant} (hc : c.Legible) (hrest : Follows rest) :
    ExprAt (c.toText.toList ++ rest) := by
  cases c with
  | int n =>
      have hat := @exprAt_chars (.int n) rest ⟨trivial, trivial, hc.2⟩ hrest
      rwa [chars, Expr.toText] at hat
  | bytes b =>
      have hat := @exprAt_chars (.bytes b) rest ⟨trivial, hc.1, trivial⟩ hrest
      rwa [chars, Expr.toText] at hat

lemma exprAt_name {x : String} (hx : IsName x) (hrest : Follows rest) :
    ExprAt (x.toList ++ rest) :=
  .inl (identifier_begins (identifier_name hx hrest.word))

/-! ## Atoms -/

lemma atomPattern_wildcard (hrest : Follows rest) :
    (atomPattern q).run ("_".toList ++ rest) = some (.ok .wildcard, rest) := by
  have hword : "_".toList.all isWordChar = true := by decide
  have hread : wildcard.run ("_".toList ++ rest) = some ((), rest) :=
    run_wordOf_append _ (List.all_eq_true.mp hword) hrest.word
  rw [atomPattern, run_rule, run_or, run_bind, hread]
  rfl

lemma atomPattern_constant {c : Constant} (hc : c.Legible) (hrest : Follows rest) :
    (atomPattern q).run (c.toText.toList ++ rest) = some (.ok (.constant c), rest) := by
  rw [atomPattern, run_rule, run_or, run_bind, (exprAt_constant hc hrest).wildcard_eq_none,
    Option.bind_none, Option.none_or, run_or, constant_toText hc hrest.word, Option.some_or]

lemma atomPattern_var {x : String} (hx : IsName x) (hrest : Follows rest) :
    (atomPattern q).run (x.toList ++ rest) = some (.ok (.var x), rest) := by
  have hread := identifier_name hx hrest.word
  rw [atomPattern, run_rule, run_or, run_bind, (exprAt_name hx hrest).wildcard_eq_none,
    Option.bind_none, Option.none_or, run_or, constant_eq_none hread, Option.none_or, run_or,
    run_bind, hread]
  rfl

/-- A pattern in parentheses is read up to the one that closes them. -/
lemma atomPattern_group {d : Denoted Pattern} (hcs : skipBlank false cs = cs)
    (h : q.run cs = some (d, ')' :: left)) : (atomPattern q).run ('(' :: cs) = some (d, left) := by
  have hgroup : (groupPattern q).run ('(' :: cs) = some (d, left) := by
    rw [groupPattern, run_rule]
    refine bind_eq_some.mpr ⟨(), cs, text_eq_some.mpr rfl, ?_⟩
    rw [run_blank_bind, hcs]
    refine bind_eq_some.mpr ⟨d, ')' :: left, h, ?_⟩
    rw [run_blank_bind]
    exact bind_eq_some.mpr ⟨(), left, text_eq_some.mpr rfl, rfl⟩
  have hwildcard : wildcard.run ('(' :: cs) = none := rfl
  have hconstant : constant.run ('(' :: cs) = none := rfl
  have hname : identifier.run ('(' :: cs) = none := rfl
  rw [atomPattern, run_rule, run_or, run_bind, hwildcard, Option.bind_none, Option.none_or, run_or,
    hconstant, Option.none_or, run_or, run_bind, hname, Option.bind_none, Option.none_or, hgroup]

/-! ## Alternatives -/

/-- The constants behind the first one of several. -/
def barred (cs : List Constant) : List Char :=
  cs.flatMap fun c => " | ".toList ++ c.toText.toList

lemma toList_oneOf (c d : Constant) (cs : List Constant) :
    (Pattern.oneOf c d cs).toText.toList = c.toText.toList ++ barred (d :: cs) := by
  rw [Pattern.toText, List.map_cons, toList_intercalate_cons, List.flatMap_map]
  rfl

lemma barred_cons (c : Constant) (cs : List Constant) (rest : List Char) :
    barred (c :: cs) ++ rest = ' ' :: '|' :: ' ' :: (c.toText.toList ++ (barred cs ++ rest)) := by
  simp [barred]

lemma length_le_barred (cs : List Constant) : cs.length ≤ (barred cs).length := by
  induction cs with
  | nil => exact Nat.le_refl _
  | cons c cs ih =>
      have hcons := congrArg List.length (barred_cons c cs [])
      simp only [List.append_nil, List.length_cons, List.length_append] at hcons ⊢
      omega

lemma follows_barred (hrest : Follows rest) (cs : List Constant) : Follows (barred cs ++ rest) := by
  cases cs with
  | nil => exact hrest
  | cons c cs =>
      rw [barred_cons]
      refine ⟨?_, fun hnext => by cases hnext⟩
      rintro ch ⟨⟩
      decide

/-- Each bar and the constant behind it are read as a further atom. -/
lemma row_barred {cs : List Constant} (hcs : ∀ c ∈ cs, c.Legible) (hrest : Follows rest) :
    Row (nextAtom q) (barred cs ++ rest) (cs.map fun c => .ok (.constant c)) rest := by
  induction cs with
  | nil => exact .nil _
  | cons c cs ih =>
      obtain ⟨hc, hcs⟩ := List.forall_mem_cons.mp hcs
      have hfollows := follows_barred hrest cs
      have hskip : skipBlank false (' ' :: (c.toText.toList ++ (barred cs ++ rest))) =
          c.toText.toList ++ (barred cs ++ rest) := (exprAt_constant hc hfollows).skipBlank_eq
      have hbar : skipBlank false (' ' :: '|' :: ' ' :: (c.toText.toList ++ (barred cs ++ rest))) =
          '|' :: ' ' :: (c.toText.toList ++ (barred cs ++ rest)) := rfl
      refine .cons ?_ (ih hcs)
      rw [barred_cons, nextAtom, run_rule, run_blank_bind, hbar]
      refine bind_eq_some.mpr ⟨(), _, text_eq_some.mpr rfl, ?_⟩
      rw [run_blank_bind, hskip]
      exact atomPattern_constant hc hfollows

lemma alternatives_constants (text : List Char) (c d : Constant) (cs : List Constant) :
    alternatives text (.ok (.constant c)) ((d :: cs).map fun c => .ok (.constant c)) =
      .ok (.oneOf c d cs) := by
  have hrest : ((d :: cs).map fun c => (.ok (.constant c) : Denoted Pattern)).mapM id =
      .ok ((d :: cs).map .constant) := result_mapM_id_eq_ok.mpr (by rw [List.map_map]; rfl)
  have hconstants : (Pattern.constant c :: (d :: cs).map .constant).mapM constantOf? =
      some (c :: d :: cs) := mapM_constantOf?_eq_some.mpr rfl
  have hne : ¬((d :: cs).map Pattern.constant).isEmpty = true := by simp
  refine result_bind_eq_ok.mpr ⟨_, rfl, result_bind_eq_ok.mpr ⟨_, hrest, ?_⟩⟩
  rw [if_neg hne, hconstants]
  rfl

/-- Atoms with bars between them, up to where no bar follows. -/
lemma orPattern_reads {first : Denoted Pattern} {ds : List (Denoted Pattern)} {mid : List Char}
    (hfirst : (atomPattern q).run cs = some (first, mid)) (hrow : Row (nextAtom q) mid ds left)
    (hlength : ds.length ≤ mid.length) (hbar : next left ≠ some '|') :
    ∃ text, (orPattern q).run cs = some (alternatives text first ds, left) := by
  have hmany : (many (nextAtom q)).run mid = some (ds, left) :=
    hrow.run_manyWithin rfl (nextAtom_eq_none hbar) hlength
  rw [orPattern, run_rule]
  refine ⟨_, bind_eq_some.mpr ⟨((first, ds), cs.take (cs.length - left.length)), left, ?_, rfl⟩⟩
  rw [run_withText]
  exact Option.map_eq_some_iff.mpr ⟨((first, ds), left), bind_eq_some.mpr ⟨first, mid, hfirst,
    bind_eq_some.mpr ⟨ds, left, hmany, rfl⟩⟩, rfl⟩

/-- A single atom. -/
lemma orPattern_single {p : Pattern} (h : (atomPattern q).run cs = some (.ok p, left))
    (hbar : next left ≠ some '|') : (orPattern q).run cs = some (.ok p, left) := by
  obtain ⟨text, hread⟩ := orPattern_reads h (.nil left) (Nat.zero_le _) hbar
  exact hread

/-! ## Further names -/

/-- Nothing stands behind a text, or the parenthesis that closes a group. -/
def Ended (rest : List Char) : Prop :=
  ∀ c ∈ rest.head?, c = ')'

lemma Ended.nil : Ended [] := fun c hc => absurd hc (Option.not_mem_none c)

lemma Ended.close (cs : List Char) : Ended (')' :: cs) := by
  rintro c ⟨⟩
  rfl

lemma Ended.eq (h : Ended rest) : rest = [] ∨ ∃ cs, rest = ')' :: cs := by
  cases rest with
  | nil => exact .inl rfl
  | cons c cs =>
      obtain rfl := h c rfl
      exact .inr ⟨cs, rfl⟩

lemma Ended.follows (h : Ended rest) : Follows rest := by
  obtain rfl | ⟨cs, rfl⟩ := h.eq
  · exact .nil
  · exact .close cs

lemma Ended.bar (h : Ended rest) : next rest ≠ some '|' := by
  obtain rfl | ⟨cs, rfl⟩ := h.eq
  · decide
  · intro hnext
    cases hnext

lemma Ended.furtherName_eq_none (h : Ended rest) : furtherName.run rest = none := by
  obtain rfl | ⟨cs, rfl⟩ := h.eq
  · rfl
  · rfl

/-- The word `as` and a name. -/
lemma furtherName_reads {x : String} (hx : IsName x) (hrest : Follows rest) :
    furtherName.run (" as ".toList ++ (x.toList ++ rest)) = some (x, rest) := by
  have hblank : skipBlank false (" as ".toList ++ (x.toList ++ rest)) =
      "as".toList ++ ' ' :: (x.toList ++ rest) := rfl
  have hkeyword : (keyword "as").run ("as".toList ++ ' ' :: (x.toList ++ rest)) =
      some ((), ' ' :: (x.toList ++ rest)) := keyword_eq_some.mpr ⟨rfl, rfl⟩
  have hspace : skipBlank false (' ' :: (x.toList ++ rest)) = x.toList ++ rest :=
    (exprAt_name hx hrest).skipBlank_eq
  rw [furtherName, run_blank_bind, hblank, run_bind, hkeyword, Option.bind_some, run_blank_bind,
    hspace, identifier_name hx hrest.word]

lemma patternWithin_unnamed {limit : ℕ} {d : Denoted Pattern}
    (h : (orPattern (patternWithin limit)).run cs = some (d, rest)) (hrest : Ended rest) :
    (patternWithin (limit + 1)).run cs = some (d, rest) := by
  rw [patternWithin, run_rule, run_bind, h, Option.bind_some, run_or, run_bind,
    hrest.furtherName_eq_none]
  rfl

/-- A constant up to the end of a text. -/
lemma pattern_constant {d : Denoted Pattern} (hwildcard : wildcard.run cs = none)
    (h : constant.run cs = some (d, [])) : pattern.run cs = some (d, []) := by
  have hatom (q : Reader (Denoted Pattern)) : (atomPattern q).run cs = some (d, []) := by
    rw [atomPattern, run_rule, run_or, run_bind, hwildcard, Option.bind_none, Option.none_or,
      run_or, h, Option.some_or]
  have hsingle (text : List Char) : alternatives text d [] = d := by
    cases d <;> rfl
  obtain ⟨text, hor⟩ := orPattern_reads (hatom (patternWithin cs.length)) (.nil []) (Nat.zero_le _)
    (by decide)
  rw [hsingle] at hor
  rw [run_pattern]
  exact patternWithin_unnamed hor .nil

/-- An integer up to the end of a text. -/
lemma pattern_integer {d : Denoted ℤ} (hhead : cs.head? ≠ some '-')
    (h : integer.run cs = some (d, [])) :
    pattern.run cs = some ((fun n => .constant (.int n)) <$> d, []) := by
  have hat : ExprAt cs := .inl (literal_begins (literal_integer h))
  exact pattern_constant hat.wildcard_eq_none
    (constant_integer ((signedInteger_unsigned hhead).trans h))

lemma patternWithin_named {limit : ℕ} {p : Pattern} {x : String}
    (h : (orPattern (patternWithin limit)).run cs = some (.ok p, left))
    (hname : furtherName.run left = some (x, rest)) :
    (patternWithin (limit + 1)).run cs = some (.ok (.named p x), rest) := by
  rw [patternWithin, run_rule, run_bind, h, Option.bind_some, run_or, run_bind, hname]
  rfl

/-! ## Renderings -/

lemma toList_named (p : Pattern) (x : String) (rest : List Char) :
    (Pattern.named p x).toText.toList ++ rest =
      '(' :: (p.toText.toList ++ ')' :: (" as ".toList ++ (x.toList ++ rest))) := by
  rw [Pattern.toText]
  simp

/-- The first character of a rendering is not blank and begins no comment. -/
lemma toText_head {p : Pattern} (hp : p.Formed) (hlegible : p.Legible)
    (hrest : Follows rest) :
    ∃ c tail, p.toText.toList ++ rest = c :: tail ∧ isBlank c = false ∧ c ≠ '#' := by
  cases p with
  | wildcard => exact ⟨'_', rest, rfl, by decide, by decide⟩
  | var x => exact (exprAt_name hp hrest).cons_plain
  | constant c => exact (exprAt_constant (hlegible c (.head _)) hrest).cons_plain
  | oneOf c d cs =>
      rw [toList_oneOf, List.append_assoc]
      exact (exprAt_constant (hlegible c (.head _)) (follows_barred hrest (d :: cs))).cons_plain
  | named p x => exact ⟨'(', _, toList_named p x rest, by decide, by decide⟩

lemma skipBlank_toText {p : Pattern} (hp : p.Formed) (hlegible : p.Legible)
    (hrest : Follows rest) :
    skipBlank false (p.toText.toList ++ rest) = p.toText.toList ++ rest := by
  obtain ⟨c, tail, htext, hblank, hhash⟩ := toText_head hp hlegible hrest
  rw [htext]
  exact skipBlank_cons tail (isWhite_eq_false hblank) hhash

/-- What has no further name is read without a look into any group. -/
lemma orPattern_toText {p : Pattern} (hp : p.Formed) (hlegible : p.Legible)
    (hdepth : p.depth = 0) (hrest : Follows rest) (hbar : next rest ≠ some '|') :
    (orPattern q).run (p.toText.toList ++ rest) = some (.ok p, rest) := by
  cases p with
  | wildcard => exact orPattern_single (atomPattern_wildcard hrest) hbar
  | var x => exact orPattern_single (atomPattern_var hp hrest) hbar
  | constant c => exact orPattern_single (atomPattern_constant (hlegible c (.head _)) hrest) hbar
  | oneOf c d cs =>
      obtain ⟨hc, hcs⟩ := List.forall_mem_cons.mp hlegible
      have hfirst := @atomPattern_constant q _ c hc (follows_barred hrest (d :: cs))
      have hlength : ((d :: cs).map fun c => (.ok (.constant c) : Denoted Pattern)).length ≤
          (barred (d :: cs) ++ rest).length := by
        rw [List.length_map, List.length_append]
        exact Nat.le_add_right_of_le (length_le_barred (d :: cs))
      obtain ⟨text, hread⟩ := orPattern_reads hfirst (row_barred hcs hrest) hlength hbar
      rw [toList_oneOf, List.append_assoc, hread, alternatives_constants]
  | named p x => cases hdepth

/-- **Reading a rendering.**  The pattern is read to the end of its rendering, if as many groups may
be inside each other as there are further names. -/
lemma patternWithin_toText {p : Pattern} (hp : p.Formed) (hlegible : p.Legible)
    {limit : ℕ} (hlimit : p.depth < limit) (hrest : Ended rest) :
    (patternWithin limit).run (p.toText.toList ++ rest) = some (.ok p, rest) := by
  induction p generalizing limit rest with
  | wildcard | var | constant | oneOf =>
      obtain ⟨limit, rfl⟩ := Nat.exists_eq_add_one.mpr (Nat.zero_lt_of_lt hlimit)
      exact patternWithin_unnamed (orPattern_toText hp hlegible rfl hrest.follows hrest.bar) hrest
  | named p x ih =>
      obtain ⟨limit, rfl⟩ := Nat.exists_eq_add_one.mpr (Nat.zero_lt_of_lt hlimit)
      obtain ⟨hp, hx⟩ := hp
      have hclose := Ended.close (" as ".toList ++ (x.toList ++ rest))
      have hinner := ih hp hlegible (Nat.lt_of_succ_lt_succ hlimit) hclose
      have hgroup := atomPattern_group (skipBlank_toText hp hlegible hclose.follows) hinner
      have hbar : next (" as ".toList ++ (x.toList ++ rest)) ≠ some '|' := by
        intro hnext
        cases hnext
      rw [toList_named]
      exact patternWithin_named (orPattern_single hgroup hbar) (furtherName_reads hx hrest.follows)

end Atoms

/-! ## Whole texts -/

lemma depth_le_length (p : Pattern) : p.depth ≤ p.toText.toList.length := by
  induction p with
  | named p x ih =>
      have htext := congrArg List.length (toList_named p x [])
      simp only [List.append_nil, List.length_cons, List.length_append] at htext
      rw [Pattern.depth]
      omega
  | _ => exact Nat.zero_le _

lemma endsVisibly_constant {c : Constant} (hc : c.Legible) : EndsVisibly c.toText := by
  have hleaf {e : Expr} (hmembers : e.members = []) (he : Sound e) : EndsVisibly e.toText :=
    endsVisibly_toText ((Expr.everywhere_leaf hmembers).mpr he)
  cases c with
  | int n =>
      have hends := @hleaf (.int n) rfl ⟨trivial, trivial, hc.2⟩
      rwa [Expr.toText] at hends
  | bytes b =>
      have hends := @hleaf (.bytes b) rfl ⟨trivial, hc.1, trivial⟩
      rwa [Expr.toText] at hends

lemma endsVisibly_name {x : String} (hx : IsName x) : EndsVisibly x := by
  have hsound : Sound (.name x) := ⟨hx, trivial, trivial⟩
  have hends := @endsVisibly_toText (.name x) ((Expr.everywhere_leaf rfl).mpr hsound)
  rwa [Expr.toText] at hends

lemma endsVisibly_barred (cs : List Constant) {d : Constant} (hcs : ∀ c ∈ d :: cs, c.Legible) :
    EndsVisibly (" | ".intercalate ((d :: cs).map Constant.toText)) := by
  induction cs generalizing d with
  | nil =>
      rw [List.map_singleton, String.intercalate_singleton]
      exact endsVisibly_constant (hcs d (.head _))
  | cons c cs ih =>
      rw [List.map_cons, List.map_cons, String.intercalate_cons_cons]
      exact .behind (ih (List.forall_mem_cons.mp hcs).2)

lemma endsVisibly_pattern {p : Pattern} (hp : p.Formed) (hlegible : p.Legible) :
    EndsVisibly p.toText := by
  cases p with
  | wildcard => exact ⟨'_', List.suffix_refl _, rfl⟩
  | var x => exact endsVisibly_name hp
  | constant c => exact endsVisibly_constant (hlegible c (.head _))
  | oneOf c d cs => exact endsVisibly_barred (d :: cs) hlegible
  | named p x => exact .behind (endsVisibly_name hp.2)

lemma stripChars_toText {p : Pattern} (hp : p.Formed) (hlegible : p.Legible) :
    stripChars p.toText.toList = p.toText.toList := by
  refine stripChars_eq_self (fun c hc => ?_) fun c hc => ?_
  · obtain ⟨d, tail, htext, hblank, -⟩ := toText_head hp hlegible .nil
    rw [List.append_nil] at htext
    rw [htext] at hc
    cases hc
    exact hblank
  · obtain ⟨d, ⟨cs, hcs⟩, hblank⟩ := endsVisibly_pattern hp hlegible
    rw [← hcs, List.getLast?_concat] at hc
    cases hc
    exact hblank

/-! ## Numbers in hexadecimal -/

/-- A number is short enough to be written if it has no more digits than the limit. -/
lemma isWritable_natCast {n : ℕ} : isWritable n = true ↔ n < 10 ^ digitLimit :=
  decide_eq_true_iff.trans (Nat.length_toDigits_le_iff (by decide) (by decide))

/-- The numeral of a power of sixteen. -/
def power (zeros : ℕ) : Numeral :=
  .marked .hexadecimal false 0 ⟨⟨1, by decide⟩, false⟩
    (List.replicate zeros (.digit ⟨⟨0, by decide⟩, false⟩))

lemma chars_power (zeros : ℕ) :
    (power zeros).chars = '0' :: 'x' :: '1' :: List.replicate zeros '0' := by
  have hzero : Mark.char (.digit ⟨⟨0, by decide⟩, false⟩ : Mark 16) = '0' := rfl
  rw [← hzero, ← List.map_replicate]
  rfl

lemma value_power (zeros : ℕ) : (power zeros).value = 16 ^ zeros := by
  have hdigits : (power zeros).digits = 1 :: List.replicate zeros 0 :=
    congrArg (1 :: ·) (List.filterMap_replicate_of_some rfl)
  have hradix : (power zeros).radix = 16 := rfl
  rw [Numeral.value, hdigits, hradix, List.reverse_cons, List.reverse_replicate,
    Nat.ofDigits_append, Nat.ofDigits_replicate_zero, Nat.ofDigits_singleton,
    List.length_replicate, Nat.zero_add, Nat.mul_one]

end Grammar

open Grammar Text

namespace Pattern

lemma parse_eq_ok {text : String} {p : Pattern} :
    Pattern.parse text = .ok p ↔ pattern.run (stripChars text.toList) = some (.ok p, []) := by
  simp only [Pattern.parse, readText_eq_ok, strip, String.toList_ofList]

/-- A short numeral is the pattern of its value. -/
lemma parse_numeral {l : Numeral} (h : l.Short) :
    Pattern.parse l.text = .ok (.constant (.int l.value)) := by
  have hvisible : ∀ c ∈ l.chars, isBlank c = false := fun c hc =>
    isBlank_eq_false (l.isWordChar_of_mem c hc)
  rw [parse_eq_ok, Numeral.text, String.toList_ofList, stripChars_visible hvisible]
  exact pattern_integer l.head_ne_minus (l.integer_chars h)

lemma parse_power (zeros : ℕ) :
    Pattern.parse (String.ofList ('0' :: 'x' :: '1' :: List.replicate zeros '0')) =
      .ok (.constant (.int ((16 ^ zeros : ℕ) : ℤ))) := by
  have hshort : (power zeros).Short := fun h => absurd h (by decide : (16 : ℕ) ≠ 10)
  rw [← chars_power, ← value_power]
  exact parse_numeral hshort

/-- **Renderings.**  Whatever pattern a text parses to, it is rendered, and its rendering parses to
the same pattern, if and only if its integers are short enough to be written.  The string literals
in it have to be plain characters. -/
theorem parse_toText_of_plain {text : String} {p : Pattern} (h : Pattern.parse text = .ok p)
    (hplain : p.Plain) :
    (∃ t, p.written = .ok t ∧ Pattern.parse t = .ok p) ↔ p.isWritable = true := by
  simp only [written_eq_ok, and_assoc, exists_and_left, exists_eq_left', and_iff_left_iff_imp]
  intro hwritable
  have hp : p.Formed := pattern_gives (parse_eq_ok.mp h) p rfl
  have hlegible : p.Legible := fun c hc => ⟨hplain c hc, isWritable_iff.mp hwritable c hc⟩
  have hlimit : p.depth < p.toText.toList.length + 1 := Nat.lt_succ_of_le (depth_le_length p)
  have hread := patternWithin_toText hp hlegible hlimit .nil
  rw [List.append_nil] at hread
  rw [parse_eq_ok, stripChars_toText hp hlegible, run_pattern]
  exact hread

/-- Alternatives with two further names, a negative number in another radix and an escaped quote. -/
theorem parse_toText_of_plain_named : ∃ p,
    Pattern.parse "(( \"a\\\"\" | -0x0B)as x) as as_y" = .ok p ∧ p.Plain ∧ p.isWritable = true ∧
      ∃ t, p.written = .ok t ∧ Pattern.parse t = .ok p := by
  have hparse : Pattern.parse "(( \"a\\\"\" | -0x0B)as x) as as_y" =
      .ok (.named (.named (.oneOf (.bytes [97, 34]) (.int (-11)) []) "x") "as_y") := by
    decide +kernel
  have hplain :
      (Pattern.named (.named (.oneOf (.bytes [97, 34]) (.int (-11)) []) "x") "as_y").Plain := by
    simp [Plain, constants, Constant.Plain, isPlainByte]
  have hwritable :
      (Pattern.named (.named (.oneOf (.bytes [97, 34]) (.int (-11)) []) "x") "as_y").isWritable =
        true := by
    decide
  exact ⟨_, hparse, hplain, hwritable, (parse_toText_of_plain hparse hplain).mpr hwritable⟩

/-- A power of sixteen is read from its hexadecimal digits, though its decimal is too long to be
written. -/
theorem parse_toText_of_plain_power :
    Pattern.parse (String.ofList ('0' :: 'x' :: '1' :: List.replicate 3600 '0')) =
        .ok (.constant (.int ((16 ^ 3600 : ℕ) : ℤ))) ∧
      (constant (.int ((16 ^ 3600 : ℕ) : ℤ))).Plain ∧
      (constant (.int ((16 ^ 3600 : ℕ) : ℤ))).written = .error .value := by
  have hlarge : ¬Text.isWritable ((16 ^ 3600 : ℕ) : ℤ) = true := by
    have hlimit : digitLimit = 43 * 100 := rfl
    have hpower : 3600 = 36 * 100 := rfl
    rw [isWritable_natCast, not_lt, hlimit, hpower, pow_mul, pow_mul]
    exact Nat.pow_le_pow_left (by decide) 100
  refine ⟨parse_power 3600, ?_, if_neg hlarge⟩
  intro c hc
  obtain rfl := List.mem_singleton.mp hc
  trivial

end Pattern

end BitPattern
