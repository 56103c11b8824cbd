import BitPattern.Grammar.Pattern
import BitPattern.Proofs.Grammar.Operator

/-!
# Patterns with more text behind

A pattern is read from a text with more behind it as it is read from the text alone, if a colon or a
closing parenthesis follows: `pattern_extends`.  A bar would go on with the pattern, and so would
the word `as`.
-/

namespace BitPattern.Grammar

open BitPattern.Text Reader

variable {more : List Char} {p q : Reader (Denoted Pattern)}

/-- A colon or a closing parenthesis follows. -/
def PatternEnds (cs : List Char) : Prop :=
  next cs = some ':' ∨ next cs = some ')'

/-! ## Atoms -/

lemma constant_extends (h : Behind more) {fits : List Char → Prop} :
    Extends more fits constant constant :=
  .rule (.local_or ((signedInteger_local h).bind fun _ => .pure _)
    (stringLiteral_extends.bind_pure fun b => (fun b => Pattern.constant (.bytes b)) <$> b))

/-- Text behind makes no constant of what does not begin with a quote and is none. -/
lemma constant_append_eq_none (h : Behind more) {cs : List Char} {c : Char} (hc : c ∈ cs.head?)
    (hquote : c ≠ '"') (hnone : constant.run cs = none) : constant.run (cs ++ more) = none := by
  rw [constant, run_rule, run_or, Option.or_eq_none_iff] at hnone ⊢
  refine ⟨((signedInteger_local h).bind fun _ => .pure _).run_eq_none hnone.1, ?_⟩
  rw [run_bind, stringLiteral_begins.run_eq_none, Option.bind_none]
  rintro ⟨rest, hrest⟩
  obtain ⟨tail, rfl⟩ := List.head?_eq_some_iff.mp hc
  cases hrest
  exact hquote rfl

lemma groupPattern_head : Begins (fun cs => cs.head? = some '(') (groupPattern p) := by
  refine .rule (.bind ?_ _)
  rintro cs ⟨u, left⟩ hr
  rw [text_eq_some.mp hr]
  rfl

lemma groupPattern_extends (h : Behind more) (hnil : p.run [] = none)
    (hpq : Extends more (fun left => PatternEnds (left ++ more)) p q) {fits : List Char → Prop} :
    Extends more fits (groupPattern p) (groupPattern q) := by
  refine .rule (.local_bind (text_local h "(" (by decide)) fun _ => blank_extends (hpq.bind
    (fun e => blank_extends (.local_bind (text_local h ")" (by decide)) fun _ => .pure e) rfl)
    ?_) ?_)
  · intro e mid r left hr _ _
    rw [run_blank_bind] at hr
    obtain ⟨u, mid', hclose, -⟩ := bind_eq_some.mp hr
    exact .inr (next_append more (next_eq_some.mpr ⟨mid', text_eq_some.mp hclose⟩))
  · rw [run_bind, hnil, Option.bind_none]

lemma atomPattern_extends (h : Behind more) (hnil : p.run [] = none)
    (hpq : Extends more (fun left => PatternEnds (left ++ more)) p q) {fits : List Char → Prop} :
    Extends more fits (atomPattern p) (atomPattern q) := by
  refine .rule (.local_or ((keyword_local h _).bind fun _ => .pure _) ((constant_extends h).or
    (.local_or ((identifier_local h).bind fun _ => .pure _) (groupPattern_extends h hnil hpq)) ?_))
  intro cs e left hnone hr _ _
  rcases or_eq_some hr with hname | hgroup
  · obtain ⟨x, mid, hx, -⟩ := bind_eq_some.mp hname
    obtain ⟨c, hc, hword⟩ := wordOf_head rfl hx
    refine constant_append_eq_none h hc ?_ hnone
    rintro rfl
    exact absurd hword (by decide)
  · exact constant_append_eq_none h (groupPattern_head hgroup) (by decide) hnone

lemma atomPattern_nil : (atomPattern p).run [] = none := rfl

/-! ## Alternatives -/

/-- A bar and the atom after it. -/
def nextAtom (p : Reader (Denoted Pattern)) : Reader (Denoted Pattern) := rule do
  blank
  text "|"
  blank
  atomPattern p

lemma nextAtom_extends (h : Behind more) (hnil : p.run [] = none)
    (hpq : Extends more (fun left => PatternEnds (left ++ more)) p q) {fits : List Char → Prop} :
    Extends more fits (nextAtom p) (nextAtom q) :=
  .rule (blank_extends (.local_bind (text_local h "|" (by decide)) fun _ =>
    blank_extends (atomPattern_extends h hnil hpq) atomPattern_nil) rfl)

lemma nextAtom_eq_none {cs : List Char} (hcs : next cs ≠ some '|') :
    (nextAtom p).run cs = none := by
  refine Option.eq_none_iff_forall_ne_some.mpr fun r hr => hcs ?_
  rw [nextAtom, run_rule, run_blank_bind] at hr
  obtain ⟨u, mid, hbar, -⟩ := bind_eq_some.mp hr
  exact next_eq_some.mpr ⟨mid, text_eq_some.mp hbar⟩

lemma orPattern_extends (h : Behind more) (hnil : p.run [] = none)
    (hpq : Extends more (fun left => PatternEnds (left ++ more)) p q) :
    Extends more (fun left => next (left ++ more) ≠ some '|') (orPattern p) (orPattern q) := by
  have hatom : Extends more (fun _ => True) (atomPattern p) (atomPattern q) :=
    atomPattern_extends h hnil hpq
  have hnext : Extends more (fun _ => True) (nextAtom p) (nextAtom q) :=
    nextAtom_extends h hnil hpq
  have hmany : Extends more (fun left => next (left ++ more) ≠ some '|') (many (nextAtom p))
      (many (nextAtom q)) :=
    (hnext.many rfl fun _ _ _ => trivial).mono fun left hleft =>
      ⟨trivial, nextAtom_eq_none hleft⟩
  exact .rule (.bind_pure (.withText (hatom.bind (fun first => hmany.bind_pure fun rest =>
    (first, rest)) fun _ _ _ => trivial)) fun r => alternatives r.2 r.1.1 r.1.2)

/-! ## Patterns -/

lemma furtherName_extends (h : Behind more) {fits : List Char → Prop} :
    Extends more fits furtherName furtherName :=
  blank_extends (.local_bind (keyword_local h _) fun _ =>
    blank_extends (.of_local (identifier_local h)) rfl) rfl

/-- A further name begins with a word. -/
lemma furtherName_next {cs : List Char} {r : String × List Char}
    (hr : furtherName.run cs = some r) : ∃ c, next cs = some c ∧ isWordChar c = true := by
  rw [furtherName, run_blank_bind] at hr
  obtain ⟨u, mid, has, -⟩ := bind_eq_some.mp hr
  obtain ⟨c, hc, hword⟩ := wordOf_head (by decide) has
  exact ⟨c, hc, hword⟩

lemma patternWithin_nil (limit : Nat) : (patternWithin limit).run [] = none := by
  cases limit with
  | zero => rfl
  | succ limit => rfl

lemma patternWithin_extends (h : Behind more) {limit limit' : Nat} (hlimit : limit ≤ limit') :
    Extends more (fun left => PatternEnds (left ++ more)) (patternWithin limit)
      (patternWithin limit') := by
  induction limit generalizing limit' with
  | zero => exact fun _ _ _ hr => by cases hr
  | succ limit ih =>
      obtain ⟨limit', rfl⟩ : ∃ n, limit' = n + 1 := ⟨limit' - 1, by omega⟩
      have ih := ih (Nat.le_of_succ_le_succ hlimit)
      -- A further name is taken if it is there, and what ends a pattern begins none.
      have hname {e : Denoted Pattern} : Extends more (fun left => PatternEnds (left ++ more))
          ((do let x ← furtherName; pure ((fun p => .named p x) <$> e)) <|> pure e)
          ((do let x ← furtherName; pure ((fun p => .named p x) <$> e)) <|> pure e) := by
        refine .or ((furtherName_extends h).bind_pure _) (.pure e) ?_
        intro cs a left _ hr _ hleft
        cases hr
        refine Option.eq_none_iff_forall_ne_some.mpr fun r hr => ?_
        obtain ⟨x, mid, hx, -⟩ := bind_eq_some.mp hr
        obtain ⟨c, hc, hword⟩ := furtherName_next hx
        rcases hleft with hleft | hleft <;> cases hleft.symm.trans hc <;> revert hword <;> decide
      refine .rule ((orPattern_extends h (patternWithin_nil limit) ih).bind (fun _ => hname) ?_)
      intro e mid r left _ hr hleft hbar
      rcases or_eq_some hr with hr | hr
      · obtain ⟨x, mid, hx, -⟩ := bind_eq_some.mp hr
        obtain ⟨c, hc, hword⟩ := furtherName_next hx
        cases hbar.symm.trans hc
        exact absurd hword (by decide)
      · have hmid : mid ++ more = left ++ more := congrArg Prod.snd (Option.some.inj hr)
        rw [hmid] at hbar
        rcases hleft with hleft | hleft <;> cases hleft.symm.trans hbar

lemma run_pattern (cs : List Char) : pattern.run cs = (patternWithin (cs.length + 1)).run cs := by
  simp only [run, pattern]

/-- A pattern is read from a text with more behind it as from the text alone, if a colon or a
closing parenthesis follows it. -/
theorem pattern_extends (h : Behind more) :
    Extends more (fun left => PatternEnds (left ++ more)) pattern pattern := by
  intro cs e left hr hleft
  have hlimit : cs.length + 1 ≤ (cs ++ more).length + 1 := by simp
  rw [run_pattern] at hr ⊢
  exact patternWithin_extends h hlimit hr hleft

end BitPattern.Grammar
