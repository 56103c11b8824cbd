import BitPattern.Grammar.Token
import BitPattern.Proofs.Grammar.Reading
import BitPattern.Proofs.Text.Name
import Mathlib.Data.List.TakeDrop

/-!
# Tokens with more text behind

What `Reading` says about combinators begins here, with the tokens.  The text behind is a
`Behind`: it begins with a blank character, so it prolongs no word and no sign.

Words and fixed texts are then local.  A string literal is not, as text behind may complete one, but
what it reads it goes on reading.  Blanks are the other exception: they run on into the text behind
where they reach it, so `blank` extends only where something is left.
-/

namespace BitPattern.Grammar

open BitPattern.Text Reader

/-! ## Characters -/

lemma isBlank_of_isWhite {c : Char} (h : isWhite c = true) : isBlank c = true := by
  simp [isBlank, h]

/-- The codes of word characters. -/
lemma toNat_of_isWordChar {c : Char} (h : isWordChar c = true) : 48 ≤ c.toNat ∧ c.toNat ≤ 122 := by
  rcases isWordChar_iff.mp h with h | h | rfl
  · have hdigit := toNat_of_isDigit h
    omega
  · have halpha := toNat_of_isAlpha h
    omega
  · decide

lemma isBlank_eq_false {c : Char} (h : isWordChar c = true) : isBlank c = false := by
  have hcode := toNat_of_isWordChar h
  simp only [isBlank, isWhite, Bool.or_eq_false_iff, Bool.and_eq_false_iff, decide_eq_false_iff_not,
    beq_eq_false_iff_ne]
  omega

lemma isWordChar_eq_false {c : Char} (h : isBlank c = true) : isWordChar c = false := by
  by_contra hword
  rw [Bool.not_eq_false] at hword
  simp [isBlank_eq_false hword] at h

lemma isWhite_eq_false {c : Char} (h : isBlank c = false) : isWhite c = false := by
  by_contra hwhite
  rw [Bool.not_eq_false] at hwhite
  simp [isBlank_of_isWhite hwhite] at h

/-! ## Blanks -/

@[simp] lemma run_blank (cs : List Char) : blank.run cs = some ((), skipBlank false cs) := rfl

lemma run_blank_bind {α : Type} (f : Unit → Reader α) (cs : List Char) :
    (blank >>= f).run cs = (f ()).run (skipBlank false cs) := by
  rw [run_bind, run_blank, Option.bind_some]

lemma skipBlank_append {inComment : Bool} {cs : List Char} (more : List Char)
    (h : skipBlank inComment cs ≠ []) :
    skipBlank inComment (cs ++ more) = skipBlank inComment cs ++ more := by
  induction cs generalizing inComment with
  | nil => exact absurd rfl h
  | cons c cs ih =>
      simp only [skipBlank, List.cons_append] at h ⊢
      split_ifs at h ⊢ with hcomment hwhite hhash
      · exact ih h
      · exact ih h
      · exact ih h
      · rfl

/-- Blanks that reach the end of a text run on into the text behind it. -/
lemma skipBlank_append_of_eq_nil {inComment : Bool} {cs : List Char} (more : List Char)
    (h : skipBlank inComment cs = []) :
    ∃ inComment', skipBlank inComment (cs ++ more) = skipBlank inComment' more := by
  induction cs generalizing inComment with
  | nil => exact ⟨inComment, rfl⟩
  | cons c cs ih =>
      simp only [skipBlank, List.cons_append] at h ⊢
      split_ifs at h ⊢ with hcomment hwhite hhash
      · exact ih h
      · exact ih h
      · exact ih h

/-- Where blanks end, there are none. -/
@[simp] lemma skipBlank_skipBlank (inComment : Bool) (cs : List Char) :
    skipBlank false (skipBlank inComment cs) = skipBlank inComment cs := by
  induction cs generalizing inComment with
  | nil => rfl
  | cons c cs ih =>
      simp only [skipBlank]
      split_ifs with hcomment hwhite hhash
      · exact ih _
      · exact ih _
      · exact ih _
      · simp [skipBlank, hwhite, hhash]

/-- The first character of a text that is in no blank. -/
def next (cs : List Char) : Option Char :=
  (skipBlank false cs).head?

lemma next_eq_some {cs : List Char} {c : Char} :
    next cs = some c ↔ ∃ rest, skipBlank false cs = c :: rest :=
  List.head?_eq_some_iff

@[simp] lemma next_skipBlank (cs : List Char) : next (skipBlank false cs) = next cs := by
  rw [next, skipBlank_skipBlank, next]

lemma next_append {cs : List Char} {c : Char} (more : List Char) (h : next cs = some c) :
    next (cs ++ more) = some c := by
  obtain ⟨rest, hrest⟩ := next_eq_some.mp h
  refine next_eq_some.mpr ⟨rest ++ more, ?_⟩
  rw [skipBlank_append more (by simp [hrest]), hrest, List.cons_append]

lemma skipBlank_cons {c : Char} (cs : List Char) (hwhite : isWhite c = false) (hhash : c ≠ '#') :
    skipBlank false (c :: cs) = c :: cs := by
  simp [skipBlank, hwhite, hhash]

/-- A line feed is a blank and ends a comment. -/
lemma skipBlank_line (inComment : Bool) (cs : List Char) :
    skipBlank inComment ('\n' :: cs) = skipBlank false cs := by
  cases inComment <;> rfl

/-- Blanks at the end of a line and those behind it may be skipped one after the other. -/
lemma skipBlank_append_line (inComment : Bool) (cs more : List Char) :
    skipBlank inComment (cs ++ '\n' :: more) =
      skipBlank false (skipBlank inComment cs ++ '\n' :: more) := by
  by_cases hnil : skipBlank inComment cs = []
  · obtain ⟨inComment', hskip⟩ := skipBlank_append_of_eq_nil ('\n' :: more) hnil
    rw [hskip, hnil, List.nil_append, skipBlank_line, skipBlank_line]
  · have hsettled := skipBlank_skipBlank inComment cs
    rw [skipBlank_append _ hnil, skipBlank_append _ (by rwa [hsettled]), hsettled]

/-! ## Words -/

lemma takeWord_eq (cs : List Char) :
    takeWord cs = (cs.takeWhile isWordChar, cs.dropWhile isWordChar) :=
  List.span_eq_takeWhile_dropWhile _ cs

lemma run_wordOf {α : Type} (value? : List Char → Option α) (cs : List Char) :
    (wordOf value?).run cs = (value? (takeWord cs).1).map fun a => (a, (takeWord cs).2) :=
  run_token _ cs

lemma wordOf_eq_some {α : Type} {value? : List Char → Option α} {cs left : List Char} {a : α} :
    (wordOf value?).run cs = some (a, left) ↔
      value? (takeWord cs).1 = some a ∧ (takeWord cs).2 = left := by
  simp [run_wordOf]

/-- A keyword is read where it is the word. -/
lemma keyword_eq_some {s : String} {cs left : List Char} {u : Unit} :
    (keyword s).run cs = some (u, left) ↔ (takeWord cs).1 = s.toList ∧ (takeWord cs).2 = left := by
  rw [keyword, wordOf_eq_some]
  simp

lemma keyword_eq_none {s : String} {cs : List Char} (h : (takeWord cs).1 ≠ s.toList) :
    (keyword s).run cs = none := by
  simp [keyword, run_wordOf, h]

lemma takeWord_cons_eq_nil {c : Char} (hc : isWordChar c = false) (cs : List Char) :
    (takeWord (c :: cs)).1 = [] := by
  simp [takeWord_eq, hc]

lemma takeWord_eq_nil {c : Char} {cs : List Char} (h : cs.head? = some c)
    (hc : isWordChar c = false) : (takeWord cs).1 = [] := by
  obtain ⟨rest, rfl⟩ := List.head?_eq_some_iff.mp h
  exact takeWord_cons_eq_nil hc rest

lemma isWordChar_of_takeWord {cs : List Char} (h : (takeWord cs).1 ≠ []) :
    ∃ c rest, cs = c :: rest ∧ isWordChar c = true := by
  cases cs with
  | nil => exact absurd rfl h
  | cons c rest =>
      refine ⟨c, rest, rfl, ?_⟩
      by_contra hc
      exact h (takeWord_cons_eq_nil (Bool.eq_false_iff.mpr hc) rest)

/-- A word begins with a word character. -/
lemma wordOf_head {α : Type} {value? : List Char → Option α} (hnil : value? [] = none) :
    Begins (fun cs => ∃ c ∈ cs.head?, isWordChar c = true) (wordOf value?) := by
  rintro cs ⟨a, left⟩ hr
  obtain ⟨ha, -⟩ := wordOf_eq_some.mp hr
  have hword : (takeWord cs).1 ≠ [] := fun hword => by simp [hword, hnil] at ha
  obtain ⟨c, rest, rfl, hc⟩ := isWordChar_of_takeWord hword
  exact ⟨c, rfl, hc⟩

/-! ## The text behind -/

/-- A text that may stand behind others: it begins with a blank character, if at all. -/
def Behind (more : List Char) : Prop :=
  ∀ c ∈ more.head?, isBlank c = true

lemma Behind.nil : Behind [] := fun _ hc => by cases hc

lemma Behind.line (cs : List Char) : Behind ('\n' :: cs) := by
  rintro c ⟨⟩
  decide

variable {more : List Char} {fits : List Char → Prop}

lemma takeWord_append (h : Behind more) (cs : List Char) :
    takeWord (cs ++ more) = ((takeWord cs).1, (takeWord cs).2 ++ more) := by
  simp only [takeWord_eq]
  induction cs with
  | nil =>
      cases more with
      | nil => rfl
      | cons c more => simp [isWordChar_eq_false (h c rfl)]
  | cons c cs ih =>
      by_cases hc : isWordChar c = true
      · simpa [hc] using ih
      · simp [hc]

lemma wordOf_local {α : Type} (h : Behind more) (value? : List Char → Option α) :
    Local more (wordOf value?) := by
  intro cs
  rw [run_wordOf, run_wordOf, takeWord_append h]
  cases value? (takeWord cs).1 <;> rfl

lemma keyword_local (h : Behind more) (s : String) : Local more (keyword s) :=
  wordOf_local h _

lemma identifier_local (h : Behind more) : Local more identifier :=
  wordOf_local h _

/-- A fixed text without blank characters is local. -/
lemma text_local (h : Behind more) (s : String) (hs : s.toList.any isBlank = false) :
    Local more (text s) := by
  intro cs
  simp only [run_text]
  generalize s.toList = t at hs ⊢
  -- On the text that is looked for: behind it begins a blank, which is no part of it.
  induction t generalizing cs with
  | nil => simp
  | cons d t ih =>
      rw [List.any_cons, Bool.or_eq_false_iff] at hs
      have ih := fun cs => ih cs hs.2
      cases cs with
      | nil =>
          cases more with
          | nil => simp
          | cons c more =>
              have hd : d ≠ c := by
                rintro rfl
                simpa [h d rfl] using hs.1
              simp [hd]
      | cons c cs =>
          by_cases hd : d = c
          · simpa [hd] using ih cs
          · simp [hd]

/-- A number that no minus sign stands before. -/
lemma signedInteger_unsigned {cs : List Char} (h : cs.head? ≠ some '-') :
    signedInteger.run cs = integer.run cs := by
  rw [integer, run_wordOf, signedInteger, run_token]
  split
  · exact absurd rfl h
  · rw [Option.map_map]
    rfl

lemma signedInteger_local (h : Behind more) : Local more signedInteger := by
  have hminus : ∀ cs : List Char, signedInteger.run ('-' :: cs) =
      (numberParts? (takeWord cs).1).map fun r =>
        (negativeValue (takeWord cs).1 r.1 r.2, (takeWord cs).2) := fun _ => run_token _ _
  have hmore : more.head? ≠ some '-' := fun hc => absurd (h '-' hc) (by decide)
  intro cs
  by_cases hcs : cs.head? = some '-'
  · obtain ⟨rest, rfl⟩ := List.head?_eq_some_iff.mp hcs
    rw [List.cons_append, hminus, hminus, takeWord_append h]
    cases numberParts? (takeWord rest).1 <;> rfl
  · have hcs' : (cs ++ more).head? ≠ some '-' := by
      cases cs with
      | nil => exact hmore
      | cons c cs => exact hcs
    rw [signedInteger_unsigned hcs, signedInteger_unsigned hcs']
    exact wordOf_local h _ cs

/-! ## String literals -/

lemma takeBody?_append {cs : List Char} (more : List Char) {body left : List Char}
    (h : takeBody? cs = some (body, left)) :
    takeBody? (cs ++ more) = some (body, left ++ more) := by
  fun_induction takeBody? cs generalizing body left with
  | case1 => cases h
  | case2 rest =>
      cases h
      simp [takeBody?]
  | case3 => cases h
  | case4 c rest hline => cases h
  | case5 c rest hline ih =>
      obtain ⟨⟨body', left'⟩, hrest, heq⟩ := Option.map_eq_some_iff.mp h
      cases heq
      simp [takeBody?, hline, ih hrest]
  | case6 c rest hquote hbackslash ih =>
      obtain ⟨⟨body', left'⟩, hrest, heq⟩ := Option.map_eq_some_iff.mp h
      cases heq
      rw [List.cons_append, takeBody?, ih hrest, Option.map_some] <;> assumption

lemma run_stringLiteral_cons (cs : List Char) :
    stringLiteral.run ('"' :: cs) = (takeBody? cs).map fun r => (bodyValue r.1, r.2) :=
  run_token _ _

lemma stringLiteral_begins : Begins (fun cs => ∃ rest, cs = '"' :: rest) stringLiteral := by
  intro cs r hr
  unfold stringLiteral at hr
  simp only [run_token] at hr
  split at hr
  · exact ⟨_, rfl⟩
  · cases hr

lemma stringLiteral_extends : Extends more fits stringLiteral stringLiteral := by
  intro cs b left hr _
  obtain ⟨rest, rfl⟩ := stringLiteral_begins hr
  rw [run_stringLiteral_cons, Option.map_eq_some_iff] at hr
  obtain ⟨⟨body, left'⟩, hbody, heq⟩ := hr
  cases heq
  rw [List.cons_append, run_stringLiteral_cons, takeBody?_append more hbody, Option.map_some]

/-- Blanks before a reader that reads something. -/
lemma blank_extends {α : Type} {p q : Reader α} (h : Extends more fits p q)
    (hnil : p.run [] = none) : Extends more fits (do blank; p) (do blank; q) := by
  intro cs a left hr hleft
  rw [run_blank_bind] at hr ⊢
  have hne : skipBlank false cs ≠ [] := by
    intro hcs
    rw [hcs, hnil] at hr
    cases hr
  rw [skipBlank_append more hne]
  exact h hr hleft

end BitPattern.Grammar
