import BitPattern.Proofs.Grammar.Token
import Mathlib.Data.List.TakeWhile

/-!
# What a text shows

`visible` leaves out of a text its white space, its comments and the bodies of its string literals.
What remains are the characters that have a meaning of their own, so that the colons, semicolons and
commas among them, and only those, are the punctuation of a list of fields.

A reader shows some characters between a text and what it leaves of it.  `Shows without` is the
relation of two such texts between which none of the given characters is shown.  It is a preorder,
so `Reader.Tracks` carries it from the tokens to a whole grammar.
-/

namespace BitPattern.Grammar

open BitPattern.Text Reader

/-! ## Visible characters -/

/-- What a character of a text is a part of. -/
inductive Zone where
  | plain
  | comment
  /-- The body of a string literal. -/
  | literal
  /-- The body of a string literal behind a backslash. -/
  | escaped
  deriving DecidableEq, Repr

/-- The characters of a text but for white space, comments and the bodies of string literals. -/
def visible : Zone → List Char → List Char
  | _, [] => []
  | .plain, c :: rest =>
    if isWhite c then visible .plain rest
    else if c == '#' then visible .comment rest
    else if c == '"' then c :: visible .literal rest
    else c :: visible .plain rest
  | .comment, c :: rest => if c == '\n' then visible .plain rest else visible .comment rest
  | .literal, c :: rest =>
    if c == '"' then visible .plain rest
    else if c == '\\' then visible .escaped rest
    else visible .literal rest
  | .escaped, _ :: rest => visible .literal rest

/-- A character that stands for itself. -/
def isPlain (c : Char) : Bool :=
  !isWhite c && c != '#' && c != '"'

lemma visible_plain_append {cs : List Char} (h : ∀ c ∈ cs, isPlain c = true) (rest : List Char) :
    visible .plain (cs ++ rest) = cs ++ visible .plain rest := by
  induction cs with
  | nil => rfl
  | cons c cs ih =>
      have hc := h c (.head _)
      simp only [isPlain, Bool.and_eq_true, Bool.not_eq_true', bne_iff_ne, ne_eq] at hc
      obtain ⟨⟨hwhite, hhash⟩, hquote⟩ := hc
      simp [visible, hwhite, hhash, hquote, ih fun c hc => h c (.tail _ hc)]

/-- Blanks show nothing. -/
lemma visible_skipBlank (inComment : Bool) (cs : List Char) :
    visible .plain (skipBlank inComment cs) =
      visible (if inComment then .comment else .plain) cs := by
  induction cs generalizing inComment with
  | nil => cases inComment <;> rfl
  | cons c cs ih =>
      cases inComment with
      | true =>
          by_cases hline : c = '\n'
          · simp [skipBlank, visible, hline, ih]
          · have hcomment : (c != '\n') = true := by simpa using hline
            simp [skipBlank, visible, hline, ih, hcomment]
      | false =>
          by_cases hwhite : isWhite c = true
          · simp [skipBlank, visible, hwhite, ih]
          · by_cases hhash : (c == '#') = true
            · simp only [skipBlank, visible, hwhite, hhash, ih, if_true, Bool.false_eq_true,
                if_false]
            · simp only [skipBlank, hwhite, hhash, if_false, Bool.false_eq_true]

/-- The first character that is in no blank is the first one that shows. -/
lemma visible_of_skipBlank {cs rest : List Char} {c : Char} (h : skipBlank false cs = c :: rest)
    (hc : isPlain c = true) : visible .plain cs = [c] ++ visible .plain rest := by
  rw [← visible_plain_append (by simpa using hc), List.singleton_append, ← h, visible_skipBlank]
  rfl

lemma skipBlank_suffix (inComment : Bool) (cs : List Char) : skipBlank inComment cs <:+ cs := by
  induction cs generalizing inComment with
  | nil => exact List.suffix_refl []
  | cons c cs ih =>
      rw [skipBlank]
      split_ifs
      · exact (ih _).trans (List.suffix_cons c cs)
      · exact (ih _).trans (List.suffix_cons c cs)
      · exact (ih _).trans (List.suffix_cons c cs)
      · exact List.suffix_refl _

lemma takeBody_suffix {cs body left : List Char} (h : takeBody? cs = some (body, left)) :
    left <:+ cs := by
  fun_induction takeBody? cs generalizing body left with
  | case1 => cases h
  | case2 rest =>
      cases h
      exact List.suffix_cons _ _
  | case3 => cases h
  | case4 c rest hline => cases h
  | case5 c rest hline ih =>
      obtain ⟨⟨body', left'⟩, hrest, heq⟩ := Option.map_eq_some_iff.mp h
      cases heq
      exact (ih hrest).trans (List.suffix_append ['\\', c] rest)
  | case6 c rest hquote hbackslash ih =>
      obtain ⟨⟨body', left'⟩, hrest, heq⟩ := Option.map_eq_some_iff.mp h
      cases heq
      exact (ih hrest).trans (List.suffix_cons c rest)

/-- The body of a string literal shows nothing. -/
lemma visible_takeBody {cs body left : List Char} (h : takeBody? cs = some (body, left)) :
    visible .literal cs = visible .plain left := by
  fun_induction takeBody? cs generalizing body left with
  | case1 => cases h
  | case2 rest =>
      cases h
      simp [visible]
  | case3 => cases h
  | case4 c rest hline => cases h
  | case5 c rest hline ih =>
      obtain ⟨⟨body', left'⟩, hrest, heq⟩ := Option.map_eq_some_iff.mp h
      cases heq
      simpa [visible] using ih hrest
  | case6 c rest hquote hbackslash ih =>
      obtain ⟨⟨body', left'⟩, hrest, heq⟩ := Option.map_eq_some_iff.mp h
      cases heq
      rw [visible, if_neg (by simpa using hquote), if_neg (by simpa using hbackslash), ih hrest]

/-! ## Showing none of some characters -/

/-- The second text is the end of the first one, behind characters of which none of the given ones
is visible. -/
def Shows (without : List Char) (cs left : List Char) : Prop :=
  left <:+ cs ∧ ∃ shown, visible .plain cs = shown ++ visible .plain left ∧ ∀ c ∈ without, c ∉ shown

variable {without : List Char}

instance : IsPreorder (List Char) (Shows without) where
  refl _ := ⟨List.suffix_refl _, [], rfl, fun _ _ => List.not_mem_nil⟩
  trans _ _ _ := by
    rintro ⟨hsuffix, shown, hshown, hwithout⟩ ⟨hsuffix', shown', hshown', hwithout'⟩
    refine ⟨hsuffix'.trans hsuffix, shown ++ shown', by rw [hshown, hshown', List.append_assoc],
      fun c hc h => ?_⟩
    rcases List.mem_append.mp h with h | h
    · exact hwithout c hc h
    · exact hwithout' c hc h

/-- The punctuation of a list of fields. -/
def marks : List Char := [':', ';', ',']

lemma isPlain_of_isWordChar {c : Char} (h : isWordChar c = true) : isPlain c = true := by
  have hwhite := isWhite_eq_false (isBlank_eq_false h)
  have hhash : c ≠ '#' := by
    rintro rfl
    cases h
  have hquote : c ≠ '"' := by
    rintro rfl
    cases h
  simp [isPlain, hwhite, hhash, hquote]

lemma isWordChar_of_mem_marks {c : Char} (h : c ∈ marks) : isWordChar c = false := by
  have hmarks : marks.any isWordChar = false := by decide
  exact Bool.eq_false_iff.mpr (List.any_eq_false.mp hmarks c h)

lemma blank_shows : Tracks (Shows without) blank := by
  intro cs a left hr
  cases hr
  exact ⟨skipBlank_suffix false cs, [], (visible_skipBlank false cs).symm,
    fun _ _ => List.not_mem_nil⟩

/-- A fixed text shows its own characters. -/
lemma text_shows (s : String) (hplain : s.toList.all isPlain = true)
    (hwithout : ∀ c ∈ without, c ∉ s.toList) : Tracks (Shows without) (text s) := by
  intro cs a left hr
  rw [run_text] at hr
  split at hr
  · rename_i hprefix
    obtain ⟨rest, rfl⟩ := List.isPrefixOf_iff_prefix.mp hprefix
    cases hr
    rw [List.drop_left]
    exact ⟨List.suffix_append _ _, s.toList, visible_plain_append (List.all_eq_true.mp hplain) rest,
      hwithout⟩
  · cases hr

/-- A word shows its own characters. -/
lemma takeWord_shows (hwithout : without ⊆ marks) (cs : List Char) :
    Shows without cs (takeWord cs).2 := by
  have hword : ∀ c ∈ cs.takeWhile isWordChar, isWordChar c = true := fun c hc =>
    List.mem_takeWhile_imp hc
  refine ⟨by simp only [takeWord_eq, List.dropWhile_suffix], cs.takeWhile isWordChar, ?_,
    fun c hc h => ?_⟩
  · rw [takeWord_eq]
    conv_lhs => rw [← List.takeWhile_append_dropWhile (p := isWordChar) (l := cs)]
    exact visible_plain_append (fun c hc => isPlain_of_isWordChar (hword c hc)) _
  · simpa [hword c h] using isWordChar_of_mem_marks (hwithout hc)

lemma wordOf_shows {α : Type} (hwithout : without ⊆ marks) (value? : List Char → Option α) :
    Tracks (Shows without) (wordOf value?) := by
  intro cs a left hr
  obtain ⟨-, rfl⟩ := wordOf_eq_some.mp hr
  exact takeWord_shows hwithout cs

lemma signedInteger_shows (hwithout : without ⊆ marks) :
    Tracks (Shows without) signedInteger := by
  intro cs a left hr
  unfold signedInteger at hr
  rw [run_token] at hr
  split at hr
  · rename_i rest
    obtain ⟨r, -, heq⟩ := Option.map_eq_some_iff.mp hr
    cases heq
    have hminus : Shows without ('-' :: rest) rest := by
      have hshown : visible .plain ('-' :: rest) = ['-'] ++ visible .plain rest :=
        visible_plain_append (List.all_eq_true.mp (by decide : ['-'].all isPlain = true)) rest
      refine ⟨List.suffix_cons _ _, ['-'], hshown, fun c hc h => ?_⟩
      cases List.mem_singleton.mp h
      exact absurd (hwithout hc) (by decide)
    exact IsTrans.trans _ _ _ hminus (takeWord_shows hwithout rest)
  · obtain ⟨r, -, heq⟩ := Option.map_eq_some_iff.mp hr
    cases heq
    exact takeWord_shows hwithout cs

lemma stringLiteral_shows (hwithout : without ⊆ marks) :
    Tracks (Shows without) stringLiteral := by
  intro cs a left hr
  obtain ⟨rest, rfl⟩ := stringLiteral_begins hr
  rw [run_stringLiteral_cons] at hr
  obtain ⟨⟨body, left'⟩, hbody, heq⟩ := Option.map_eq_some_iff.mp hr
  cases heq
  refine ⟨(takeBody_suffix hbody).trans (List.suffix_cons _ _), ['"'], ?_, fun c hc h => ?_⟩
  · have hwhite : isWhite '"' = false := by decide
    simp [visible, hwhite, visible_takeBody hbody]
  · cases List.mem_singleton.mp h
    exact absurd (hwithout hc) (by decide)

end BitPattern.Grammar
