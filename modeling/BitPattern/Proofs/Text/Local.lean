import BitPattern.Proofs.Text.Name

/-!
# Local names

A local name is made from a bound name in four steps, and each step brings about one of the
conditions under which a listing can use a name for a local (`IsLocal`).  The conditions are not
independent: a character put before a name changes what it begins with, and one put behind it makes
another word of it.  So the lemma on a step says what the step brings about and that it keeps what
the steps before it brought about, and `isLocal_localName` puts the steps together.

The last step is the one that could undo the others.  It changes reserved words only, and none of
them with an underscore behind it is reserved or begins like a generated name
(`reservedWords_shielded`).
-/

namespace BitPattern.Text

open Plan

/-- A name that a listing can use for a local: letters, digits and underscores of ASCII, of which
the first is no digit, that make up no reserved word and do not begin like a generated name. -/
structure IsLocal (x : String) : Prop where
  ne_empty : x ≠ ""
  word : ∀ c ∈ x.toList, c.isAlphanum = true ∨ c = '_'
  head : ∀ c ∈ x.toList.head?, c.isDigit = false
  not_reserved : x ∉ reservedWords
  not_generated : ¬"_bm_".toList <+: x.toList

/-! ## The steps -/

/-- Letters, digits and underscores of ASCII, of which the first is no digit. -/
structure Lettered (cs : List Char) : Prop where
  word : ∀ c ∈ cs, isWordChar c = true
  head : ∀ c ∈ cs.head?, c.isDigit = false

variable {cs : List Char}

lemma isWordChar_wordChars (cs : List Char) : ∀ c ∈ wordChars cs, isWordChar c = true := by
  intro c hc
  obtain ⟨d, -, rfl⟩ := List.mem_map.mp hc
  by_cases hd : isWordChar d = true
  · rw [if_pos hd, hd]
  · rw [if_neg hd]
    rfl

lemma lettered_shieldDigit (h : ∀ c ∈ cs, isWordChar c = true) : Lettered (shieldDigit cs) := by
  cases cs with
  | nil => exact ⟨h, by simp [shieldDigit]⟩
  | cons c cs =>
      by_cases hc : c.isDigit = true
      · rw [shieldDigit, if_pos hc]
        exact ⟨List.forall_mem_cons.mpr ⟨rfl, h⟩, by simp⟩
      · rw [shieldDigit, if_neg hc]
        exact ⟨h, by simpa using hc⟩

lemma Lettered.shieldGenerated (h : Lettered cs) :
    Lettered (shieldGenerated cs) ∧ ¬generatedMark <+: shieldGenerated cs := by
  unfold Text.shieldGenerated
  by_cases hmark : generatedMark.isPrefixOf cs = true
  · have hword : ∀ c ∈ ['_', 'u', 's', 'e', 'r'], isWordChar c = true :=
      List.all_eq_true.mp (by decide)
    rw [if_pos hmark]
    refine ⟨⟨List.forall_mem_append.mpr ⟨hword, h.word⟩, by simp⟩, ?_⟩
    simp [generatedMark]
  · rw [if_neg hmark]
    exact ⟨h, fun hprefix => hmark (List.isPrefixOf_iff_prefix.mpr hprefix)⟩

/-- A reserved word with an underscore behind it is not reserved, and does not begin like a
generated name. -/
lemma reservedWords_shielded : ∀ word ∈ reservedWords, (word ++ "_") ∉ reservedWords ∧
    ¬generatedMark <+: word.toList ++ ['_'] := by
  decide

lemma Lettered.shieldReserved (h : Lettered cs) (hmark : ¬generatedMark <+: cs) :
    Lettered (shieldReserved cs) ∧ ¬generatedMark <+: shieldReserved cs ∧
      String.ofList (shieldReserved cs) ∉ reservedWords := by
  unfold Text.shieldReserved
  by_cases hreserved : isReserved (String.ofList cs) = true
  · obtain ⟨hword, hgenerated⟩ := reservedWords_shielded _ (List.contains_iff_mem.mp hreserved)
    rw [String.toList_ofList] at hgenerated
    rw [if_pos hreserved, String.ofList_append]
    refine ⟨⟨?_, ?_⟩, hgenerated, hword⟩
    · exact List.forall_mem_append.mpr ⟨h.word, List.forall_mem_singleton.mpr rfl⟩
    · have hhead := h.head
      cases cs with
      | nil => simp
      | cons c cs => exact hhead
  · rw [if_neg hreserved]
    exact ⟨h, hmark, fun hmem => hreserved (List.contains_iff_mem.mpr hmem)⟩

/-! ## The local name -/

theorem isLocal_localName (x : String) : IsLocal (localName x) := by
  have hdigit := lettered_shieldDigit (isWordChar_wordChars x.toList)
  obtain ⟨hlettered, hmark⟩ := hdigit.shieldGenerated
  obtain ⟨hlettered, hmark, hreserved⟩ := hlettered.shieldReserved hmark
  simp only [localName]
  generalize shieldReserved (shieldGenerated (shieldDigit (wordChars x.toList))) = cs at *
  by_cases hempty : cs.isEmpty = true
  · rw [if_pos hempty]
    exact ⟨by decide, by simp, by simp, by decide, by decide⟩
  · rw [if_neg hempty]
    constructor
    · simpa using hempty
    · simpa [isWordChar] using hlettered.word
    · simpa using hlettered.head
    · exact hreserved
    · simpa [generatedMark] using hmark

lemma IsLocal.localName_eq {x : String} (h : IsLocal x) : localName x = x := by
  have hword : ∀ c ∈ x.toList, isWordChar c = true := by simpa [isWordChar] using h.word
  have hidentifier : isIdentifier x = true :=
    isIdentifier_of_wordChars (by simpa using h.ne_empty) hword h.head
  have hreserved : isReserved x = false := by simpa [isReserved] using h.not_reserved
  have hgenerated : isGenerated x = false := by
    rw [isGenerated, Bool.eq_false_iff, ne_eq, List.isPrefixOf_iff_prefix]
    exact h.not_generated
  exact localName_eq_self.mpr ⟨by simp [isUsable, hidentifier, hreserved, hgenerated], hword⟩

/-- **Local names.**  Every name has a local name that a listing can use, and a name is its own
local name exactly if a listing can use it; so a local name is its own. -/
theorem localName_retraction (x : String) :
    IsLocal (localName x) ∧ localName (localName x) = localName x ∧
      (localName x = x ↔ IsLocal x) := by
  refine ⟨isLocal_localName x, (isLocal_localName x).localName_eq, ?_⟩
  constructor
  · intro h
    rw [← h]
    exact isLocal_localName x
  · exact IsLocal.localName_eq

example : localName "_bm_" = "_user_bm_" ∧ localName "9é" = "_9_" ∧ localName "in" = "in_" ∧
    localName "" = "_unnamed" := by
  decide

end BitPattern.Text
