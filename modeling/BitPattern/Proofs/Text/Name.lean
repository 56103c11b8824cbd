import BitPattern.Plan.Build
import Mathlib.Tactic.Common

/-!
# Names that are their own locals

A bound name is kept under a local name, which is the name itself where nothing stands in the way.
`localName_eq_self` says when that is: the name consists of letters, digits and underscores of
ASCII, and expressions could refer to it in an environment as well.  The local name is made in four
steps that may add characters and never drop any, so a name that comes out as it went in was left
alone by each of them.
-/

namespace BitPattern.Text

open Plan

/-! ## The steps -/

lemma wordChars_eq_self {cs : List Char} : wordChars cs = cs ↔ ∀ c ∈ cs, isWordChar c = true := by
  induction cs with
  | nil => simp [wordChars]
  | cons c cs ih =>
      rw [wordChars, List.map_cons, List.cons.injEq, ← wordChars, ih, List.forall_mem_cons]
      refine and_congr_left fun _ => ⟨fun h => ?_, fun h => if_pos h⟩
      by_contra hword
      rw [if_neg hword] at h
      exact hword (h ▸ rfl)

/-- A digit at the front gets a character before it, and nothing else changes. -/
lemma shieldDigit_cases (cs : List Char) :
    (shieldDigit cs = cs ∧ ∀ c ∈ cs.head?, c.isDigit = false) ∨
      cs.length < (shieldDigit cs).length := by
  cases cs with
  | nil => exact .inl ⟨rfl, by simp⟩
  | cons c cs =>
      rw [shieldDigit]
      split
      · exact .inr (Nat.lt_succ_self _)
      · rename_i hdigit
        exact .inl ⟨rfl, by simpa using hdigit⟩

/-- The mark of generated names gets characters before it, and nothing else changes. -/
lemma shieldGenerated_cases (cs : List Char) :
    (shieldGenerated cs = cs ∧ generatedMark.isPrefixOf cs = false) ∨
      cs.length < (shieldGenerated cs).length := by
  unfold shieldGenerated
  split
  · refine .inr ?_
    simp only [List.length_append, List.length_cons, List.length_nil]
    omega
  · rename_i hmark
    exact .inl ⟨rfl, Bool.eq_false_iff.mpr hmark⟩

/-- A reserved word gets a character behind it, and nothing else changes. -/
lemma shieldReserved_cases (cs : List Char) :
    (shieldReserved cs = cs ∧ isReserved (String.ofList cs) = false) ∨
      cs.length < (shieldReserved cs).length := by
  unfold shieldReserved
  split
  · exact .inr (by simp)
  · rename_i hreserved
    exact .inl ⟨rfl, Bool.eq_false_iff.mpr hreserved⟩

/-! ## Identifiers -/

/-- The codes of the letters, the digits and the underscore of ASCII. -/
lemma isWordChar_iff {c : Char} : isWordChar c = true ↔
    c.isDigit = true ∨ c.isAlpha = true ∨ c = '_' := by
  simp only [isWordChar, Char.isAlphanum, Bool.or_eq_true, beq_iff_eq]
  tauto

lemma toNat_of_isDigit {c : Char} (h : c.isDigit = true) : 48 ≤ c.toNat ∧ c.toNat ≤ 57 := by
  simp only [Char.isDigit, Bool.and_eq_true, decide_eq_true_eq] at h
  exact ⟨UInt32.le_iff_toNat_le.mp h.1, UInt32.le_iff_toNat_le.mp h.2⟩

lemma toNat_of_isAlpha {c : Char} (h : c.isAlpha = true) : 65 ≤ c.toNat ∧ c.toNat ≤ 122 := by
  rcases Bool.or_eq_true_iff.mp h with h | h
  · obtain ⟨hlow, hhigh⟩ := of_decide_eq_true h
    have hlow : 65 ≤ c.toNat := UInt32.le_iff_toNat_le.mp hlow
    have hhigh : c.toNat ≤ 90 := UInt32.le_iff_toNat_le.mp hhigh
    omega
  · obtain ⟨hlow, hhigh⟩ := Bool.and_eq_true_iff.mp h
    have hlow : 97 ≤ c.toNat := UInt32.le_iff_toNat_le.mp (of_decide_eq_true hlow)
    have hhigh : c.toNat ≤ 122 := UInt32.le_iff_toNat_le.mp (of_decide_eq_true hhigh)
    omega

lemma toNat_le_of_isWordChar {c : Char} (h : isWordChar c = true) : c.toNat ≤ 0x7E := by
  rcases isWordChar_iff.mp h with h | h | rfl
  · have := (toNat_of_isDigit h).2
    omega
  · have := (toNat_of_isAlpha h).2
    omega
  · decide

/-- Letters, digits and underscores of ASCII make an identifier unless the first one is a digit. -/
lemma isIdentifier_of_wordChars {x : String} (hne : x.toList ≠ [])
    (hwords : ∀ c ∈ x.toList, isWordChar c = true)
    (hdigit : ∀ c ∈ x.toList.head?, c.isDigit = false) : isIdentifier x = true := by
  unfold isIdentifier
  cases hchars : x.toList with
  | nil => exact absurd hchars hne
  | cons c cs =>
      rw [hchars] at hwords hdigit
      obtain ⟨hc, hcs⟩ := List.forall_mem_cons.mp hwords
      have hstart : isNameStart c = true := by
        rw [isNameStart, if_pos (toNat_le_of_isWordChar hc)]
        simpa [isWordChar, Char.isAlphanum, hdigit c rfl] using hc
      have hrest : cs.all isNameRest = true := by
        refine List.all_eq_true.mpr fun d hd => ?_
        rw [isNameRest, if_pos (toNat_le_of_isWordChar (hcs d hd))]
        exact hcs d hd
      simp [hstart, hrest]

/-- A digit starts no identifier. -/
lemma not_isDigit_of_isNameStart {c : Char} (h : isNameStart c = true) : c.isDigit = false := by
  by_contra hdigit
  obtain ⟨hlow, hhigh⟩ := toNat_of_isDigit (by simpa using hdigit)
  rw [isNameStart, if_pos (by omega), Bool.or_eq_true, beq_iff_eq] at h
  rcases h with h | rfl
  · have := (toNat_of_isAlpha h).1
    omega
  · exact absurd hhigh (by decide)

/-! ## Local names -/

lemma length_le_of_cases {cs shielded : List Char} {p : Prop}
    (h : (shielded = cs ∧ p) ∨ cs.length < shielded.length) : cs.length ≤ shielded.length := by
  rcases h with ⟨h, -⟩ | h
  · exact Nat.le_of_eq (congrArg List.length h.symm)
  · exact Nat.le_of_lt h

/-- The steps of a local name add no character exactly if they change nothing. -/
lemma shields_eq_self {cs : List Char}
    (h : (shieldReserved (shieldGenerated (shieldDigit cs))).length ≤ cs.length) :
    shieldReserved (shieldGenerated (shieldDigit cs)) = cs ∧ (∀ c ∈ cs.head?, c.isDigit = false) ∧
      generatedMark.isPrefixOf cs = false ∧ isReserved (String.ofList cs) = false := by
  have hgenerated := length_le_of_cases (shieldGenerated_cases (shieldDigit cs))
  have hreserved := length_le_of_cases (shieldReserved_cases (shieldGenerated (shieldDigit cs)))
  obtain ⟨hdigit, hhead⟩ := (shieldDigit_cases cs).resolve_right (by omega)
  rw [hdigit] at h hgenerated hreserved ⊢
  obtain ⟨hgenerated, hmark⟩ := (shieldGenerated_cases cs).resolve_right (by omega)
  rw [hgenerated] at h ⊢
  obtain ⟨hword, hreserved⟩ := (shieldReserved_cases cs).resolve_right (by omega)
  exact ⟨hword, hhead, hmark, hreserved⟩

/-- **A name is its own local** exactly if it consists of letters, digits and underscores of ASCII
and expressions can refer to it in an environment. -/
theorem localName_eq_self {x : String} :
    localName x = x ↔ isUsable x = true ∧ ∀ c ∈ x.toList, isWordChar c = true := by
  simp only [isUsable, isGenerated, Bool.and_eq_true, Bool.not_eq_true']
  constructor
  · intro h
    simp only [localName] at h
    split at h
    · rw [← h]
      exact ⟨by decide, List.all_eq_true.mp (by decide)⟩
    · -- Every step keeps the text or makes it longer, so none of them has changed it.
      rename_i hne
      have hchars := congrArg String.toList h
      rw [String.toList_ofList] at hchars
      have hlength : (wordChars x.toList).length = x.toList.length := List.length_map _
      obtain ⟨hsame, hhead, hmark, hreserved⟩ :=
        @shields_eq_self (wordChars x.toList) (Nat.le_of_eq (by rw [hchars, hlength]))
      have hword : wordChars x.toList = x.toList := hsame.symm.trans hchars
      rw [hchars, List.isEmpty_iff] at hne
      rw [hword] at hhead hmark
      rw [hword, String.ofList_toList] at hreserved
      have hwords := wordChars_eq_self.mp hword
      exact ⟨⟨⟨isIdentifier_of_wordChars hne hwords hhead, hreserved⟩, hmark⟩, hwords⟩
  · rintro ⟨⟨⟨hidentifier, hreserved⟩, hmark⟩, hwords⟩
    -- And on a usable name every step does nothing.
    have hdigit : shieldDigit x.toList = x.toList := by
      unfold isIdentifier at hidentifier
      cases hchars : x.toList with
      | nil => rfl
      | cons c cs =>
          rw [hchars] at hidentifier
          have hstart := (Bool.and_eq_true_iff.mp hidentifier).1
          rw [shieldDigit, if_neg (by simp [not_isDigit_of_isNameStart hstart])]
    have hne : ¬x.toList.isEmpty = true := by
      intro hempty
      rw [isIdentifier, List.isEmpty_iff.mp hempty] at hidentifier
      cases hidentifier
    have hgenerated : shieldGenerated x.toList = x.toList :=
      if_neg (Bool.eq_false_iff.mp hmark)
    have hword : shieldReserved x.toList = x.toList := by
      rw [shieldReserved, String.ofList_toList, if_neg (Bool.eq_false_iff.mp hreserved)]
    simp only [localName]
    rw [wordChars_eq_self.mpr hwords, hdigit, hgenerated, hword, if_neg hne, String.ofList_toList]

end BitPattern.Text
