import BitPattern.Proofs.Text.Name
import BitPattern.Render.Dump

/-!
# Characters that a listing does not show

`Hidden` says of a character that quoting never shows it and that no name has it.  The NUL character
and all line breaks are hidden.  The texts that a listing is put together from lack every hidden
character whatever they show: literals of printable ASCII, numbers, quoted texts and byte strings,
local names, and identifiers.  Words are the one kind of text that may have a hidden character, and
then it is no blank one.
-/

namespace BitPattern.Text

/-- A text without the character. -/
def Lacks (c : Char) (s : String) : Prop :=
  c ∉ s.toList

/-- A character that quoting does not show and no name has. -/
structure Hidden (c : Char) : Prop where
  shown : isShown c = false
  named : isNameRest c = false

instance (c : Char) : Decidable (Hidden c) :=
  decidable_of_iff (isShown c = false ∧ isNameRest c = false)
    ⟨fun ⟨shown, named⟩ => ⟨shown, named⟩, fun h => ⟨h.shown, h.named⟩⟩

variable {c : Char}

/-! ## Putting texts together -/

@[simp] lemma lacks_append {s t : String} : Lacks c (s ++ t) ↔ Lacks c s ∧ Lacks c t := by
  simp [Lacks]

@[simp] lemma lacks_empty : Lacks c "" := by
  simp [Lacks]

lemma lacks_ofList {cs : List Char} : Lacks c (String.ofList cs) ↔ c ∉ cs := by
  simp [Lacks]

lemma lacks_intercalate {sep : String} {texts : List String} (hsep : Lacks c sep) :
    Lacks c (sep.intercalate texts) ↔ ∀ s ∈ texts, Lacks c s := by
  induction texts with
  | nil => simp
  | cons s texts ih =>
      cases texts with
      | nil => simp
      | cons t texts =>
          rw [String.intercalate_cons_cons, lacks_append, lacks_append, ih, List.forall_mem_cons]
          simp [hsep]

/-! ## Words -/

lemma not_mem_wordsFrom_iff (hc : isBlank c = false) {run cs : List Char} :
    (∀ word ∈ wordsFrom run cs, c ∉ word) ↔ c ∉ run ∧ c ∉ cs := by
  have hne : ∀ d, isBlank d = true → c ≠ d := by
    rintro d hd rfl
    rw [hc] at hd
    cases hd
  induction cs generalizing run with
  | nil =>
      unfold wordsFrom
      split <;> simp_all
  | cons d cs ih =>
      unfold wordsFrom
      split
      · rename_i hblank
        split <;> simp_all
      · refine ih.trans ?_
        simp only [List.mem_cons, not_or]
        tauto

/-- A character that is not blank is in the words of a text if it is in the text. -/
lemma lacks_joinWords (hspace : c ≠ ' ') (hc : isBlank c = false) {s : String} :
    Lacks c (joinWords s) ↔ Lacks c s := by
  have hsep : Lacks c " " := by simpa [Lacks] using hspace
  have hwords := @not_mem_wordsFrom_iff c hc [] s.toList
  rw [joinWords, lacks_intercalate hsep]
  simpa [words, Lacks] using hwords

lemma not_blank_of_mem_wordsFrom {run cs : List Char} (hrun : ∀ d ∈ run, isBlank d = false) :
    ∀ word ∈ wordsFrom run cs, ∀ d ∈ word, isBlank d = false := by
  induction cs generalizing run with
  | nil =>
      unfold wordsFrom
      split
      · simp
      · simpa using hrun
  | cons d cs ih =>
      unfold wordsFrom
      split
      · split
        · exact ih (by simp)
        · exact List.forall_mem_cons.mpr ⟨by simpa using hrun, ih (by simp)⟩
      · rename_i hblank
        exact ih (List.forall_mem_cons.mpr ⟨by simpa using hblank, hrun⟩)

/-- The space is the only blank character in the words of a text. -/
lemma joinWords_lacks (hspace : c ≠ ' ') (hc : isBlank c = true) (s : String) :
    Lacks c (joinWords s) := by
  have hsep : Lacks c " " := by simpa [Lacks] using hspace
  refine (lacks_intercalate hsep).mpr fun word hword hmem => ?_
  obtain ⟨cs, hcs, rfl⟩ := List.mem_map.mp hword
  have := not_blank_of_mem_wordsFrom (by simp) cs hcs c (by simpa using hmem)
  rw [hc] at this
  cases this

/-! ## Which characters are hidden -/

/-- A text without NUL characters. -/
@[simp] abbrev NulFree (s : String) : Prop :=
  Char.ofNat 0 ∉ s.toList

lemma nulFree_iff {s : String} : NulFree s ↔ Lacks (Char.ofNat 0) s :=
  Iff.rfl

lemma hidden_nul : Hidden (Char.ofNat 0) := by
  decide +kernel

/-- No line break is shown, and no name has one. -/
lemma hidden_of_isLineBreak (h : isLineBreak c = true) : Hidden c := by
  have hbreaks : ∀ n ∈ [10, 11, 12, 13, 0x1C, 0x1D, 0x1E, 0x85, 0x2028, 0x2029],
      Hidden (Char.ofNat n) := by
    decide +kernel
  rw [← Char.ofNat_toNat c]
  refine hbreaks _ ?_
  simp only [isLineBreak, Bool.or_eq_true, Bool.and_eq_true, decide_eq_true_eq, beq_iff_eq] at h
  simp only [List.mem_cons, List.not_mem_nil, or_false]
  omega

lemma isPlainAscii_of_isWordChar (h : isWordChar c = true) : isPlainAscii c = true := by
  have hlow : 0x20 ≤ c.toNat := by
    rcases isWordChar_iff.mp h with h | h | rfl
    · have := (toNat_of_isDigit h).1
      omega
    · have := (toNat_of_isAlpha h).1
      omega
    · decide
  simp [isPlainAscii, hlow, toNat_le_of_isWordChar h]

lemma isNameRest_of_isNameStart (h : isNameStart c = true) : isNameRest c = true := by
  unfold isNameStart at h
  unfold isNameRest
  split_ifs at h ⊢
  · simp only [Bool.or_eq_true, beq_iff_eq] at h
    rcases h with h | rfl
    · simp [isWordChar, Char.isAlphanum, h]
    · rfl
  · simp [h]

namespace Hidden

lemma not_plain (h : Hidden c) : isPlainAscii c = false := by
  have hshown := h.shown
  simp only [isShown] at hshown
  unfold isPlainAscii
  split at hshown <;> simp_all

lemma ne_of_plain (h : Hidden c) {d : Char} (hd : isPlainAscii d = true) : c ≠ d := by
  rintro rfl
  rw [h.not_plain] at hd
  cases hd

lemma ne_of_word (h : Hidden c) {d : Char} (hd : isWordChar d = true) : c ≠ d :=
  h.ne_of_plain (isPlainAscii_of_isWordChar hd)

/-- A literal of printable ASCII shows no hidden character. -/
lemma literal (h : Hidden c) {s : String} (hs : s.toList.all isPlainAscii = true) : Lacks c s :=
  fun hmem => h.ne_of_plain (List.all_eq_true.mp hs c hmem) rfl

/-! ## Numbers and quoted texts -/

lemma repr (h : Hidden c) (n : Nat) : Lacks c (Nat.repr n) := by
  intro hmem
  rw [Nat.toList_repr] at hmem
  have hdigit := Nat.isDigit_of_mem_toDigits (by decide) (by decide) hmem
  exact h.ne_of_word (by simp [isWordChar, Char.isAlphanum, hdigit]) rfl

lemma decimal (h : Hidden c) (n : Int) : Lacks c (decimal n) := by
  unfold Text.decimal
  split
  · exact lacks_append.mpr ⟨h.literal (by decide), h.repr _⟩
  · exact h.repr _

lemma not_mem_hexDigits (h : Hidden c) {width n : Nat} : c ∉ hexDigits width n := by
  have hdigit : ∀ d < 16, isPlainAscii (hexDigit d) = true := by decide
  induction width generalizing n with
  | zero => simp [hexDigits]
  | succ width ih =>
      intro hmem
      rcases List.mem_append.mp hmem with hmem | hmem
      · exact ih hmem
      · exact h.ne_of_plain (hdigit _ (Nat.mod_lt _ (by decide))) (List.mem_singleton.mp hmem)

lemma not_mem_hexEscape (h : Hidden c) {n : Nat} : c ∉ hexEscape n := by
  have hmark : ∀ d ∈ ['\\', 'x', 'u', 'U'], c ≠ d := fun d hd =>
    h.ne_of_plain (List.all_eq_true.mp (by decide : ['\\', 'x', 'u', 'U'].all isPlainAscii) d hd)
  unfold hexEscape
  split_ifs <;> simp [h.not_mem_hexDigits, hmark]

lemma not_mem_quoteChars (h : Hidden c) {shown : Char → Bool} (hshown : shown c = false)
    (cs : List Char) : c ∉ quoteChars shown cs := by
  have hquote : c ≠ quoteOf cs := by
    unfold quoteOf
    split <;> exact h.ne_of_plain (by decide)
  -- Each character is itself, or an escape made of plain ones.
  have hchar : ∀ d, c ∉ quoteChar (quoteOf cs) shown d := by
    have hmark : ∀ d ∈ ['\\', 'n', 'r', 't'], c ≠ d := fun d hd =>
      h.ne_of_plain (List.all_eq_true.mp (by decide : ['\\', 'n', 'r', 't'].all isPlainAscii) d hd)
    intro d
    unfold quoteChar
    split_ifs with h₁ h₂ h₃ h₄ h₅
    · rcases (by simpa using h₁ : d = quoteOf cs ∨ d = '\\') with rfl | rfl
      · simp [hquote, hmark]
      · simp [hmark]
    · simp [hmark]
    · simp [hmark]
    · simp [hmark]
    · intro hmem
      rw [← List.mem_singleton.mp hmem, hshown] at h₅
      cases h₅
    · exact h.not_mem_hexEscape
  simp only [Text.quoteChars, List.mem_cons, List.mem_append, List.mem_flatMap,
    List.not_mem_nil, or_false, not_or, not_exists, not_and]
  exact ⟨hquote, fun d _ => hchar d, hquote⟩

lemma quoted (h : Hidden c) (s : String) : Lacks c (quoted s) :=
  lacks_ofList.mpr (h.not_mem_quoteChars h.shown _)

lemma quotedBytes (h : Hidden c) (b : List UInt8) : Lacks c (quotedBytes b) := by
  refine lacks_ofList.mpr (List.not_mem_cons_of_ne_of_not_mem ?_ ?_)
  · exact h.ne_of_plain (by decide)
  · exact h.not_mem_quoteChars h.not_plain _

/-- A constant shows no hidden character: its bytes are quoted. -/
lemma constant (h : Hidden c) (value : Constant) : Lacks c value.display := by
  cases value with
  | int n => exact h.decimal n
  | bytes b => exact h.quotedBytes b

lemma dumpBool (h : Hidden c) (b : Bool) : Lacks c (dumpBool b) := by
  cases b <;> exact h.literal (by decide)

lemma dumpTuple (h : Hidden c) {items : List String} (hitems : ∀ s ∈ items, Lacks c s) :
    Lacks c (dumpTuple items) := by
  unfold BitPattern.dumpTuple
  split
  · simpa (disch := decide) [h.literal] using hitems
  · have hsep : Lacks c ", " := h.literal (by decide)
    simpa (disch := decide) [h.literal, lacks_intercalate hsep] using hitems

/-! ## Names -/

/-- A local name has word characters only, whatever it stands for. -/
lemma localName (h : Hidden c) (x : String) : Lacks c (localName x) := by
  have hplain : ['_', 'u', 's', 'e', 'r'].all isPlainAscii = true := by decide
  have hmark : ∀ d ∈ ['_', 'u', 's', 'e', 'r'], c ≠ d := fun d hd =>
    h.ne_of_plain (List.all_eq_true.mp hplain d hd)
  -- Every step keeps the characters or puts plain ones in front, so it adds no hidden one.
  have hword : c ∉ wordChars x.toList := by
    intro hmem
    obtain ⟨d, -, hd⟩ := List.mem_map.mp hmem
    split at hd
    · rename_i hplain
      exact h.ne_of_word hplain hd.symm
    · exact hmark _ (by simp) hd.symm
  have hdigit : c ∉ shieldDigit (wordChars x.toList) := by
    generalize wordChars x.toList = cs at hword
    unfold shieldDigit
    split
    · exact hword
    · split <;> simp_all
  have hgenerated : c ∉ shieldGenerated (shieldDigit (wordChars x.toList)) := by
    unfold shieldGenerated
    split <;> simp_all
  have hreserved : c ∉ shieldReserved (shieldGenerated (shieldDigit (wordChars x.toList))) := by
    unfold shieldReserved
    split <;> simp_all
  unfold Text.localName
  dsimp only
  split
  · exact h.literal (by decide)
  · exact lacks_ofList.mpr hreserved

/-- An identifier has no hidden character. -/
lemma of_isIdentifier (h : Hidden c) {x : String} (hx : isIdentifier x = true) : Lacks c x := by
  intro hmem
  unfold isIdentifier at hx
  split at hx
  · cases hx
  · rename_i d rest heq
    simp only [Bool.and_eq_true, List.all_eq_true] at hx
    have hrest : isNameRest c = true := by
      rw [heq] at hmem
      rcases List.mem_cons.mp hmem with rfl | hmem
      · exact isNameRest_of_isNameStart hx.1
      · exact hx.2 c hmem
    rw [h.named] at hrest
    cases hrest

end Hidden

end BitPattern.Text
