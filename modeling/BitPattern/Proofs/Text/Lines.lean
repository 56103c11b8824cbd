import BitPattern.Proofs.Text.Hidden

/-!
# Texts made of lines

`linesText` ends every line with a line feed.  Lines that no line break cuts are got back from their
text (`listingLines_linesText`), so what is emitted line by line is read line by line.
-/

namespace BitPattern.Text

/-- A text with something on it that can be seen. -/
def Nonblank (s : String) : Prop :=
  ∃ c ∈ s.toList, isBlank c = false

/-- A text that no line break cuts. -/
def Unbroken (s : String) : Prop :=
  ∀ c ∈ s.toList, isLineBreak c = false

@[simp] lemma nonblank_append {s t : String} : Nonblank (s ++ t) ↔ Nonblank s ∨ Nonblank t := by
  simp [Nonblank, or_and_right, exists_or]

lemma Nonblank.literal {s : String} (h : (s.toList.any fun c => !isBlank c) = true) :
    Nonblank s := by
  simpa [Nonblank] using h

lemma Nonblank.not_all {s : String} (h : Nonblank s) : ¬s.toList.all isBlank = true := by
  obtain ⟨c, hc, hblank⟩ := h
  intro hall
  rw [List.all_eq_true.mp hall c hc] at hblank
  cases hblank

@[simp] lemma unbroken_append {s t : String} : Unbroken (s ++ t) ↔ Unbroken s ∧ Unbroken t := by
  simp [Unbroken, or_imp, forall_and]

lemma Unbroken.literal {s : String} (h : s.toList.all (!isLineBreak ·) = true) : Unbroken s := by
  simpa [Unbroken] using h

/-- Lines, each with a line feed at its end. -/
def linesText (lines : List String) : String :=
  String.join (lines.map (· ++ "\n"))

@[simp] lemma linesText_nil : linesText [] = "" :=
  rfl

@[simp] lemma linesText_cons (line : String) (lines : List String) :
    linesText (line :: lines) = line ++ "\n" ++ linesText lines := by
  simp [linesText]

@[simp] lemma linesText_append (lines more : List String) :
    linesText (lines ++ more) = linesText lines ++ linesText more := by
  simp [linesText]

/-- Only line feeds come with the text of lines. -/
lemma lacks_linesText {c : Char} (hc : c ≠ '\n') {lines : List String} :
    Lacks c (linesText lines) ↔ ∀ line ∈ lines, Lacks c line := by
  have hbreak : Lacks c "\n" := by simpa [Lacks] using hc
  induction lines with
  | nil => simp
  | cons line lines ih =>
      simp [hbreak, ih]

lemma listingLinesFrom_line {run line cs : List Char} (h : ∀ c ∈ line, isLineBreak c = false) :
    listingLinesFrom run (line ++ '\n' :: cs) =
      (run.reverse ++ line) :: listingLinesFrom [] cs := by
  have hcr : isLineBreak '\r' = true := by decide
  induction line generalizing run with
  | nil =>
      rw [List.nil_append, listingLinesFrom, if_pos (by decide), List.append_nil]
      simp
  | cons c line ih =>
      obtain ⟨hc, hline⟩ := List.forall_mem_cons.mp h
      rw [List.cons_append, listingLinesFrom, if_neg (by simp [hc]), ih hline]
      · simp
      · rintro _ rfl
        rw [hcr] at hc
        cases hc

/-- Lines that no line break cuts are got back from their text. -/
lemma listingLines_linesText {lines : List String} (h : ∀ line ∈ lines, Unbroken line) :
    listingLines (linesText lines) = lines := by
  induction lines with
  | nil => rfl
  | cons line lines ih =>
      obtain ⟨hline, hlines⟩ := List.forall_mem_cons.mp h
      have hfirst := @listingLinesFrom_line [] line.toList (linesText lines).toList hline
      have hrest := ih hlines
      unfold listingLines at hrest ⊢
      rw [linesText_cons, String.toList_append, String.toList_append]
      simp [hfirst, hrest]

end BitPattern.Text
