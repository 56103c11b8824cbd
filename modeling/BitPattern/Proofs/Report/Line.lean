import BitPattern.Proofs.Report.Span

/-!
# Places and lines

The place of an offset names a line of the source, as it is cut at its line feeds, and a column in
it.  Nothing is lost on the way: the lines before it, each with its line feed, and the columns
before it make up the offset (`ofOffset_exact`).
-/

namespace BitPattern.Report.Span

open BitPattern.Text

/-- The number of characters of some lines, with the line feed behind each of them. -/
def extent : List String → Nat
  | [] => 0
  | line :: lines => line.length + 1 + extent lines

/-- A place is that of an offset of a source: its text is the line of that number, its column is in
that line or just behind it, and what stands before it is as long as the offset says. -/
def Exact (span : Span) (source : String) (k : Int) : Prop :=
  ∃ before after, splitLines source = before ++ span.text :: after ∧
    span.line = before.length + 1 ∧ 1 ≤ span.column ∧ span.column ≤ span.text.length + 1 ∧
      extent before + (span.column - 1) = k

/-- The first line of a text goes up to its first line feed. -/
lemma linesFrom_eq_cons (run cs : List Char) :
    ∃ after, linesFrom run cs = (run.reverse ++ cs.takeWhile (· != '\n')) :: after := by
  induction cs generalizing run with
  | nil => exact ⟨[], by simp [linesFrom]⟩
  | cons c cs ih =>
      by_cases hc : c = '\n'
      · exact ⟨linesFrom [] cs, by simp [linesFrom, hc]⟩
      · obtain ⟨after, hafter⟩ := ih (c :: run)
        refine ⟨after, ?_⟩
        rw [linesFrom, if_neg (by simpa using hc), hafter]
        simp [hc]

/-- Locating an offset cuts the text into lines up to the one that it lies in.  The characters of
that line that have been passed before are in `run`. -/
lemma locate_lines {line n : Nat} {run cs : List Char} (hn : n ≤ cs.length) :
    ∃ before text after column, linesFrom run cs = before ++ text :: after ∧
      locate line run n cs = (line + before.length, column + 1, text) ∧ column ≤ text.length ∧
        extent (before.map String.ofList) + column = run.length + n := by
  induction cs generalizing line run n with
  | nil =>
      obtain rfl : n = 0 := Nat.le_zero.mp hn
      exact ⟨[], run.reverse, [], run.length, rfl, by simp [locate], by simp, by simp [extent]⟩
  | cons c cs ih =>
      cases n with
      | zero =>
          obtain ⟨after, hafter⟩ := linesFrom_eq_cons run (c :: cs)
          exact ⟨[], _, after, run.length, hafter, rfl, by simp, by simp [extent]⟩
      | succ n =>
          have hn : n ≤ cs.length := Nat.le_of_succ_le_succ hn
          -- A line feed closes the line that has been passed and starts another.
          by_cases hc : c = '\n'
          · obtain ⟨before, text, after, column, hlines, hlocate, hcolumn, hextent⟩ :=
              @ih (line + 1) n [] hn
            refine ⟨run.reverse :: before, text, after, column, ?_, ?_, hcolumn, ?_⟩
            · rw [linesFrom, if_pos (by simpa using hc), hlines, List.cons_append]
            · rw [locate, if_pos (by simpa using hc), hlocate, List.length_cons, Nat.add_assoc,
                Nat.add_comm 1]
            · rw [List.map_cons, extent, String.length_ofList, List.length_reverse]
              rw [List.length_nil] at hextent
              omega
          · obtain ⟨before, text, after, column, hlines, hlocate, hcolumn, hextent⟩ :=
              @ih line n (c :: run) hn
            refine ⟨before, text, after, column, ?_, ?_, hcolumn, ?_⟩
            · rw [linesFrom, if_neg (by simpa using hc), hlines]
            · rw [locate, if_neg (by simpa using hc), hlocate]
            · rw [List.length_cons] at hextent
              omega

/-- The place of an offset is exact for the offset, or for the end of the source that is nearer to
it. -/
lemma ofOffset_exact (file source : String) (offset : Int) :
    (ofOffset file source offset).Exact source (max 0 (min offset source.length)) := by
  have hn : min offset.toNat source.toList.length ≤ source.toList.length := Nat.min_le_right _ _
  obtain ⟨before, text, after, column, hlines, hlocate, hcolumn, hextent⟩ :=
    @locate_lines 1 _ [] _ hn
  rw [ofOffset, locate_min, hlocate]
  refine ⟨before.map String.ofList, after.map String.ofList, ?_, ?_, ?_, ?_, ?_⟩
  · rw [splitLines, hlines, List.map_append, List.map_cons]
  · simp only [List.length_map]
    omega
  · simp only
    omega
  · simp only [String.length_ofList]
    omega
  · rw [String.length_toList, List.length_nil] at hextent
    simp only
    omega

end BitPattern.Report.Span
