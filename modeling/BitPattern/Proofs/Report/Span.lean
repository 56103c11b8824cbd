import BitPattern.Report.Span
import Mathlib.Data.List.Basic

/-!
# Places and offsets

Locating an offset reads the text before it: every line feed begins a new line, and every other
character moves one column on.  Different offsets of one text therefore have different places, and
two offsets have the same one exactly if they are equal or neither lies before the end of the text
(`samePlace_ofOffset`).
-/

namespace BitPattern.Report.Span

/-! ## What locating counts -/

/-- An offset beyond the end counts as the end. -/
lemma locate_min (line : Nat) (run : List Char) (n : Nat) (cs : List Char) :
    locate line run n cs = locate line run (min n cs.length) cs := by
  induction cs generalizing line run n with
  | nil => cases n <;> simp [locate]
  | cons c rest ih =>
    cases n with
    | zero => simp
    | succ n =>
      rw [List.length_cons, Nat.succ_min_succ]
      simp only [locate]
      rw [ih (line + 1), ih line]

/-- An offset lies on a later line than the text that was located before, or further on in the same
one. -/
lemma lt_locate (line : Nat) (run : List Char) (n : Nat) (cs : List Char) :
    line < (locate line run n cs).1 ∨
      (locate line run n cs).1 = line ∧ run.length < (locate line run n cs).2.1 := by
  induction cs generalizing line run n with
  | nil => cases n <;> simp [locate]
  | cons c rest ih =>
    cases n with
    | zero => simp [locate]
    | succ n =>
      simp only [locate]
      split
      · have := ih (line + 1) [] n
        omega
      · have := ih line (c :: run) n
        simp only [List.length_cons] at this
        omega

/-- An offset past the next character has another place than the one before it. -/
lemma locate_succ_ne (line : Nat) (run : List Char) (n : Nat) (c : Char) (rest : List Char) :
    ¬((locate line run (n + 1) (c :: rest)).1 = line ∧
      (locate line run (n + 1) (c :: rest)).2.1 = run.length + 1) := by
  simp only [locate]
  split
  · have := lt_locate (line + 1) [] n rest
    omega
  · have := lt_locate line (c :: run) n rest
    simp only [List.length_cons] at this
    omega

/-- Two offsets into a text on the same line and in the same column are the same. -/
lemma locate_injective {line : Nat} {run : List Char} {m n : Nat} {cs : List Char}
    (hm : m ≤ cs.length) (hn : n ≤ cs.length)
    (hline : (locate line run m cs).1 = (locate line run n cs).1)
    (hcolumn : (locate line run m cs).2.1 = (locate line run n cs).2.1) : m = n := by
  induction cs generalizing line run m n with
  | nil => simp_all
  | cons c rest ih =>
    cases m with
    | zero =>
      cases n with
      | zero => rfl
      | succ n => exact absurd ⟨hline.symm, hcolumn.symm⟩ (locate_succ_ne line run n c rest)
    | succ m =>
      cases n with
      | zero => exact absurd ⟨hline, hcolumn⟩ (locate_succ_ne line run m c rest)
      | succ n =>
        simp only [locate] at hline hcolumn
        simp only [List.length_cons, Nat.succ_le_succ_iff] at hm hn
        split at hline
        · rw [if_pos ‹_›, if_pos ‹_›] at hcolumn
          rw [ih hm hn hline hcolumn]
        · rw [if_neg ‹_›, if_neg ‹_›] at hcolumn
          rw [ih hm hn hline hcolumn]

/-! ## Places that are the same -/

/-- Two places on the same line and in the same column. -/
def SamePlace (a b : Span) : Prop :=
  a.line = b.line ∧ a.column = b.column

instance (a b : Span) : Decidable (SamePlace a b) :=
  inferInstanceAs (Decidable (a.line = b.line ∧ a.column = b.column))

/-- Two offsets of a source have the same place exactly if they are the same once both are moved
back into the text. -/
theorem samePlace_ofOffset (file source : String) (m n : Nat) :
    SamePlace (ofOffset file source m) (ofOffset file source n) ↔
      min m source.length = min n source.length := by
  rw [← String.length_toList]
  simp only [SamePlace, ofOffset, Int.toNat_natCast, Int.ofNat_inj]
  rw [locate_min 1 [] m, locate_min 1 [] n]
  constructor
  · rintro ⟨hline, hcolumn⟩
    exact locate_injective (Nat.min_le_right ..) (Nat.min_le_right ..) hline hcolumn
  · intro h
    simp only [h, and_self]

end BitPattern.Report.Span
