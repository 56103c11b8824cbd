import BitPattern.Integer
import Mathlib.Data.Rat.Floor
import Mathlib.Tactic.NormNum

/-!
# Division toward zero and the logical shift

Both readings of expressions, folding and running, divide integers by `quotient` and `remainder` and
shift words by `logicalShiftRight`.  What these compute is said here without reference to how.

A quotient and a remainder divide toward zero (`DividesTowardZero`) if together they make up the
dividend, and the remainder is smaller than the divisor and has the sign of the dividend, unless it
is zero.  That settles both: `DividesTowardZero.unique` compares two such divisions, whose
remainders lie on the same side of zero and differ by a multiple of the divisor.

A logical shift is one of the low 63 bits of an integer, so it is a rounded quotient of the residue
(`logicalShiftRight_eq_floor`) and cannot be negative.
-/

namespace BitPattern.Integer

/-! ## Division -/

/-- The quotient `q` and the remainder `r` of a division of `a` by `b` that goes toward zero. -/
structure DividesTowardZero (a b q r : Int) : Prop where
  sum : a = b * q + r
  small : |r| < |b|
  sign : r = 0 ∨ r.sign = a.sign

lemma quotient_eq_tdiv (a b : Int) : quotient a b = a.tdiv b := by
  unfold quotient
  cases a <;> cases b <;> simp [Int.tdiv]

lemma remainder_eq_tmod (a b : Int) : remainder a b = a.tmod b := by
  rw [remainder, quotient_eq_tdiv, Int.tmod_def]

namespace DividesTowardZero

variable {a b q r q' r' : Int}

/-- The remainder is on the side of zero on which the dividend is. -/
lemma same_side (h : DividesTowardZero a b q r) : (0 ≤ a → 0 ≤ r) ∧ (a ≤ 0 → r ≤ 0) := by
  rcases h.sign with hr | hr
  · rw [hr]
    exact ⟨fun _ => le_rfl, fun _ => le_rfl⟩
  · constructor
    · intro ha
      rw [← Int.sign_nonneg_iff, hr]
      exact Int.sign_nonneg_iff.mpr ha
    · intro ha
      rw [← Int.sign_nonpos_iff, hr]
      exact Int.sign_nonpos_iff.mpr ha

lemma natAbs_lt (h : DividesTowardZero a b q r) : r.natAbs < b.natAbs := by
  have hsmall := h.small
  rw [Int.abs_eq_natAbs, Int.abs_eq_natAbs] at hsmall
  exact_mod_cast hsmall

/-- Division toward zero has one result only. -/
theorem unique (h : DividesTowardZero a b q r) (h' : DividesTowardZero a b q' r') :
    q = q' ∧ r = r' := by
  have hb : b ≠ 0 := abs_pos.mp (lt_of_le_of_lt (abs_nonneg r) h.small)
  have hdiff : b * (q' - q) = r - r' := by
    have hsum := h.sum.symm.trans h'.sum
    rw [mul_sub]
    omega
  -- On one side of zero, two numbers below a bound are less than it apart.
  have hclose : (r - r').natAbs < b.natAbs := by
    have hsmall := h.natAbs_lt
    have hsmall' := h'.natAbs_lt
    obtain ⟨hpos, hneg⟩ := h.same_side
    obtain ⟨hpos', hneg'⟩ := h'.same_side
    omega
  have hr : r - r' = 0 := Int.eq_zero_of_dvd_of_natAbs_lt_natAbs ⟨_, hdiff.symm⟩ hclose
  have hq : q' - q = 0 := (mul_eq_zero.mp (hdiff.trans hr)).resolve_left hb
  exact ⟨(sub_eq_zero.mp hq).symm, sub_eq_zero.mp hr⟩

end DividesTowardZero

lemma dividesTowardZero_quotient {b : Int} (hb : b ≠ 0) (a : Int) :
    DividesTowardZero a b (quotient a b) (remainder a b) := by
  rw [quotient_eq_tdiv, remainder_eq_tmod]
  refine ⟨(Int.mul_tdiv_add_tmod a b).symm, ?_, ?_⟩
  · rw [Int.abs_eq_natAbs, Int.abs_eq_natAbs, Int.natAbs_tmod]
    exact_mod_cast Nat.mod_lt _ (Int.natAbs_pos.mpr hb)
  · rw [Int.sign_tmod]
    by_cases hdvd : b ∣ a
    · exact .inl (Int.tmod_eq_zero_of_dvd hdvd)
    · exact .inr (if_neg hdvd)

/-! ## The logical shift -/

lemma logicalShiftRight_eq_ediv (a : Int) (count : Nat) :
    logicalShiftRight a count = a % 2 ^ 63 / 2 ^ count := by
  rw [logicalShiftRight, Int.shiftRight_eq_div_pow]
  push_cast
  rfl

lemma logicalShiftRight_eq_floor (a : Int) (count : Nat) :
    logicalShiftRight a count = ⌊((a % 2 ^ 63 : Int) : ℚ) / 2 ^ count⌋ := by
  have hfloor := Rat.floor_intCast_div_natCast (a % 2 ^ 63) (2 ^ count)
  push_cast at hfloor
  rw [logicalShiftRight_eq_ediv]
  exact_mod_cast hfloor.symm

lemma logicalShiftRight_nonneg (a : Int) (count : Nat) : 0 ≤ logicalShiftRight a count := by
  rw [logicalShiftRight_eq_ediv]
  exact Int.ediv_nonneg (Int.emod_nonneg a (by decide)) (by positivity)

lemma logicalShiftRight_lt (a : Int) (count : Nat) : logicalShiftRight a count < 2 ^ 63 := by
  rw [logicalShiftRight_eq_ediv]
  calc
    _ ≤ a % 2 ^ 63 := Int.ediv_le_self _ (Int.emod_nonneg a (by decide))
    _ < 2 ^ 63 := Int.emod_lt_of_pos a (by decide)

/-- On words that are not negative, a logical shift keeps the sign. -/
lemma logicalShiftRight_eq_shiftRight {a : Int} (ha : 0 ≤ a) (hlt : a < 2 ^ 63) (count : Nat) :
    logicalShiftRight a count = shiftRight a count := by
  rw [logicalShiftRight_eq_ediv, Int.emod_eq_of_lt ha hlt, shiftRight, Int.shiftRight_eq_div_pow]
  push_cast
  rfl

/-! ## Both -/

/-- **Integer operations.**  A quotient and its remainder are the one pair that divides toward zero,
and a logical shift is the residue of an integer modulo `2 ^ 63`, divided by a power of two and
rounded down: it is a residue again, and on residues it is the shift that keeps the sign. -/
theorem divides_and_shifts :
    (∀ a b : Int, b ≠ 0 → ∀ q r, DividesTowardZero a b q r ↔
      q = quotient a b ∧ r = remainder a b) ∧
    ∀ (a : Int) (count : Nat),
      logicalShiftRight a count = ⌊((a % 2 ^ 63 : Int) : ℚ) / 2 ^ count⌋ ∧
      0 ≤ logicalShiftRight a count ∧ logicalShiftRight a count < 2 ^ 63 ∧
      (0 ≤ a → a < 2 ^ 63 → logicalShiftRight a count = shiftRight a count) := by
  constructor
  · intro a b hb q r
    constructor
    · exact fun h => h.unique (dividesTowardZero_quotient hb a)
    · rintro ⟨rfl, rfl⟩
      exact dividesTowardZero_quotient hb a
  · intro a count
    exact ⟨logicalShiftRight_eq_floor a count, logicalShiftRight_nonneg a count,
      logicalShiftRight_lt a count, fun ha hlt => logicalShiftRight_eq_shiftRight ha hlt count⟩

/-- A negative dividend, and a word with its highest bit set. -/
theorem divides_and_shifts_negative :
    (-7 : Int) = 2 * (-3) + -1 ∧ quotient (-7) 2 = -3 ∧ remainder (-7) 2 = -1 ∧
      logicalShiftRight (-1) 62 = 1 ∧ logicalShiftRight 9 1 = shiftRight 9 1 := by
  have hdivides : DividesTowardZero (-7) 2 (-3) (-1) := ⟨by decide, by decide, .inr (by decide)⟩
  obtain ⟨hq, hr⟩ := (divides_and_shifts.1 (-7) 2 (by decide) (-3) (-1)).mp hdivides
  exact ⟨hdivides.sum, hq.symm, hr.symm, by decide,
    (divides_and_shifts.2 9 1).2.2.2 (by decide) (by decide)⟩

end BitPattern.Integer
