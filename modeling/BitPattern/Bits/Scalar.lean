import BitPattern.Text.Quoted

/-!
# Scalars

An integer may be given as a truth value, which stands for one or zero.  It stays a truth value
where it is kept or shown, and arithmetic makes a number of it.
-/

namespace BitPattern

/-- An integer as it is given. -/
inductive Scalar where
  | number (n : Int)
  | truth (b : Bool)
  deriving DecidableEq, Repr

namespace Scalar

instance : Coe Int Scalar := ⟨number⟩

/-- The integer that a scalar stands for. -/
def toInt : Scalar → Int
  | number n => n
  | truth b => b.toInt

/-- The natural number that a scalar stands for, zero if it is negative. -/
def toNat (s : Scalar) : Nat :=
  s.toInt.toNat

/-- Whether a scalar was given as a truth value. -/
def isTruth : Scalar → Bool
  | number _ => false
  | truth _ => true

/-- The scalar that stands for a number, given as a truth value or not. -/
def ofNat (isTruth : Bool) (n : Nat) : Scalar :=
  if isTruth then truth (n != 0) else number n

/-- A scalar for display. -/
def display : Scalar → String
  | number n => Text.decimal n
  | truth b => if b then "True" else "False"

@[simp] theorem toInt_number (n : Int) : (number n).toInt = n := rfl

@[simp] theorem toInt_truth (b : Bool) : (truth b).toInt = b.toInt := rfl

/-- A truth value stands for one at most. -/
theorem toNat_le_one {s : Scalar} (h : s.isTruth = true) : s.toNat ≤ 1 := by
  cases s with
  | number n => simp [isTruth] at h
  | truth b => cases b <;> decide

/-- A number of at most one that was given as a truth value is still that number. -/
theorem toInt_ofNat {isTruth : Bool} {n : Nat} (h : isTruth = true → n ≤ 1) :
    (ofNat isTruth n).toInt = n := by
  cases isTruth with
  | false => rfl
  | true =>
    match n, h rfl with
    | 0, _ => rfl
    | 1, _ => rfl

end Scalar

end BitPattern
