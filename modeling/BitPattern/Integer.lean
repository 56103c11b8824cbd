/-!
# Integer operations

The integer operations of expressions that are more than addition and multiplication: division that
truncates toward zero and its remainder, shifts, and the bitwise operations on integers read as
endless two's complement.  Constant folding and running both use these definitions.
-/

namespace BitPattern.Integer

/-- The width of the words on which the logical shift works. -/
def wordBits : Nat := 63

/-- The quotient of the absolute values, negated if exactly one operand is negative. -/
def quotient (a b : Int) : Int :=
  let q : Int := (a.natAbs / b.natAbs : Nat)
  if decide (0 ≤ a) = decide (0 ≤ b) then q else -q

/-- What is left of the dividend after the quotient times the divisor. -/
def remainder (a b : Int) : Int :=
  a - b * quotient a b

/-- The shift to the left. -/
def shiftLeft (a : Int) (count : Nat) : Int :=
  a <<< count

/-- The shift to the right that keeps the sign. -/
def shiftRight (a : Int) (count : Nat) : Int :=
  a >>> count

/-- The shift to the right of the low word of an integer. -/
def logicalShiftRight (a : Int) (count : Nat) : Int :=
  (a % (1 <<< wordBits)) >>> count

/-- The complement of every bit. -/
def complement (a : Int) : Int :=
  -a - 1

/-- The bits of the first number that the second has not. -/
def clearBits (m n : Nat) : Nat :=
  m - (m &&& n)

/-- The bits that both integers have. -/
def bitAnd : Int → Int → Int
  | .ofNat m, .ofNat n => .ofNat (m &&& n)
  | .ofNat m, .negSucc n => .ofNat (clearBits m n)
  | .negSucc m, .ofNat n => .ofNat (clearBits n m)
  | .negSucc m, .negSucc n => .negSucc (m ||| n)

/-- The bits that either integer has. -/
def bitOr : Int → Int → Int
  | .ofNat m, .ofNat n => .ofNat (m ||| n)
  | .ofNat m, .negSucc n => .negSucc (clearBits n m)
  | .negSucc m, .ofNat n => .negSucc (clearBits m n)
  | .negSucc m, .negSucc n => .negSucc (m &&& n)

/-- The bits that exactly one of the integers has. -/
def bitXor : Int → Int → Int
  | .ofNat m, .ofNat n => .ofNat (m ^^^ n)
  | .ofNat m, .negSucc n => .negSucc (m ^^^ n)
  | .negSucc m, .ofNat n => .negSucc (m ^^^ n)
  | .negSucc m, .negSucc n => .ofNat (m ^^^ n)

end BitPattern.Integer
