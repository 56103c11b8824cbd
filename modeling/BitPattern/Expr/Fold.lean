import BitPattern.Expr.Basic
import BitPattern.Integer

/-!
# Constant folding

`Expr.fold?` is the integer that an expression of integer literals and arithmetic denotes.  A name,
another literal, a call, a tuple, an operator outside the arithmetic ones, a division by zero or a
shift by a negative count leaves the expression without a constant value.
-/

namespace BitPattern

/-- A shift by a count that must not be negative. -/
def shiftBy? (shift : Int → Nat → Int) (a b : Int) : Option Int :=
  if b < 0 then none else some (shift a b.toNat)

/-- The value of an arithmetic operator on two integers. -/
def BinOp.fold? (op : BinOp) (a b : Int) : Option Int :=
  match op with
  | .add => some (a + b)
  | .sub => some (a - b)
  | .mul => some (a * b)
  | .div => if b = 0 then none else some (Integer.quotient a b)
  | .mod => if b = 0 then none else some (Integer.remainder a b)
  | .bitAnd => some (Integer.bitAnd a b)
  | .bitOr => some (Integer.bitOr a b)
  | .bitXor => some (Integer.bitXor a b)
  | .shiftLeft => shiftBy? Integer.shiftLeft a b
  | .logicalShiftRight => shiftBy? Integer.logicalShiftRight a b
  | .shiftRight => shiftBy? Integer.shiftRight a b
  | .or | .and | .eq | .ne | .lt | .le | .gt | .ge => none

/-- The value of an arithmetic operator on one integer. -/
def UnOp.fold? (op : UnOp) (a : Int) : Option Int :=
  match op with
  | .neg => some (-a)
  | .complement => some (Integer.complement a)
  | .not => none

/-- The constant value of an expression. -/
def Expr.fold? : Expr → Option Int
  | .int n => some n
  | .unary op operand => operand.fold?.bind op.fold?
  | .binary op left right =>
    left.fold?.bind fun a => right.fold?.bind fun b => op.fold? a b
  | .bytes _ | .bool _ | .name _ | .call .. | .tuple _ => none

end BitPattern
