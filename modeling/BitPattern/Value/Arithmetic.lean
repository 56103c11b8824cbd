import BitPattern.Expr.Basic
import BitPattern.Integer
import BitPattern.Value.Order

/-!
# Operators on values

What the operators of expressions do to values.  Arithmetic is that of unbounded integers; sums join
sequences of one type, and products repeat a sequence.  Operands of other types are a fault.
`or` and `and` are not among these operators, since they may leave their right operand alone.
-/

namespace BitPattern

namespace Value

/-- An operation on two integers. -/
def arith (f : Int → Int → Int) (v w : Value) : Except Fault Value := do
  let a ← v.toInt
  let b ← w.toInt
  pure (int (f a b))

/-- A division of two integers, the second of which is not zero. -/
def divide (f : Int → Int → Int) (v w : Value) : Except Fault Value := do
  let a ← v.toInt
  let b ← w.toInt
  if b = 0 then .error .zeroDivision else pure (int (f a b))

/-- A shift of an integer by a count that is not negative. -/
def shift (f : Int → Nat → Int) (v w : Value) : Except Fault Value := do
  let a ← v.toInt
  let b ← w.toInt
  if b < 0 then .error .value else pure (int (f a b.toNat))

/-- A bitwise operation, which has a truth value for two of them. -/
def bitwise (f : Int → Int → Int) (v w : Value) : Except Fault Value := do
  let a ← v.toInt
  let b ← w.toInt
  match v, w with
  | bool _, bool _ => pure (bool (f a b != 0))
  | _, _ => pure (int (f a b))

/-- The types that a value is a union of. -/
def unionTypes? : Value → Option (List (Option Builtin))
  | none => some [Option.none]
  | builtin .int => some [some .int]
  | builtin .bool => some [some .bool]
  | builtin .bytes => some [some .bytes]
  | union types => some types
  | _ => Option.none

/-- A union of types, which is a type if it holds only one. -/
def ofTypes (types : List (Option Builtin)) : Except Fault Value :=
  match types.eraseDups with
  | [some type] => .ok (builtin type)
  | [] | [Option.none] => .error .type
  | types => .ok (union types)

/-- The entries of two dictionaries together.  A key of both keeps its place among the first and has
its value from the second. -/
def mergeEntries (xs ys : List (String × Value)) : List (String × Value) :=
  xs.map (fun entry => (entry.1, (ys.lookup entry.1).getD entry.2)) ++
    ys.filter fun entry => (xs.lookup entry.1).isNone

/-- The bits of two integers together, or two dictionaries together. -/
def merge : Value → Value → Except Fault Value
  | dict xs, dict ys => .ok (dict (mergeEntries xs ys))
  | v, w => bitwise Integer.bitOr v w

/-- The bits of two integers together, two dictionaries together, or the union of two types. -/
def either (v w : Value) : Except Fault Value :=
  match v.unionTypes?, w.unionTypes? with
  | some types, some others => ofTypes (types ++ others)
  | _, _ => merge v w

/-- A sum of numbers, or two sequences of one type joined. -/
def add : Value → Value → Except Fault Value
  | text s, text t => .ok (text (s ++ t))
  | bytes .view _, _ => .error .type
  | bytes kind a, bytes _ b => .ok (bytes kind (a ++ b))
  | bits a, bits b => .ok (bits (a.append b))
  | tuple xs, tuple ys => .ok (tuple (xs ++ ys))
  | list xs, list ys => .ok (list (xs ++ ys))
  | v, w => arith (· + ·) v w

/-- The items of a list so many times over. -/
def repeatList {α : Type} (xs : List α) (count : Int) : List α :=
  (List.replicate count.toNat xs).flatten

/-- A list so many times over, if it is not too long then. -/
def repeatChecked {α : Type} (xs : List α) (count : Int) (beyond : Fault) :
    Except Fault (List α) := do
  let count ← toIndex count
  checkSize (xs.length * count) beyond
  pure (repeatList xs count)

/-- A sequence so many times over. -/
def repeated (count : Int) : Value → Except Fault Value
  | text s => do
    pure (text (String.ofList (← repeatChecked s.toList count .overflow)))
  | bytes .constant b => do pure (bytes .constant (← repeatChecked b count .overflow))
  | bytes .mutable b => do pure (bytes .mutable (← repeatChecked b count .memory))
  | tuple xs => do pure (tuple (← repeatChecked xs count .memory))
  | list xs => do pure (list (← repeatChecked xs count .memory))
  | _ => .error .type

/-- A product of numbers, or a sequence repeated. -/
def mul (v w : Value) : Except Fault Value :=
  match v.int?, w.int? with
  | some a, some b => .ok (int (a * b))
  | some a, Option.none => repeated a w
  | Option.none, some b => repeated b v
  | Option.none, Option.none => .error .type

/-- A comparison by the order of two values. -/
def compareBy (admits : Ordering → Bool) (v w : Value) : Except Fault Value :=
  match compare? v w with
  | some order => .ok (bool (admits order))
  | Option.none => .error .type

end Value

/-- The value of an operator between two values.  The values of `or` and `and` are those that they
have when both operands are known. -/
def BinOp.apply : BinOp → Value → Value → Except Fault Value
  | or, v, w => .ok (if v.truth then v else w)
  | and, v, w => .ok (if v.truth then w else v)
  | eq, v, w => .ok (.bool (v.same w))
  | ne, v, w => .ok (.bool (!v.same w))
  | lt, v, w => Value.compareBy (· == .lt) v w
  | le, v, w => Value.compareBy (· != .gt) v w
  | gt, v, w => Value.compareBy (· == .gt) v w
  | ge, v, w => Value.compareBy (· != .lt) v w
  | bitOr, v, w => Value.either v w
  | bitXor, v, w => Value.bitwise Integer.bitXor v w
  | bitAnd, v, w => Value.bitwise Integer.bitAnd v w
  | shiftLeft, v, w => Value.shift Integer.shiftLeft v w
  | logicalShiftRight, v, w => Value.shift Integer.logicalShiftRight v w
  | shiftRight, v, w => Value.shift Integer.shiftRight v w
  | add, v, w => Value.add v w
  | sub, v, w => Value.arith (· - ·) v w
  | mul, v, w => Value.mul v w
  | div, v, w => Value.divide Integer.quotient v w
  | mod, v, w => Value.divide Integer.remainder v w

/-- The value of an operator before a value. -/
def UnOp.apply : UnOp → Value → Except Fault Value
  | neg, v => do pure (.int (-(← v.toInt)))
  | complement, v => do pure (.int (Integer.complement (← v.toInt)))
  | not, v => .ok (.bool (!v.truth))

end BitPattern
