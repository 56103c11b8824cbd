import BitPattern.Bits.Writer
import BitPattern.Field.Spec

/-!
# Values

The values that fields read, callers supply and expressions compute.  A truth value is also an
integer, and the three kinds of byte strings share their contents' meaning.
-/

namespace BitPattern

/-- The kinds of byte strings: constant ones, those that may be changed in place, and views. -/
inductive BytesKind where
  | constant | mutable | view
  deriving DecidableEq, Repr

/-- Puts changed contents into a byte string, which takes them if it is a mutable one. -/
def BytesKind.store (kind : BytesKind) (changed : Bytes) : Except Fault Bytes :=
  if kind == .mutable then .ok changed else .error .type

/-- The functions that every expression may call. -/
inductive Builtin where
  | len | abs | min | max | int | bool | bytes
  deriving DecidableEq, Repr

/-- The name of a function. -/
def Builtin.name : Builtin → String
  | len => "len"
  | abs => "abs"
  | min => "min"
  | max => "max"
  | int => "int"
  | bool => "bool"
  | bytes => "bytes"

/-- A value. -/
inductive Value where
  | none
  | int (n : Int)
  | bool (b : Bool)
  | text (s : String)
  | bytes (kind : BytesKind) (b : Bytes)
  | bits (b : Bitstring)
  | tuple (items : List Value)
  | list (items : List Value)
  | dict (entries : List (String × Value))
  | endian (e : Endian)
  | builtin (f : Builtin)
  /-- A union of types, each given by its conversion, and the type of `none` by nothing. -/
  | union (types : List (Option Builtin))
  /-- A function of the caller's, known by its name, that answers with its last argument. -/
  | probe (name : String)
  /-- The function of a compiled case. -/
  | arm (index : Int)

namespace Value

instance : Inhabited Value := ⟨.none⟩

/-- A constant byte string. -/
def ofBytes (b : Bytes) : Value := .bytes .constant b

/-- The integer that a value is. -/
def int? : Value → Option Int
  | int n => some n
  | bool b => some (if b then 1 else 0)
  | _ => Option.none

/-- The integer that a value is, or a fault of its type. -/
def toInt (v : Value) : Except Fault Int :=
  match v.int? with
  | some n => .ok n
  | Option.none => .error .type

/-- The largest index. -/
def maxIndex : Int := 0x7fffffffffffffff

/-- A number as an index, which has to fit a signed word. -/
def toIndex (n : Int) : Except Fault Int :=
  if -maxIndex ≤ n + 1 && n ≤ maxIndex then .ok n else .error .overflow

/-- The most members that a computed sequence can have. -/
def maxSize : Int := 0x400000000

/-- Refuses a size beyond the most that can be held; one beyond all indices has a fault of its
own. -/
def checkSize (size : Int) (beyond : Fault) : Except Fault Unit :=
  if maxIndex < size then .error beyond
  else if maxSize < size then .error .memory
  else .ok ()

/-- The integer that a value is as it is given, or a fault of its type. -/
def toScalar : Value → Except Fault Scalar
  | int n => .ok (.number n)
  | bool b => .ok (.truth b)
  | _ => .error .type

/-- Whether a value counts as true: numbers other than zero, and whatever is not empty. -/
def truth : Value → Bool
  | none => false
  | int n => n != 0
  | bool b => b
  | text s => !s.isEmpty
  | bytes _ b => !b.isEmpty
  | bits b => b.length != 0
  | tuple items | list items => !items.isEmpty
  | dict entries => !entries.isEmpty
  | endian _ | builtin _ | union _ | probe _ | arm _ => true

/-- The name of the type of a value. -/
def typeName : Value → String
  | none => "NoneType"
  | int _ => "int"
  | bool _ => "bool"
  | text _ => "str"
  | bytes .constant _ => "bytes"
  | bytes .mutable _ => "bytearray"
  | bytes .view _ => "memoryview"
  | bits _ => "Bitstring"
  | tuple _ => "tuple"
  | list _ => "list"
  | dict _ => "dict"
  | endian _ => "Endian"
  | builtin .int | builtin .bool | builtin .bytes => "type"
  | builtin _ => "builtin_function_or_method"
  | union _ => "UnionType"
  | probe _ | arm _ => "function"

/-- The members of a value that has any, in order. -/
def items? : Value → Option (List Value)
  | text s => some (s.toList.map fun c => text (String.singleton c))
  | bytes _ b => some (b.map fun byte => int byte.toNat)
  | bits b => some (b.toList.map fun (n : Nat) => int n)
  | tuple items | list items => some items
  | dict entries => some (entries.map fun entry => text entry.1)
  | _ => Option.none

end Value

end BitPattern
