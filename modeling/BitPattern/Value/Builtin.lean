import BitPattern.Text.Encoding
import BitPattern.Text.Numeral
import BitPattern.Value.Order

/-!
# The functions of expressions

Length, absolute value, least and greatest value, and the conversions to integers, truth values and
byte strings.  The environment of every expression also names the byte orders.
-/

namespace BitPattern

open BitPattern.Text

namespace Value

/-! ## Conversions -/

/-- The integer that a numeral in a text or byte string denotes in a radix. -/
def numeral? (radix : Nat) : Value → Option (Option Int)
  | text s => some (integer? radix s)
  | bytes _ b => some (asciiInteger? radix (b.map latinChar))
  | _ => Option.none

/-- The integer that a value is or that its numeral denotes. -/
def convertInt (v : Value) : Except Fault Value :=
  match v.int? with
  | some n => .ok (int n)
  | Option.none =>
    match numeral? 10 v with
    | some (some n) => .ok (int n)
    | some Option.none => .error .value
    | Option.none => .error .type

/-- The integer that the numeral in a value denotes in a radix from 2 to 36, or in the radix that
the numeral itself names if zero is given. -/
def numeralIn (radix : Int) (v : Value) : Except Fault Value :=
  if radix ≠ 0 ∧ radix < 2 ∨ 36 < radix then .error .value
  else match v with
  | bytes .view _ => .error .type
  | _ =>
    match numeral? radix.toNat v with
    | some (some n) => .ok (int n)
    | some Option.none => .error .value
    | Option.none => .error .type

/-- The integer that the numeral in a value denotes in a given radix. -/
def convertRadix (v radix : Value) : Except Fault Value := do
  numeralIn (← radix.toInt) v

/-- The byte that a value is. -/
def toByte (v : Value) : Except Fault UInt8 := do
  let n ← v.toInt
  if 0 ≤ n && n ≤ 255 then pure (UInt8.ofNat n.toNat) else throw .value

/-- The bytes that a value stands for: so many zeros for a number, the contents of a byte string,
and the members of any other sequence but a text. -/
def toBytes (v : Value) : Except Fault Bytes :=
  match v with
  | text _ => .error .type
  | bytes _ b => .ok b
  | _ =>
    match v.int? with
    | some n => do
      let n ← toIndex n
      if n < 0 then throw .value
      checkSize n .overflow
      pure (List.replicate n.toNat 0)
    | Option.none =>
      match v.items? with
      | some items => items.mapM toByte
      | Option.none => .error .type

/-- The bytes of a text in an encoding.  A substitution is asked for only if some character has no
form, so until then its name does not matter. -/
def encodeText (text encoding substitution : String) : Except Fault Bytes :=
  match Encoding.ofName? encoding with
  | Option.none => .error .unknownName
  | some encoding =>
    match encoding.encode? .refuse text, Substitution.ofName? substitution with
    | some b, _ => .ok b
    | Option.none, Option.none => .error .unknownName
    | Option.none, some substitution =>
      match encoding.encode? substitution text with
      | some b => .ok b
      | Option.none => .error .unencodable

/-- The text that names something, in which no character is NUL. -/
def toName : Value → Except Fault String
  | text s => if s.toList.contains (Char.ofNat 0) then .error .value else .ok s
  | _ => .error .type

/-- The bytes of a text in an encoding that is named, with a substitution that may be. -/
def convertText (v encoding substitution : Value) : Except Fault Value := do
  let encoding ← encoding.toName
  let substitution ← substitution.toName
  match v with
  | text s => ofBytes <$> encodeText s encoding substitution
  | _ => throw .type

/-! ## Length and extremes -/

/-- The number of members of a value. -/
def size? : Value → Option Nat
  | text s => some s.length
  | bytes _ b => some b.length
  | bits b => some b.length
  | tuple items | list items => some items.length
  | dict entries => some entries.length
  | _ => Option.none

/-- The first of the values that no other one is better than, looking on from the best so far. -/
def bestFrom (better : Value → Value → Except Fault Bool) (best : Value) :
    List Value → Except Fault Value
  | [] => .ok best
  | v :: rest => do bestFrom better (if ← better v best then v else best) rest

/-- The first of the values that no other one is better than. -/
def best (better : Value → Value → Except Fault Bool) : List Value → Except Fault Value
  | [] => .error .value
  | v :: rest => bestFrom better v rest

/-- The best of several arguments, or of the members of a single one. -/
def extreme (better : Value → Value → Except Fault Bool) : List Value → Except Fault Value
  | [] => .error .type
  | [v] =>
    match v.items? with
    | some items => best better items
    | Option.none => .error .type
  | args => best better args

end Value

/-! ## Calls -/

/-- The value of a function for its arguments. -/
def Builtin.apply : Builtin → List Value → Except Fault Value
  | len, [v] =>
    match v.size? with
    | some n => .ok (.int n)
    | none => .error .type
  | abs, [v] => do pure (.int (← v.toInt).natAbs)
  | min, args => Value.extreme Value.less args
  | max, args => Value.extreme (fun v best => Value.less best v) args
  | int, [] => .ok (.int 0)
  | int, [v] => v.convertInt
  | int, [v, radix] => v.convertRadix radix
  | bool, [] => .ok (.bool false)
  | bool, [v] => .ok (.bool v.truth)
  | bytes, [] => .ok (.ofBytes [])
  | bytes, [v] => Value.ofBytes <$> v.toBytes
  | bytes, [v, encoding] => v.convertText encoding (.text "strict")
  | bytes, [v, encoding, substitution] => v.convertText encoding substitution
  | _, _ => .error .type

/-- The names that every expression may use without binding them. -/
def expressionNames : List (String × Value) := [
  ("len", .builtin .len),
  ("abs", .builtin .abs),
  ("min", .builtin .min),
  ("max", .builtin .max),
  ("int", .builtin .int),
  ("bool", .builtin .bool),
  ("bytes", .builtin .bytes),
  ("LittleEndian", .endian .little),
  ("BigEndian", .endian .big),
  ("NativeEndian", .endian .native)]

end BitPattern
