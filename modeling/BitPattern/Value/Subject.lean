import BitPattern.Value.Builtin
import BitPattern.Value.Display

/-!
# Values as byte orders and bitstrings

A byte order is given as a member of the enumeration or by its name.  An expression may also give
the name as a byte string, and says `native` for the order that the configuration sets.

The subject of a match is a bitstring, a byte string of any kind, or a triple of bytes, offset and
length.
-/

namespace BitPattern

open BitPattern.Text

/-! ## Byte orders -/

/-- The byte order that a name means, or the fault that shows it. -/
def ByteOrder.ofName (s : String) : Except Fault ByteOrder :=
  match ByteOrder.ofName? s with
  | some order => .ok order
  | none => .error (.unknownOrder (Text.quoted s))

namespace Value

/-- The byte order that a caller's value means. -/
def toByteOrder (v : Value) : Except Fault ByteOrder :=
  match v with
  | endian e => ByteOrder.ofName e.name
  | text s => ByteOrder.ofName s
  | _ => do throw (.unknownOrder (← v.display))

/-- The text of bytes of which those beyond ASCII are unreadable. -/
def asciiText (b : Bytes) : String :=
  String.ofList (b.map fun byte => if byte < 0x80 then Text.latinChar byte else Char.ofNat 0xFFFD)

/-- The byte order that a name in a description means. -/
def namedEndian (s : String) : Except Fault Endian :=
  match Endian.ofName? s with
  | some e => .ok e
  | Option.none => .error (.noOrder (Text.quoted s))

/-- The byte order that a computed value means. -/
def toEndian (v : Value) : Except Fault Endian :=
  match v with
  | endian e => .ok e
  | text s => namedEndian s
  | bytes .constant b => namedEndian (asciiText b)
  | _ => do throw (.noOrder (← v.display))

end Value

/-! ## Bitstrings -/

/-- A view of the bytes that a value stands for. -/
def Bitstring.ofValues (data offset length : Value) : Except Fault Bitstring := do
  let data ← data.toBytes
  let offset ← offset.toScalar
  let length ← length.toScalar
  Bitstring.view data offset length

/-- Appends the bits that a value writes as binary digits.  A byte string writes none, so it has to
be blank. -/
def Writer.appendDigits (w : Writer) (v : Value) : Except Fault Writer :=
  match v with
  | .text s => w.appendBits s
  | .bytes .view _ => .error .noAttribute
  | .bytes _ b => if b.all fun byte => isAsciiWhite (latinChar byte) then .ok w else .error .type
  | _ => .error .noAttribute

/-- The bits that a subject consists of. -/
def Value.subject (v : Value) : Except Fault Bitstring :=
  match v with
  | bits b => .ok b
  | bytes _ b => .ok (.ofBytes b)
  | tuple [data, offset, length] => Bitstring.ofValues data offset length
  | _ => .error (.noSubject v.typeName)

end BitPattern
