import BitPattern.Bits.Bitstring
import BitPattern.Text.Blank

/-!
# Writers

A writer holds the bits written so far, as a number and their count.  Each step appends bits or
leaves the writer as it is; the bitstring that is built holds all of them in order.
-/

namespace BitPattern

open BitPattern.Text

/-- The bits written so far, the first one being most significant. -/
structure Writer where
  value : Nat := 0
  length : Nat := 0
  deriving DecidableEq, Repr

namespace Writer

/-- Nothing is written. -/
def empty : Writer := {}

/-- Appends the bits of a number in a width. -/
def push (w : Writer) (raw width : Nat) : Writer :=
  ⟨w.value <<< width ||| raw, w.length + width⟩

/-- Appends an integer. -/
def appendInt (w : Writer) (value width : Scalar) (signed : Bool)
    (order : Except Fault ByteOrder) : Except Fault Writer := do
  let raw ← Bits.encode value width signed order
  pure (w.push raw width.toNat)

/-- Appends bytes. -/
def appendBytes (w : Writer) (data : Bytes) : Writer :=
  w.push (Bits.bytesValue data) (data.length * 8)

/-- The binary digits of a text: blank characters and underscores are passed over. -/
def binaryDigits (text : String) : List Char :=
  text.toList.filter fun c => !isBlank c && c != '_'

/-- Appends bits that are written as binary digits. -/
def appendBits (w : Writer) (text : String) : Except Fault Writer :=
  let digits := binaryDigits text
  if digits.all fun c => c == '0' || c == '1' then
    .ok (w.push (Bits.value (digits.map (· == '1'))) digits.length)
  else .error (.notBits (quoted text))

/-- Appends the bits of a bitstring. -/
def appendBitstring (w : Writer) (b : Bitstring) : Writer :=
  w.push b.value b.length

/-- Appends zeros. -/
def skip (w : Writer) (width : Scalar) : Except Fault Writer :=
  if width.toInt < 0 then .error .value else .ok (w.push 0 width.toNat)

/-- The bitstring of all that is written. -/
def build (w : Writer) : Bitstring :=
  let count := (w.length + 7) / 8
  .front (Bits.bytesOf count (w.value <<< (count * 8 - w.length))) w.length
    (by rw [Bits.length_bytesOf]; omega)

end Writer

/-- The bitstring that binary digits write. -/
def Bitstring.ofText (text : String) : Except Fault Bitstring :=
  Writer.build <$> Writer.empty.appendBits text

/-- One bitstring followed by another. -/
def Bitstring.append (a b : Bitstring) : Bitstring :=
  ((Writer.empty.appendBitstring a).appendBitstring b).build

end BitPattern
