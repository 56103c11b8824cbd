import BitPattern.Bits.Scalar
import BitPattern.Bits.Window

/-!
# Bitstrings

A bitstring is a view of a range of bits of a buffer, which always lies inside it.  Only the bits
in view tell two bitstrings apart.

An offset or a length that was given as a truth value is kept as one, and is one at most.  It makes
no difference to the bits, but a bitstring with the length `true` has no digits to write.
-/

namespace BitPattern

/-- A view of `length` bits of `data` from `offset` on. -/
structure Bitstring where
  data : Bytes
  offset : Nat
  length : Nat
  fits : offset + length ≤ data.length * 8
  /-- Whether the offset was given as a truth value. -/
  offsetIsTruth : Bool := false
  /-- Whether the length was given as a truth value. -/
  lengthIsTruth : Bool := false
  offset_le_one : offsetIsTruth = true → offset ≤ 1 := by simp
  length_le_one : lengthIsTruth = true → length ≤ 1 := by simp

namespace Bitstring

/-- Nothing. -/
def empty : Bitstring := { data := [], offset := 0, length := 0, fits := by simp }

/-- A whole buffer. -/
def ofBytes (data : Bytes) : Bitstring :=
  { data, offset := 0, length := data.length * 8, fits := by simp }

/-- The first bits of a buffer. -/
def front (data : Bytes) (length : Nat) (fits : length ≤ data.length * 8) : Bitstring :=
  { data, offset := 0, length, fits := by simpa using fits }

/-- A view of a buffer.  The length -1 stands for all that follows the offset. -/
def view (data : Bytes) (offset length : Scalar) : Except Fault Bitstring :=
  let size : Int := (data.length * 8 : Nat)
  let width := if length.toInt = -1 then size - offset.toInt else length.toInt
  if h : offset.toNat + width.toNat ≤ data.length * 8 ∧ 0 ≤ offset.toInt ∧ 0 ≤ width then
    .ok {
      data
      offset := offset.toNat
      length := width.toNat
      fits := h.1
      offsetIsTruth := offset.isTruth
      lengthIsTruth := length.isTruth
      offset_le_one := Scalar.toNat_le_one
      -- A truth value is 0 or 1, and neither is the length -1.
      length_le_one := fun htruth => by
        cases length with
        | number n => cases htruth
        | truth b => cases b <;> simp [width] }
  else .error (.outside offset (offset.toInt + width) size .buffer)

/-- The offset as it was given. -/
def givenOffset (b : Bitstring) : Scalar :=
  .ofNat b.offsetIsTruth b.offset

/-- The length as it was given. -/
def givenLength (b : Bitstring) : Scalar :=
  .ofNat b.lengthIsTruth b.length

/-- The bits in view. -/
def bits (b : Bitstring) : List Bool :=
  ((Bits.ofBytes b.data).drop b.offset).take b.length

@[simp] theorem length_bits (b : Bitstring) : b.bits.length = b.length := by
  have := b.fits
  simp [bits]
  omega

/-- The bits in view as a number. -/
def value (b : Bitstring) : Nat :=
  Bits.read b.data b.offset b.length

/-- The digits of the bits in view, if the length is a number or there are none. -/
def text (b : Bitstring) : Except Fault String :=
  if b.lengthIsTruth && b.length != 0 then .error .value
  else .ok (Bits.text (Bits.ofNat b.length b.value))

/-- The bits one by one. -/
def toList (b : Bitstring) : List Nat :=
  (List.range b.length).map fun i => Bits.read b.data (b.offset + i) 1

/-- The bits followed by zeros up to a whole number of bytes. -/
def toBytes (b : Bitstring) : Bytes :=
  let count := (b.length + 7) / 8
  Bits.bytesOf count (b.value <<< (count * 8 - b.length))

/-- Whether two bitstrings have the same bits in view. -/
def same (a b : Bitstring) : Bool :=
  a.length == b.length && a.value == b.value

/-- What is hashed of a bitstring: its length and the bits in view as a number. -/
def hashKey (b : Bitstring) : Nat × Nat :=
  (b.length, b.value)

/-- The offset in the buffer of a range of the view. -/
def locate (b : Bitstring) (offset : Scalar) (width : Int) : Except Fault Int :=
  let stop := offset.toInt + width
  if offset.toInt < 0 || width < 0 || (b.length : Int) < stop then
    .error (.outside offset stop b.givenLength .bitstring)
  else .ok (b.offset + offset.toInt)

/-- Reads an integer. -/
def getInt (b : Bitstring) (offset width : Scalar) (signed : Bool)
    (order : Except Fault ByteOrder) : Except Fault Int := do
  let start ← b.locate offset width.toInt
  Bits.getInt b.data start width signed order

/-- Reads whole bytes. -/
def getBytes (b : Bitstring) (offset count : Scalar) : Except Fault Bytes := do
  let start ← b.locate offset (count.toInt * 8)
  Bits.getBytes b.data start count

/-- A view of a range of the view. -/
def sub (b : Bitstring) (offset length : Scalar) : Except Fault Bitstring := do
  let start ← b.locate offset length.toInt
  view b.data start length

/-- The most bits that are displayed. -/
def displayLimit : Nat := 64

/-- A bitstring for display. -/
def display (b : Bitstring) : Except Fault String := do
  let digits ← b.text
  let shown :=
    if displayLimit < digits.length then
      String.ofList (digits.toList.take displayLimit) ++ "..."
    else digits
  pure ("Bitstring(" ++ Text.quoted shown ++ ", length=" ++ b.givenLength.display ++ ")")

end Bitstring

end BitPattern
