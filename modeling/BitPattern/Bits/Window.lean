import BitPattern.Bits.Order
import BitPattern.Fault

/-!
# Windows of a buffer

Integers and bytes are read from and written to any range of bits of a buffer.  A window is given by
the offset of its first bit and by its width; one that leaves the buffer is a fault.  Reading takes
the bytes that the window touches as one number and cuts the window out of it.
-/

namespace BitPattern.Bits

/-- The bytes that a window touches, as a number. -/
def touched (data : Bytes) (offset width : Nat) : Nat :=
  bytesValue ((data.take ((offset + width + 7) / 8)).drop (offset / 8))

/-- The number of bits between the end of a window and the end of the bytes that it touches. -/
def slack (offset width : Nat) : Nat :=
  (offset + width + 7) / 8 * 8 - (offset + width)

/-- The bits of a window as a number, the first one being most significant. -/
def read (data : Bytes) (offset width : Nat) : Nat :=
  (touched data offset width >>> slack offset width) % bound width

/-- Refuses a window that leaves the buffer. -/
def checkWindow (data : Bytes) (offset : Scalar) (width : Int) : Except Fault Unit :=
  let size : Int := (data.length * 8 : Nat)
  let stop := offset.toInt + width
  if offset.toInt < 0 || width < 0 || size < stop then .error (.outside offset stop size .buffer)
  else .ok ()

/-- The integer that a number of a width stands for if the first bit is a sign. -/
def withSign (signed : Bool) (width n : Nat) : Int :=
  if signed && 0 < width && n >>> (width - 1) != 0 then (n : Int) - bound width else n

/-- Reads an integer.  The byte order is asked for after the window has been found to fit. -/
def getInt (data : Bytes) (offset width : Scalar) (signed : Bool)
    (order : Except Fault ByteOrder) : Except Fault Int := do
  checkWindow data offset width.toInt
  let raw := read data offset.toNat width.toNat
  let order ← order
  pure (withSign signed width.toNat (order.ofStream width.toNat raw))

/-- The smallest integer of a width. -/
def lowest (signed : Bool) (width : Nat) : Int :=
  if signed then -bound (width - 1) else 0

/-- The largest integer of a width. -/
def highest (signed : Bool) (width : Nat) : Int :=
  if signed then bound (width - 1) - 1 else bound width - 1

/-- The bits in stream order, as a number, that denote an integer of a width. -/
def encode (value width : Scalar) (signed : Bool) (order : Except Fault ByteOrder) :
    Except Fault Nat :=
  if width.toInt ≤ 0 then .error (.width width)
  else
    let size := width.toNat
    if value.toInt < lowest signed size || highest signed size < value.toInt then
      .error (.unfit value width signed)
    else do
      let order ← order
      pure (order.toStream size (value.toInt % bound size).toNat)

/-- Replaces the bits of a window. -/
def write (data : Bytes) (offset width raw : Nat) : Bytes :=
  let first := offset / 8
  let last := (offset + width + 7) / 8
  let kept := touched data offset width
  let low := slack offset width
  let above := kept >>> (low + width) <<< (low + width)
  data.take first ++ bytesOf (last - first) (above + raw * bound low + kept % bound low)
    ++ data.drop last

/-- Writes an integer, so that reading it back gives the same one. -/
def setInt (data : Bytes) (offset width value : Scalar) (signed : Bool)
    (order : Except Fault ByteOrder) : Except Fault Bytes := do
  checkWindow data offset width.toInt
  let raw ← encode value width signed order
  pure (write data offset.toNat width.toNat raw)

/-- Reads whole bytes.  At an offset of whole bytes they are copied, and elsewhere shifted. -/
def getBytes (data : Bytes) (offset count : Scalar) : Except Fault Bytes := do
  checkWindow data offset (count.toInt * 8)
  let offset := offset.toNat
  let count := count.toNat
  pure (if offset % 8 = 0 then (data.drop (offset / 8)).take count
    else bytesOf count (read data offset (count * 8)))

end BitPattern.Bits
