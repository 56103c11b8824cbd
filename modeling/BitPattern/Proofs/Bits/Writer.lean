import BitPattern.Bits.Writer
import BitPattern.Proofs.Bits.Integer
import BitPattern.Proofs.Bits.Window

/-!
# What a writer has written

A writer stands for a bit string (`Writer.bits`), and every step that succeeds appends one to it: a
number in a width (`bits_push`), an integer in the order of its bytes (`bits_appendInt`), bytes
(`bits_appendBytes`) or the bits of a bitstring (`bits_appendBitstring`).  The bitstring that is
built holds exactly the bits that were written (`build_bits`), so bitstrings follow one another by
concatenation (`Bitstring.append_bits`).
-/

namespace BitPattern

open Bits

namespace Writer

/-- The bits written so far. -/
def bits (w : Writer) : List Bool :=
  ofNat w.length w.value

@[simp] lemma length_bits (w : Writer) : w.bits.length = w.length := by
  simp [bits]

@[simp] lemma bits_empty : empty.bits = [] := rfl

lemma value_push (w : Writer) {raw width : Nat} (h : raw < bound width) :
    (w.push raw width).value = w.value * bound width + raw := by
  rw [push, ← Nat.shiftLeft_add_eq_or_of_lt h, Nat.shiftLeft_eq, bound_eq]

/-- A number that fits a width is appended in it. -/
lemma bits_push (w : Writer) {raw width : Nat} (h : raw < bound width) :
    (w.push raw width).bits = w.bits ++ ofNat width raw := by
  rw [bits, bits, ofNat_append _ _ _ _ h, value_push w h]
  rfl

/-- A writer that holds no more than its bits holds no more after a number that fits its width. -/
lemma push_lt {w : Writer} (hw : w.value < bound w.length) {raw width : Nat}
    (h : raw < bound width) : (w.push raw width).value < bound (w.push raw width).length := by
  rw [value_push w h, push, bound_add]
  have := Nat.mul_le_mul_right (bound width) (Nat.succ_le_of_lt hw)
  rw [Nat.succ_mul] at this
  omega

/-- An integer is appended as the number that encodes it. -/
lemma bits_appendInt {w : Writer} {v width : Scalar} {signed : Bool} {order : ByteOrder}
    {raw : Nat} (h : encode v width signed (.ok order) = .ok raw) :
    ∃ w', w.appendInt v width signed (.ok order) = .ok w' ∧
      w'.bits = w.bits ++ ofNat width.toNat raw := by
  refine ⟨w.push raw width.toNat, ?_, w.bits_push (lt_of_encode h)⟩
  rw [appendInt, h]
  rfl

lemma bits_appendBytes (w : Writer) (data : Bytes) :
    (w.appendBytes data).bits = w.bits ++ ofBytes data := by
  have hlen : data.length * 8 = (ofBytes data).length := (length_ofBytes data).symm
  have hlt : bytesValue data < bound (data.length * 8) := by
    rw [bytesValue_eq_value, hlen]
    exact value_lt _
  rw [appendBytes, bits_push w hlt, bytesValue_eq_value, hlen, ofNat_value]

lemma bits_appendBitstring (w : Writer) (b : Bitstring) :
    (w.appendBitstring b).bits = w.bits ++ b.bits := by
  have hlt : b.value < bound b.length := read_lt
  rw [appendBitstring, bits_push w hlt, b.value_eq, ← b.length_bits, ofNat_value]

/-- **Building.** The bitstring that is built holds the bits that were written. -/
lemma build_bits (w : Writer) : w.build.bits = w.bits := by
  have hle : w.length ≤ (w.length + 7) / 8 * 8 := by omega
  rw [Bitstring.bits_eq_window, window]
  show (ofBytes (bytesOf _ _)).take w.length = w.bits
  rw [ofBytes_bytesOf_shiftLeft hle, List.take_left' (length_ofNat _ _), bits]

end Writer

/-- One bitstring followed by another holds the bits of both. -/
lemma Bitstring.append_bits (a b : Bitstring) : (a.append b).bits = a.bits ++ b.bits := by
  rw [Bitstring.append, Writer.build_bits, Writer.bits_appendBitstring,
    Writer.bits_appendBitstring, Writer.bits_empty, List.nil_append]

end BitPattern
