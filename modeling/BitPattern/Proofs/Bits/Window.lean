import BitPattern.Bits.Bitstring
import BitPattern.Proofs.Bits.Number

/-!
# Windows as bit strings

`Bits.window` is a range of the bits of a buffer, and everything that is read from a buffer is a
function of it.  The main result is `read_eq_value`: the bytes that a window touches, shifted and
cut to its width, are the number of the window, at every alignment.  From it come the readings of
integers (`getInt_eq`) and of bytes (`getBytes_eq`), whose aligned and unaligned paths agree, and
the views (`view_eq`).  A bitstring is a window by definition (`Bitstring.bits_eq_window`), so its
number and its single bits are those of its bits.
-/

namespace BitPattern

namespace Bits

/-- The bits of a buffer from an offset on, as many as the width says. -/
def window (data : Bytes) (offset width : Nat) : List Bool :=
  ((ofBytes data).drop offset).take width

lemma length_window {data : Bytes} {offset width : Nat}
    (h : offset + width ≤ data.length * 8) : (window data offset width).length = width := by
  simp [window]
  omega

lemma ofNat_window {data : Bytes} {offset width : Nat} (h : offset + width ≤ data.length * 8) :
    ofNat width (value (window data offset width)) = window data offset width := by
  have hlen := length_window h
  calc
    ofNat width (value (window data offset width)) =
        ofNat (window data offset width).length (value (window data offset width)) := by rw [hlen]
    _ = window data offset width := ofNat_value _

/-! ## Reading a number -/

/-- The bits of the bytes that a window touches: some before it, the window, and its slack. -/
lemma ofBytes_touched {data : Bytes} {offset width : Nat} (h : offset + width ≤ data.length * 8) :
    ∃ front back : List Bool,
      ofBytes ((data.take ((offset + width + 7) / 8)).drop (offset / 8)) =
        front ++ window data offset width ++ back ∧ back.length = slack offset width := by
  set stop := (offset + width + 7) / 8 with hstop
  set start := offset / 8 with hstart
  set bits := ofBytes data with hbits
  have hlen : bits.length = data.length * 8 := length_ofBytes data
  refine ⟨(bits.drop (start * 8)).take (offset - start * 8),
    (bits.drop (offset + width)).take (stop * 8 - (offset + width)), ?_, ?_⟩
  · rw [ofBytes_drop, ofBytes_take, ← hbits, List.drop_take]
    have hsplit : stop * 8 - start * 8 =
        (offset - start * 8) + (width + (stop * 8 - (offset + width))) := by omega
    rw [hsplit, List.take_add, List.take_add, List.drop_drop, List.drop_drop, List.append_assoc]
    have hoffset : start * 8 + (offset - start * 8) = offset := by omega
    rw [hoffset]
    rfl
  · rw [List.length_take, List.length_drop, hlen, slack]
    omega

/-- **Reading.** At every alignment the number that is read is that of the bits of the window. -/
lemma read_eq_value {data : Bytes} {offset width : Nat} (h : offset + width ≤ data.length * 8) :
    read data offset width = value (window data offset width) := by
  obtain ⟨front, back, hbits, hback⟩ := ofBytes_touched h
  rw [read, touched, bytesValue_eq_value, hbits, ← hback, value_shiftRight]
  have hwidth : bound width = bound (window data offset width).length := by
    rw [length_window h]
  rw [hwidth, value_mod]

lemma read_lt {data : Bytes} {offset width : Nat} : read data offset width < bound width :=
  Nat.mod_lt _ (bound_pos width)

/-! ## Windows that fit -/

/-- A window inside a buffer, as the checks see it. -/
structure Fits (data : Bytes) (offset width : Int) : Prop where
  offset_nonneg : 0 ≤ offset
  width_nonneg : 0 ≤ width
  stop_le : offset + width ≤ (data.length * 8 : Nat)

lemma Fits.toNat_le {data : Bytes} {offset width : Int} (h : Fits data offset width) :
    offset.toNat + width.toNat ≤ data.length * 8 := by
  obtain ⟨h0, h1, h2⟩ := h
  omega

lemma not_fits_iff {data : Bytes} {offset width : Int} :
    ¬Fits data offset width ↔
      offset < 0 ∨ width < 0 ∨ (data.length * 8 : Nat) < offset + width := by
  constructor
  · intro h
    by_contra hin
    exact h ⟨by omega, by omega, by omega⟩
  · rintro h ⟨hoffset, hwidth, hstop⟩
    omega

/-- The check of a window passes exactly if the window fits. -/
lemma checkWindow_eq_ok {data : Bytes} {offset : Scalar} {width : Int} :
    checkWindow data offset width = .ok () ↔ Fits data offset.toInt width := by
  unfold checkWindow
  simp only [Bool.or_eq_true, decide_eq_true_eq]
  split
  · rename_i h
    constructor
    · intro h'
      cases h'
    · rintro ⟨h0, h1, h2⟩
      omega
  · rename_i h
    refine ⟨fun _ => ⟨by omega, by omega, by omega⟩, fun _ => rfl⟩

/-- The fault of a window that does not fit shows its ends and the size of the buffer. -/
lemma checkWindow_of_not_fits {data : Bytes} {offset : Scalar} {width : Int}
    (h : ¬Fits data offset.toInt width) :
    checkWindow data offset width =
      .error (.outside offset (offset.toInt + width) ((data.length * 8 : Nat) : Int) .buffer) := by
  have hout := not_fits_iff.mp h
  unfold checkWindow
  simp only [Bool.or_eq_true, decide_eq_true_eq]
  exact if_pos (by omega)

/-- The integer that the bits of a window stand for. -/
def decode (signed : Bool) (order : ByteOrder) (bits : List Bool) : Int :=
  withSign signed bits.length (order.ofStream bits.length (value bits))

/-- An integer is read from the bits of its window alone. -/
lemma getInt_eq {data : Bytes} {offset width : Scalar} (signed : Bool) (order : ByteOrder)
    (h : Fits data offset.toInt width.toInt) :
    getInt data offset width signed (.ok order) =
      .ok (decode signed order (window data offset.toNat width.toNat)) := by
  have hlen := length_window h.toNat_le
  unfold getInt
  rw [checkWindow_eq_ok.mpr h, decode, Scalar.toNat, Scalar.toNat, hlen, read_eq_value h.toNat_le]
  rfl

/-- Whole bytes are read from the bits of their window alone, whether they are copied or shifted. -/
lemma getBytes_eq {data : Bytes} {offset count : Scalar}
    (h : Fits data offset.toInt (count.toInt * 8)) :
    getBytes data offset count =
      .ok (bytesOf count.toNat (value (window data offset.toNat (count.toNat * 8)))) := by
  have hle : offset.toNat + count.toNat * 8 ≤ data.length * 8 := by
    have := h.toNat_le
    simp only [Scalar.toNat]
    omega
  unfold getBytes
  rw [checkWindow_eq_ok.mpr h]
  simp only [bind, Except.bind, pure, Except.pure]
  congr 1
  split
  · rename_i haligned
    refine ofBytes_injective ?_
    have hoffset : offset.toNat / 8 * 8 = offset.toNat := by omega
    rw [ofBytes_take, ofBytes_drop, hoffset, ofBytes_bytesOf, ofNat_window hle]
    rfl
  · rw [read_eq_value hle]

end Bits

/-! ## Views -/

namespace Bitstring

open Bits

lemma bits_eq_window (b : Bitstring) : b.bits = window b.data b.offset b.length := rfl

/-- A window inside the view of a bitstring is a window of its bits. -/
lemma window_eq (b : Bitstring) {offset width : Nat} (hlow : b.offset ≤ offset)
    (hhigh : offset + width ≤ b.offset + b.length) :
    window b.data offset width = (b.bits.drop (offset - b.offset)).take width := by
  rw [window, bits, List.drop_take, List.take_take, List.drop_drop]
  have hoffset : b.offset + (offset - b.offset) = offset := by omega
  have hwidth : min width (b.length - (offset - b.offset)) = width := by omega
  rw [hoffset, hwidth]

/-- The number of a bitstring is that of its bits. -/
lemma value_eq (b : Bitstring) : b.value = Bits.value b.bits := read_eq_value b.fits

/-- A view of a window that fits shows the bits of the window. -/
lemma view_eq {data : Bytes} {offset length : Scalar}
    (h : Fits data offset.toInt length.toInt) :
    ∃ b, view data offset length = .ok b ∧ b.data = data ∧ (b.offset : Int) = offset.toInt ∧
      (b.length : Int) = length.toInt ∧ b.bits = window data offset.toNat length.toNat := by
  have hle := h.toNat_le
  obtain ⟨h0, h1, h2⟩ := h
  have hrest : ¬length.toInt = -1 := by omega
  unfold view
  simp only [hrest, if_false]
  rw [dif_pos ⟨hle, h0, h1⟩]
  refine ⟨_, rfl, rfl, ?_, ?_, rfl⟩
  · simp only [Scalar.toNat]
    omega
  · simp only
    omega

lemma bits_injective {a b : Bitstring} (h : a.bits = b.bits) :
    a.length = b.length ∧ a.value = b.value := by
  refine ⟨?_, ?_⟩
  · rw [← a.length_bits, h, b.length_bits]
  · rw [value_eq, value_eq, h]

/-- Bitstrings are the same exactly if their bits are. -/
lemma same_iff {a b : Bitstring} : a.same b = true ↔ a.bits = b.bits := by
  simp only [same, Bool.and_eq_true, beq_iff_eq]
  constructor
  · rintro ⟨hlen, hvalue⟩
    refine value_injective (by simpa using hlen) ?_
    rw [← value_eq, ← value_eq, hvalue]
  · exact bits_injective

/-- The members of a bitstring are its bits. -/
lemma toList_eq (b : Bitstring) : b.toList = b.bits.map Bool.toNat := by
  refine List.ext_getElem (by simp [toList]) fun i h₁ h₂ => ?_
  have hi : i < b.length := by simpa [toList] using h₁
  have hfits := b.fits
  have hbit : window b.data (b.offset + i) 1 = [b.bits.get ⟨i, by simpa using hi⟩] := by
    rw [window, List.take_one_drop_eq_of_lt_length (by simp; omega)]
    simp [bits]
  simp only [toList, List.getElem_map, List.getElem_range]
  rw [read_eq_value (by omega), hbit]
  simp [Bits.value]

end Bitstring

end BitPattern
