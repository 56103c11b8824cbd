import BitPattern.Proofs.Bits.History
import BitPattern.Proofs.Bits.Positional

/-!
# Whole bytes at any offset

Whole bytes are read from a buffer in two ways.  At an offset of whole bytes they are copied; at any
other offset the window is shifted into place as one number, and that number is written as bytes.
The second way could go wrong where the first cannot: the conversion `exactBytes` refuses a number
that needs more bytes than there are, and a number that starts with zeros would do with fewer.

`Octets` says what the bytes are that either way gives, by the integers of eight bits that they are
and by the bits of the window.  The main result is `getBytes_octets`: reading fails exactly if the
window leaves the buffer, and else gives these bytes.
-/

namespace BitPattern.Bits

open Writer (exactBytes exactBytes_of_lt)

variable {data bytes : Bytes} {offset count : ℕ}

/-- The bits of a byte are a window of the bytes that it stands among. -/
lemma window_getElem {i : ℕ} (h : i < bytes.length) : window bytes (8 * i) 8 = ofByte bytes[i] := by
  have hlength : (ofByte bytes[i]).length = 8 := length_ofByte _
  rw [window, Nat.mul_comm, ← ofBytes_drop, List.drop_eq_getElem_cons h, ofBytes_cons,
    List.take_left' hlength]

/-- A window inside a window. -/
lemma window_window {width start inner : ℕ} (h : start + inner ≤ width) :
    ((window data offset width).drop start).take inner = window data (offset + start) inner := by
  rw [window, window, List.drop_take, List.take_take, List.drop_drop,
    Nat.min_eq_left (by omega)]

/-- Eight bits without a sign are the integer that the byte of these bits is. -/
lemma getInt_of_window {start : ℕ} {byte : UInt8} (hle : start + 8 ≤ data.length * 8)
    (h : window data start 8 = ofByte byte) :
    getInt data (.number start) (.number 8) false (.ok .big) = .ok (byte.toNat : ℤ) := by
  have hfits : Fits data (start : ℤ) 8 := ⟨by omega, by omega, by omega⟩
  rw [@getInt_eq data (.number start) (.number 8) false .big hfits]
  simp only [Scalar.toNat, Scalar.toInt_number, Int.toNat_natCast]
  change Except.ok (decode false .big (window data start 8)) = _
  rw [h, decode, ByteOrder.ofStream, value_ofByte]
  rfl

/-- What so many whole bytes from an offset on are. -/
structure Octets (data : Bytes) (offset count : ℕ) (bytes : Bytes) : Prop where
  /-- There are as many as are asked for. -/
  length_eq : bytes.length = count
  /-- Each of them is the integer that is read from its eight bits. -/
  getInt_eq : ∀ (i : ℕ) (h : i < bytes.length),
    getInt data (.number (offset + 8 * i : ℕ)) (.number 8) false (.ok .big) =
      .ok (bytes[i].toNat : ℤ)
  /-- Together they have the bits of the window, whatever the buffer and the offset. -/
  ofBytes_eq : ofBytes bytes = window data offset (count * 8)
  /-- The number that is shifted into place is converted to them, at every offset. -/
  exactBytes_eq : exactBytes count (read data offset (count * 8)) = .ok bytes
  /-- At an offset of whole bytes they are a slice of the buffer. -/
  slice_eq : offset % 8 = 0 → (data.drop (offset / 8)).take count = bytes

/-- The bits of a window of whole bytes are those of the bytes that it is. -/
lemma octets_of_fits (h : offset + count * 8 ≤ data.length * 8) :
    Octets data offset count (bytesOf count (value (window data offset (count * 8)))) := by
  set bytes := bytesOf count (value (window data offset (count * 8))) with hbytes
  -- Everything follows from the bits of the bytes being those of the window.
  have hbits : ofBytes bytes = window data offset (count * 8) := by
    rw [hbytes, ofBytes_bytesOf, ofNat_window h]
  have hlength : bytes.length = count := length_bytesOf _ _
  refine ⟨hlength, ?_, hbits, ?_, ?_⟩
  · intro i hi
    refine getInt_of_window (by omega) ?_
    calc
      window data (offset + 8 * i) 8
          = ((window data offset (count * 8)).drop (8 * i)).take 8 :=
            (window_window (by omega)).symm
      _ = window bytes (8 * i) 8 := by rw [← hbits, window]
      _ = ofByte bytes[i] := window_getElem hi
  · have hlt := value_lt (window data offset (count * 8))
    rw [length_window h] at hlt
    rw [read_eq_value h, exactBytes_of_lt hlt]
  · intro haligned
    have hoffset : offset / 8 * 8 = offset := by omega
    refine ofBytes_injective ?_
    rw [hbits, ofBytes_take, ofBytes_drop, hoffset, window]

/-- **Whole bytes.**  Reading so many whole bytes fails exactly if the offset or the count is
negative or the last bit lies behind the buffer.  Otherwise it gives as many bytes as are asked for,
each of them the integer of its eight bits, and gives the same ones whether they are copied or
shifted into place: they depend on nothing but the bits that are read. -/
theorem getBytes_octets (data : Bytes) (offset count : Scalar) :
    (getBytes data offset count =
        .error (.outside offset (offset.toInt + count.toInt * 8) ((data.length * 8 : ℕ) : ℤ)
          .buffer) ↔
      offset.toInt < 0 ∨ count.toInt < 0 ∨
        (data.length * 8 : ℕ) < offset.toInt + 8 * count.toInt) ∧
    (0 ≤ offset.toInt → 0 ≤ count.toInt →
      offset.toInt + 8 * count.toInt ≤ (data.length * 8 : ℕ) →
        ∃ bytes, getBytes data offset count = .ok bytes ∧
          Octets data offset.toNat count.toNat bytes) := by
  have hread (h : Fits data offset.toInt (count.toInt * 8)) :
      ∃ bytes, getBytes data offset count = .ok bytes ∧
        Octets data offset.toNat count.toNat bytes := by
    have hle := h.toNat_le
    have hcount : (count.toInt * 8).toNat = count.toNat * 8 := by
      rw [Scalar.toNat]
      omega
    rw [hcount] at hle
    exact ⟨_, getBytes_eq h, octets_of_fits hle⟩
  refine ⟨⟨fun herror => ?_, fun hout => ?_⟩, fun hoffset hcount hstop => ?_⟩
  · by_contra hin
    obtain ⟨bytes, hok, -⟩ := hread ⟨by omega, by omega, by omega⟩
    cases hok.symm.trans herror
  · have hfits : ¬Fits data offset.toInt (count.toInt * 8) := not_fits_iff.mpr (by omega)
    rw [getBytes, checkWindow_of_not_fits hfits]
    rfl
  · exact hread ⟨hoffset, by omega, by omega⟩

/-- Two bytes from the fourth bit of a buffer on, the first of which starts with a zero. -/
theorem getBytes_octets_shifted :
    (0 : ℤ) ≤ (3 : ℤ) ∧ (0 : ℤ) ≤ (2 : ℤ) ∧ (3 : ℤ) + 8 * 2 ≤ (3 * 8 : ℕ) ∧
      ∃ bytes, getBytes [0x01, 0x34, 0x56] (.number 3) (.number 2) = .ok bytes ∧
        Octets [0x01, 0x34, 0x56] 3 2 bytes :=
  ⟨by decide, by decide, by decide,
    (getBytes_octets [0x01, 0x34, 0x56] (.number 3) (.number 2)).2 (by decide) (by decide)
      (by decide)⟩

example : getBytes [0x01, 0x34, 0x56] (.number 3) (.number 2) = .ok [0x09, 0xa2] := by
  decide

end BitPattern.Bits
