import BitPattern.Proofs.Bits.Integer
import Mathlib.Algebra.BigOperators.Ring.Finset

/-!
# Integers by the positions of their bits

Which integer a window of a buffer denotes can be said without a word on how it is read: each bit
has a weight, and the number is the sum of the weights of the bits that are set.  `bigEndian` gives
the first bit the largest weight.  `littleEndian` cuts the window into chunks of eight bits, the
last of which may be shorter, reads each of them with its first bit most significant, and gives
chunk `k` the weight `2 ^ (8 * k)`.  `positional` takes the number for two's complement of the width
if there is a sign.

The main result is `getInt_positional`: this is the integer that is read, from every window that
lies inside the buffer.  Both sums are cut where a window is cut: `bigEndian_succ` takes the last
bit off, and `littleEndian_add_eight` the first chunk, as `reverseChunks` does with the number that
it takes apart.
-/

namespace BitPattern

namespace ByteOrder

open Bits

/-! ## Chunks of a width -/

lemma chunks_add_eight (width : ℕ) : chunks (width + 8) = 8 :: chunks width := by
  have hdiv : (width + 8) / 8 = width / 8 + 1 := by omega
  have hmod : (width + 8) % 8 = width % 8 := by omega
  rw [chunks, chunks, hdiv, hmod, List.replicate_succ, List.cons_append]

lemma chunks_of_lt {width : ℕ} (hpos : 0 < width) (h : width < 8) : chunks width = [width] := by
  have hdiv : width / 8 = 0 := by omega
  have hmod : width % 8 = width := by omega
  rw [chunks, hdiv, hmod, if_neg hpos.ne', List.replicate_zero, List.nil_append]

/-- The first chunk of a bit string is read with its first bit most significant, and the chunks
behind it count from its weight on. -/
lemma reverseChunks_append {front back : List Bool} {rest : List ℕ} (h : back.length = total rest) :
    reverseChunks (front.length :: rest) (value (front ++ back)) =
      value front + bound front.length * reverseChunks rest (value back) := by
  have hrest : reverseChunks rest (value (front ++ back)) = reverseChunks rest (value back) := by
    rw [← reverseChunks_mod, ← h, value_mod]
  rw [reverseChunks, ← h, value_shiftRight, Nat.mod_eq_of_lt (value_lt front), hrest]

end ByteOrder

namespace Bits

variable {data : Bytes} {offset width : ℕ}

/-! ## Weights -/

/-- The bit at a position of a buffer, of which position zero is the most significant bit of the
first byte.  There are zeros behind the buffer. -/
def bitAt (data : Bytes) (i : ℕ) : ℕ :=
  ((data.getD (i / 8) 0).toNat.testBit (7 - i % 8)).toNat

/-- The number that a window denotes if its first bit is most significant. -/
def bigEndian (data : Bytes) (offset width : ℕ) : ℕ :=
  ∑ i ∈ Finset.range width, bitAt data (offset + i) * 2 ^ (width - 1 - i)

/-- The number that a window denotes if its first chunk of eight bits is least significant.  The
last chunk has the bits that are left. -/
def littleEndian (data : Bytes) (offset width : ℕ) : ℕ :=
  ∑ k ∈ Finset.range ((width + 7) / 8),
    bigEndian data (offset + 8 * k) (min 8 (width - 8 * k)) * 2 ^ (8 * k)

/-- The number that a window denotes in a byte order. -/
def magnitude (order : ByteOrder) (data : Bytes) (offset width : ℕ) : ℕ :=
  match order with
  | .big => bigEndian data offset width
  | .little => littleEndian data offset width

/-- The integer that a window denotes: the number, or what it is in two's complement. -/
def positional (signed : Bool) (data : Bytes) (offset width : ℕ) (order : ByteOrder) : ℤ :=
  if signed then (BitVec.ofNat width (magnitude order data offset width)).toInt
  else magnitude order data offset width

/-! ## Big endian -/

/-- The bits of a buffer are those at its positions. -/
lemma toNat_of_getElem? {i : ℕ} {b : Bool} (h : (ofBytes data)[i]? = some b) :
    b.toNat = bitAt data i := by
  induction data generalizing i with
  | nil => simp [ofBytes] at h
  | cons byte data ih =>
      rw [ofBytes_cons] at h
      by_cases hi : i < 8
      · have hdiv : i / 8 = 0 := by omega
        have hmod : i % 8 = i := by omega
        rw [List.getElem?_append_left (by simpa using hi)] at h
        simp only [ofByte, List.getElem?_map, List.getElem?_range hi, Option.map_some,
          Option.some.injEq] at h
        rw [bitAt, hdiv, hmod, List.getD_cons_zero, h]
      · have hdiv : i / 8 = (i - 8) / 8 + 1 := by omega
        have hmod : i % 8 = (i - 8) % 8 := by omega
        rw [List.getElem?_append_right (by simpa using hi), length_ofByte] at h
        rw [ih h, bitAt, bitAt, hdiv, hmod, List.getD_cons_succ]

/-- A window is one that is shorter by a bit, and the bit behind that one. -/
lemma window_succ (h : offset + width < data.length * 8) :
    ∃ b : Bool, window data offset (width + 1) = window data offset width ++ [b] ∧
      b.toNat = bitAt data (offset + width) := by
  have hlt : offset + width < (ofBytes data).length := by rwa [length_ofBytes]
  have hbit : (ofBytes data)[offset + width]? = some (ofBytes data)[offset + width] :=
    List.getElem?_eq_getElem hlt
  refine ⟨_, ?_, toNat_of_getElem? hbit⟩
  rw [window, window, List.take_add_one, List.getElem?_drop, hbit, Option.toList_some]

lemma bigEndian_succ (data : Bytes) (offset width : ℕ) :
    bigEndian data offset (width + 1) =
      bigEndian data offset width * 2 + bitAt data (offset + width) := by
  have hterm : ∀ i ∈ Finset.range width, bitAt data (offset + i) * 2 ^ (width + 1 - 1 - i) =
      bitAt data (offset + i) * 2 ^ (width - 1 - i) * 2 := by
    intro i hi
    have hexp : width + 1 - 1 - i = (width - 1 - i) + 1 := by
      have := Finset.mem_range.mp hi
      omega
    rw [hexp, pow_succ, mul_assoc]
  rw [bigEndian, Finset.sum_range_succ, Finset.sum_congr rfl hterm, ← Finset.sum_mul, ← bigEndian,
    Nat.add_sub_cancel, Nat.sub_self, pow_zero, mul_one]

/-- The number of the bits of a window is the sum of their weights. -/
lemma value_window (h : offset + width ≤ data.length * 8) :
    value (window data offset width) = bigEndian data offset width := by
  induction width with
  | zero => simp [window, bigEndian]
  | succ width ih =>
      obtain ⟨b, hwindow, hbit⟩ := @window_succ data offset width (by omega)
      rw [hwindow, value_append, ih (by omega), bigEndian_succ, ← hbit]
      simp [value, bound_eq]

/-! ## Little endian -/

lemma littleEndian_add_eight (data : Bytes) (offset width : ℕ) :
    littleEndian data offset (width + 8) =
      bigEndian data offset 8 + 2 ^ 8 * littleEndian data (offset + 8) width := by
  have hterm (k : ℕ) :
      bigEndian data (offset + 8 * (k + 1)) (min 8 (width + 8 - 8 * (k + 1))) * 2 ^ (8 * (k + 1)) =
        2 ^ 8 * (bigEndian data (offset + 8 + 8 * k) (min 8 (width - 8 * k)) * 2 ^ (8 * k)) := by
    have hoffset : offset + 8 * (k + 1) = offset + 8 + 8 * k := by ring
    have hwidth : width + 8 - 8 * (k + 1) = width - 8 * k := by omega
    rw [hoffset, hwidth]
    ring
  have hcount : (width + 8 + 7) / 8 = (width + 7) / 8 + 1 := by omega
  have hfirst : min 8 (width + 8) = 8 := by omega
  rw [littleEndian, hcount, Finset.sum_range_succ', Finset.sum_congr rfl fun k _ => hterm k,
    ← Finset.mul_sum, ← littleEndian, mul_zero, Nat.sub_zero, hfirst, add_zero, pow_zero, mul_one,
    add_comm]

/-- A window of a single chunk is read as in big endian. -/
lemma littleEndian_of_le (h : width ≤ 8) :
    littleEndian data offset width = bigEndian data offset width := by
  rcases Nat.eq_zero_or_pos width with rfl | hpos
  · simp [littleEndian, bigEndian]
  · have hcount : (width + 7) / 8 = 1 := by omega
    rw [littleEndian, hcount, Finset.sum_range_one, mul_zero, Nat.sub_zero, Nat.min_eq_right h,
      add_zero, pow_zero, mul_one]

/-- The chunks of a window, the first of them least significant, are the sum of their weights. -/
lemma reverseChunks_window (h : offset + width ≤ data.length * 8) :
    ByteOrder.reverseChunks (ByteOrder.chunks width) (value (window data offset width)) =
      littleEndian data offset width := by
  induction width using Nat.strong_induction_on generalizing offset with
  | _ width ih =>
  -- The last chunk may be short; every other one is a byte.
  rcases Nat.lt_or_ge width 8 with hshort | hlong
  · rcases Nat.eq_zero_or_pos width with rfl | hpos
    · simp [ByteOrder.chunks, ByteOrder.reverseChunks, littleEndian]
    · have hread := @ByteOrder.reverseChunks_append (window data offset width) [] [] rfl
      rw [List.append_nil, length_window h, value_window h] at hread
      rw [ByteOrder.chunks_of_lt hpos hshort, value_window h, hread, littleEndian_of_le hshort.le]
      simp [ByteOrder.reverseChunks]
  · obtain ⟨rest, rfl⟩ := Nat.exists_eq_add_of_le' hlong
    have hcut : window data offset (rest + 8) =
        window data offset 8 ++ window data (offset + 8) rest := by
      rw [window, window, window, Nat.add_comm rest, List.take_add, List.drop_drop]
    have hlength : (window data (offset + 8) rest).length =
        ByteOrder.total (ByteOrder.chunks rest) := by
      rw [ByteOrder.total_chunks, length_window (by omega)]
    have hread := @ByteOrder.reverseChunks_append (window data offset 8) _ _ hlength
    rw [length_window (by omega)] at hread
    rw [ByteOrder.chunks_add_eight, hcut, hread, value_window (by omega),
      ih rest (by omega) (by omega), littleEndian_add_eight, bound_eq]

lemma ofStream_window (order : ByteOrder) (h : offset + width ≤ data.length * 8) :
    order.ofStream width (value (window data offset width)) =
      magnitude order data offset width := by
  cases order with
  | big => exact value_window h
  | little =>
      rw [ByteOrder.ofStream, magnitude]
      split
      · rename_i hshort
        rw [value_window h, littleEndian_of_le hshort]
      · exact reverseChunks_window h

/-! ## Signs -/

/-- The sign of an integer is that of two's complement. -/
lemma withSign_eq_toInt {n : ℕ} (signed : Bool) (hn : n < bound width) :
    withSign signed width n = if signed then (BitVec.ofNat width n).toInt else n := by
  rcases Nat.eq_zero_or_pos width with rfl | hpos
  · have hzero : n = 0 := by simpa using hn
    subst hzero
    simp [withSign]
  · have hhalf := bound_pred hpos
    rw [withSign_eq hpos, BitVec.toInt_eq_toNat_cond, BitVec.toNat_ofNat, ← bound_eq,
      Nat.mod_eq_of_lt hn]
    have hupper : bound (width - 1) ≤ n ↔ ¬2 * n < bound width := by omega
    by_cases hsigned : signed = true
    · simp only [hsigned, hupper, true_and, if_true, ite_not]
    · simp only [hsigned, false_and, if_false, Bool.false_eq_true]

/-! ## Reading -/

instance (data : Bytes) (offset width : ℤ) : Decidable (Fits data offset width) :=
  decidable_of_iff (0 ≤ offset ∧ 0 ≤ width ∧ offset + width ≤ (data.length * 8 : ℕ))
    ⟨fun h => ⟨h.1, h.2.1, h.2.2⟩, fun h => ⟨h.offset_nonneg, h.width_nonneg, h.stop_le⟩⟩

/-- **Reading by positions.**  From a window that lies inside the buffer, at every alignment and of
every width, the integer is read that the weights of its bits make up in the byte order that is
asked for, and from any other window there is only the fault that it leaves the buffer, whether the
byte order is known or not. -/
theorem getInt_positional (data : Bytes) (offset width : Scalar) (signed : Bool)
    (order : Except Fault ByteOrder) :
    getInt data offset width signed order =
      if Fits data offset.toInt width.toInt then
        positional signed data offset.toNat width.toNat <$> order
      else
        .error (.outside offset (offset.toInt + width.toInt) ((data.length * 8 : ℕ) : ℤ)
          .buffer) := by
  split
  · rename_i hfits
    have hle : offset.toNat + width.toNat ≤ data.length * 8 := hfits.toNat_le
    have hread (order : ByteOrder) :
        withSign signed width.toNat
            (order.ofStream width.toNat (read data offset.toNat width.toNat)) =
          positional signed data offset.toNat width.toNat order := by
      rw [withSign_eq_toInt signed (order.ofStream_lt read_lt), read_eq_value hle,
        ofStream_window order hle, positional]
    unfold getInt
    rw [checkWindow_eq_ok.mpr hfits]
    simp only [hread]
    rfl
  · rename_i hout
    unfold getInt
    rw [checkWindow_of_not_fits hout]
    rfl

/-- Twelve bits with a sign from the fourth bit on, in chunks of eight and of four. -/
example : positional true [0x12, 0x34, 0x56] 3 12 .little = -1391 := by
  decide

end Bits

end BitPattern
