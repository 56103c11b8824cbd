import BitPattern.Proofs.Bits.Window

/-!
# Integers as bit strings

An integer of a width is written as a bit string in two steps, two's complement and then the byte
order, and read back by undoing both.  `Bits.encode` and `Bits.decode` are inverse to each other:
`encode_decode` says that every bit string is the encoding of the integer read from it, and
`decode_of_encode` that whatever is encoded is read back.

The byte order is settled by the two lemmas on chunks, `restoreChunks_reverseChunks` and
`reverseChunks_restoreChunks`.  Both hold for chunks of any sizes, so the short last chunk of a
width that is no multiple of eight needs no case of its own.  The sign is settled by `withSign_emod`
and `emod_withSign`.
-/

namespace BitPattern

namespace ByteOrder

open Bits

/-! ## Chunks -/

lemma total_append (sizes rest : List Nat) : total (sizes ++ rest) = total sizes + total rest := by
  induction sizes with
  | nil => simp [total]
  | cons size sizes ih => rw [List.cons_append, total, total, ih, Nat.add_assoc]

lemma total_chunks (width : Nat) : total (chunks width) = width := by
  have hwhole : ∀ n, total (List.replicate n 8) = n * 8 := by
    intro n
    induction n with
    | zero => rfl
    | succ n ih =>
        rw [List.replicate_succ, total, ih]
        omega
  rw [chunks, total_append, hwhole]
  split <;> simp only [total] <;> omega

/-- What chunks yield depends on as many bits as they have together. -/
lemma reverseChunks_mod (sizes : List Nat) (raw : Nat) :
    reverseChunks sizes (raw % bound (total sizes)) = reverseChunks sizes raw := by
  have h : ∀ m, total sizes ≤ m →
      reverseChunks sizes (raw % bound m) = reverseChunks sizes raw := by
    induction sizes with
    | nil => exact fun m _ => rfl
    | cons size rest ih =>
        intro m hm
        rw [total] at hm
        rw [reverseChunks, reverseChunks, ih m (by omega)]
        congr 1
        obtain ⟨k, rfl⟩ := Nat.exists_eq_add_of_le hm
        have hm' : size + total rest + k = total rest + (size + k) := by omega
        rw [hm', bound_add, Nat.shiftRight_eq_div_pow, Nat.shiftRight_eq_div_pow, ← bound_eq,
          Nat.mod_mul_right_div_self, bound_add, Nat.mod_mul_right_mod]
  exact h _ le_rfl

lemma reverseChunks_lt (sizes : List Nat) (raw : Nat) :
    reverseChunks sizes raw < bound (total sizes) := by
  induction sizes with
  | nil => simp [reverseChunks, total]
  | cons size rest ih =>
      rw [reverseChunks, total, bound_add]
      have hmod := Nat.mod_lt (raw >>> total rest) (bound_pos size)
      calc
        _ < bound size + bound size * reverseChunks rest raw := by omega
        _ = bound size * (reverseChunks rest raw + 1) := by ring
        _ ≤ bound size * bound (total rest) := Nat.mul_le_mul_left _ ih

lemma restoreChunks_lt (sizes : List Nat) (n : Nat) :
    restoreChunks sizes n < bound (total sizes) := by
  induction sizes generalizing n with
  | nil => simp [restoreChunks, total]
  | cons size rest ih =>
      rw [restoreChunks, total, bound_add]
      have hmod := Nat.mod_lt n (bound_pos size)
      have hrest := ih (n >>> size)
      calc
        _ < n % bound size * bound (total rest) + bound (total rest) := by omega
        _ = (n % bound size + 1) * bound (total rest) := by ring
        _ ≤ bound size * bound (total rest) := Nat.mul_le_mul_right _ hmod

/-- Chunks that are reversed and restored leave the number as it is in their width. -/
lemma restoreChunks_reverseChunks (sizes : List Nat) (raw : Nat) :
    restoreChunks sizes (reverseChunks sizes raw) = raw % bound (total sizes) := by
  induction sizes with
  | nil => simp [restoreChunks, total, Nat.mod_one]
  | cons size rest ih =>
      have hlt := Nat.mod_lt (raw >>> total rest) (bound_pos size)
      have hlow : ((raw >>> total rest) % bound size + bound size * reverseChunks rest raw) %
          bound size = (raw >>> total rest) % bound size := by
        rw [Nat.add_mul_mod_self_left, Nat.mod_mod]
      have hhigh : ((raw >>> total rest) % bound size + bound size * reverseChunks rest raw) >>>
          size = reverseChunks rest raw := by
        rw [Nat.shiftRight_eq_div_pow, ← bound_eq, Nat.add_mul_div_left _ _ (bound_pos size),
          Nat.div_eq_of_lt hlt, Nat.zero_add]
      rw [reverseChunks, restoreChunks, hlow, hhigh, ih, total, Nat.add_comm size,
        bound_add, Nat.mod_mul, Nat.shiftRight_eq_div_pow, ← bound_eq]
      ring

/-- Chunks that are restored and reversed leave the number as it is in their width. -/
lemma reverseChunks_restoreChunks (sizes : List Nat) (n : Nat) :
    reverseChunks sizes (restoreChunks sizes n) = n % bound (total sizes) := by
  induction sizes generalizing n with
  | nil => simp [reverseChunks, total, Nat.mod_one]
  | cons size rest ih =>
      have hlt := restoreChunks_lt rest (n >>> size)
      have hhigh : (n % bound size * bound (total rest) + restoreChunks rest (n >>> size)) >>>
          total rest = n % bound size := by
        rw [Nat.shiftRight_eq_div_pow, ← bound_eq, Nat.mul_comm,
          Nat.mul_add_div (bound_pos (total rest)), Nat.div_eq_of_lt hlt, Nat.add_zero]
      have hlow : reverseChunks rest
          (n % bound size * bound (total rest) + restoreChunks rest (n >>> size)) =
            (n >>> size) % bound (total rest) := by
        rw [← reverseChunks_mod, Nat.mul_add_mod_of_lt hlt, ih]
      rw [restoreChunks, reverseChunks, hhigh, hlow, total, bound_add, Nat.mod_mod,
        Nat.mod_mul, Nat.shiftRight_eq_div_pow, ← bound_eq]

/-! ## Orders -/

lemma ofStream_lt (order : ByteOrder) {width raw : Nat} (h : raw < bound width) :
    order.ofStream width raw < bound width := by
  cases order with
  | big => exact h
  | little =>
      rw [ofStream]
      split
      · exact h
      · simpa [total_chunks] using reverseChunks_lt (chunks width) raw

lemma toStream_lt (order : ByteOrder) {width n : Nat} (h : n < bound width) :
    order.toStream width n < bound width := by
  cases order with
  | big => exact h
  | little =>
      rw [toStream]
      split
      · exact h
      · simpa [total_chunks] using restoreChunks_lt (chunks width) n

lemma toStream_ofStream (order : ByteOrder) {width raw : Nat} (h : raw < bound width) :
    order.toStream width (order.ofStream width raw) = raw := by
  cases order with
  | big => rfl
  | little =>
      rw [toStream, ofStream]
      split
      · rfl
      · rw [restoreChunks_reverseChunks, total_chunks, Nat.mod_eq_of_lt h]

lemma ofStream_toStream (order : ByteOrder) {width n : Nat} (h : n < bound width) :
    order.ofStream width (order.toStream width n) = n := by
  cases order with
  | big => rfl
  | little =>
      rw [ofStream, toStream]
      split
      · rfl
      · rw [reverseChunks_restoreChunks, total_chunks, Nat.mod_eq_of_lt h]

end ByteOrder

namespace Bits

/-! ## Signs -/

/-- The integers of a width: as many as there are bit strings, half of them negative if there is a
sign. -/
structure InRange (signed : Bool) (width : Nat) (v : Int) : Prop where
  lowest_le : lowest signed width ≤ v
  le_highest : v ≤ highest signed width

lemma bound_pred {width : Nat} (h : 0 < width) : bound width = 2 * bound (width - 1) := by
  obtain ⟨k, rfl⟩ := Nat.exists_eq_succ_of_ne_zero h.ne'
  rw [bound_succ, Nat.succ_eq_add_one, Nat.add_sub_cancel, Nat.mul_comm]

/-- The first bit of a number says whether it is in the upper half of its width. -/
lemma shiftRight_ne_zero {width n : Nat} : n >>> (width - 1) ≠ 0 ↔ bound (width - 1) ≤ n := by
  rw [Nat.shiftRight_eq_div_pow, ← bound_eq, Ne, Nat.div_eq_zero_iff_lt (bound_pos _), Nat.not_lt]

lemma withSign_eq {width : Nat} (h : 0 < width) (signed : Bool) (n : Nat) :
    withSign signed width n =
      if signed = true ∧ bound (width - 1) ≤ n then (n : Int) - bound width else n := by
  unfold withSign
  have hcond : (signed && decide (0 < width) && n >>> (width - 1) != 0) = true ↔
      signed = true ∧ bound (width - 1) ≤ n := by
    rw [Bool.and_eq_true, Bool.and_eq_true, bne_iff_ne, shiftRight_ne_zero, decide_eq_true_eq]
    tauto
  simp only [hcond]

lemma inRange_withSign {width n : Nat} (h : 0 < width) (signed : Bool) (hn : n < bound width) :
    InRange signed width (withSign signed width n) := by
  have hhalf := bound_pred h
  rw [withSign_eq h]
  cases signed with
  | false =>
      constructor
      · simp [lowest]
      · simp only [highest, Bool.false_eq_true, false_and, if_false]
        omega
  | true =>
      constructor <;> simp only [lowest, highest, if_true, true_and] <;> split <;> omega

/-- The two's complement of the integer that a number stands for is the number. -/
lemma emod_withSign {width n : Nat} (h : 0 < width) (signed : Bool) (hn : n < bound width) :
    (withSign signed width n % bound width).toNat = n := by
  rw [withSign_eq h]
  split
  · rw [Int.sub_emod_right, Int.emod_eq_of_lt (by omega) (by omega)]
    simp
  · rw [Int.emod_eq_of_lt (by omega) (by omega)]
    simp

lemma emod_lt (v : Int) (width : Nat) : (v % bound width).toNat < bound width := by
  have hpos := bound_pos width
  have h0 := Int.emod_nonneg v (b := bound width) (by omega)
  have h1 := Int.emod_lt_of_pos v (b := bound width) (by omega)
  omega

/-- The integer that its two's complement stands for is the integer, if the width has it. -/
lemma withSign_emod {width : Nat} {v : Int} (h : 0 < width) (signed : Bool)
    (hv : InRange signed width v) :
    withSign signed width (v % bound width).toNat = v := by
  obtain ⟨hlow, hhigh⟩ := hv
  have hhalf := bound_pred h
  have hpos := bound_pos (width - 1)
  rw [withSign_eq h]
  by_cases hneg : v < 0
  · -- A negative integer has a sign, and its complement is in the upper half.
    have hsigned : signed = true := by
      cases signed with
      | false => simp [lowest] at hlow; omega
      | true => rfl
    subst hsigned
    simp only [lowest, highest, if_true] at hlow hhigh
    have hmod : v % bound width = v + bound width := by
      rw [← Int.add_emod_right, Int.emod_eq_of_lt (by omega) (by omega)]
    rw [hmod, if_pos ⟨rfl, by omega⟩]
    omega
  · have hlt : v < bound width := by
      cases signed <;> simp only [highest, if_true, Bool.false_eq_true, if_false] at hhigh <;> omega
    rw [Int.emod_eq_of_lt (by omega) hlt]
    rw [if_neg]
    · omega
    · rintro ⟨rfl, hupper⟩
      simp only [highest, if_true] at hhigh
      omega

/-! ## Encoding and decoding -/

/-- An integer is encoded exactly if the width is positive and has it. -/
lemma encode_eq_ok {v width : Scalar} {signed : Bool} {order : ByteOrder} {raw : Nat} :
    encode v width signed (.ok order) = .ok raw ↔
      0 < width.toInt ∧ InRange signed width.toNat v.toInt ∧
        order.toStream width.toNat (v.toInt % bound width.toNat).toNat = raw := by
  unfold encode
  by_cases hwidth : width.toInt ≤ 0
  · rw [if_pos hwidth]
    constructor
    · intro h
      cases h
    · rintro ⟨hpos, -, -⟩
      omega
  · rw [if_neg hwidth]
    simp only [Bool.or_eq_true, decide_eq_true_eq]
    split
    · rename_i hout
      constructor
      · intro h
        cases h
      · rintro ⟨-, ⟨hlow, hhigh⟩, -⟩
        omega
    · rename_i hin
      simp only [bind, Except.bind, pure, Except.pure, Except.ok.injEq]
      exact ⟨fun h => ⟨by omega, ⟨by omega, by omega⟩, h⟩, fun h => h.2.2⟩

/-- An integer is encoded in a byte order only. -/
lemma order_of_encode {v width : Scalar} {signed : Bool} {order : Except Fault ByteOrder}
    {raw : Nat} (h : encode v width signed order = .ok raw) : ∃ o, order = .ok o := by
  cases order with
  | ok o => exact ⟨o, rfl⟩
  | error fault =>
      unfold encode at h
      split at h
      · cases h
      · dsimp only at h
        split at h <;> cases h

lemma lt_of_encode {v width : Scalar} {signed : Bool} {order : ByteOrder} {raw : Nat}
    (h : encode v width signed (.ok order) = .ok raw) : raw < bound width.toNat := by
  obtain ⟨-, -, rfl⟩ := encode_eq_ok.mp h
  exact order.toStream_lt (emod_lt _ _)

/-- **Decoding after encoding.**  What is encoded is read back from its bits. -/
lemma decode_of_encode {v width : Scalar} {signed : Bool} {order : ByteOrder} {raw : Nat}
    (h : encode v width signed (.ok order) = .ok raw) :
    decode signed order (ofNat width.toNat raw) = v.toInt := by
  have hlt := lt_of_encode h
  obtain ⟨hpos, hrange, rfl⟩ := encode_eq_ok.mp h
  have hwidth : 0 < width.toNat := by
    rw [Scalar.toNat]
    omega
  rw [decode, length_ofNat, value_ofNat, Nat.mod_eq_of_lt hlt,
    order.ofStream_toStream (emod_lt _ _), withSign_emod hwidth signed hrange]

/-- **Encoding after decoding.**  Every bit string encodes the integer that is read from it. -/
lemma encode_decode (signed : Bool) (order : ByteOrder) {bits : List Bool} (h : 0 < bits.length) :
    encode (decode signed order bits) (bits.length : Int) signed (.ok order) =
      .ok (value bits) := by
  have hlt := order.ofStream_lt (value_lt bits)
  refine encode_eq_ok.mpr ⟨?_, ?_, ?_⟩
  · exact Int.natCast_pos.mpr h
  · exact inRange_withSign h signed hlt
  · simp only [Scalar.toNat, Scalar.toInt_number, Int.toNat_natCast, decode]
    rw [emod_withSign h signed hlt, order.toStream_ofStream (value_lt bits)]

end Bits

end BitPattern
