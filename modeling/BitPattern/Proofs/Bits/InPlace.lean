import BitPattern.Integer
import BitPattern.Proofs.Bits.History
import BitPattern.Proofs.Bits.Update
import BitPattern.Proofs.Value.Faults

/-!
# Writing an integer in place

`setInt` gives a new buffer.  In place, the bytes that the window touches are read, the bits of the
window are masked out of their number and the new ones are put there, the number is converted back
to as many bytes, and only then the buffer is assigned to.  `storeInt` runs these steps on a buffer
that keeps whatever has been done to it when a fault is raised, and with a conversion that refuses a
number that has become too large.

`splice_eq` says that the masked combination is the sum that `write` forms, and `splice_lt` that it
needs no more bytes than were read, at every alignment.  So storing is `setInt` in place
(`storeInt_eq`).  The main result is `storeInt_atomic`: which fault is raised exactly when, and that
a buffer is either written or left as it is.
-/

namespace BitPattern.Bits

open Writer (exactBytes exactBytes_of_lt)

/-! ## Masks -/

/-- A number in which the bits of a window are replaced: `low` bits stand behind the window. -/
def splice (kept width raw low : ℕ) : ℕ :=
  Integer.clearBits kept ((1 <<< width - 1) <<< low) ||| raw <<< low

lemma and_mask (kept width low : ℕ) :
    kept &&& (1 <<< width - 1) <<< low = ((kept >>> low) % bound width) <<< low := by
  refine Nat.eq_of_testBit_eq fun i => ?_
  rw [bound_eq, Nat.one_shiftLeft]
  simp only [Nat.testBit_and, Nat.testBit_shiftLeft, Nat.testBit_two_pow_sub_one,
    Nat.testBit_mod_two_pow, Nat.testBit_shiftRight]
  by_cases hi : low ≤ i
  · have hsum : low + (i - low) = i := by omega
    simp [hi, hsum, Bool.and_comm]
  · simp [hi]

/-- What the mask leaves is what is above the window and what is below it. -/
lemma clearBits_mask (kept width low : ℕ) :
    Integer.clearBits kept ((1 <<< width - 1) <<< low) =
      kept >>> (low + width) <<< (low + width) + kept % bound low := by
  have hlow := Nat.div_add_mod kept (bound low)
  have hwidth := Nat.div_add_mod (kept / bound low) (bound width)
  have hsplit : kept = kept / bound low / bound width * (bound low * bound width) +
      kept / bound low % bound width * bound low + kept % bound low := by
    conv_lhs => rw [← hlow, ← hwidth]
    ring
  rw [Integer.clearBits, and_mask]
  simp only [Nat.shiftRight_eq_div_pow, Nat.shiftLeft_eq, ← bound_eq, bound_add]
  rw [← Nat.div_div_eq_div_mul]
  omega

/-- The masked combination is a sum, since its three parts have no bit in common. -/
lemma splice_eq {kept width raw low : ℕ} (hraw : raw < bound width) :
    splice kept width raw low =
      kept >>> (low + width) <<< (low + width) + raw * bound low + kept % bound low := by
  have hbelow : kept % bound low < 2 ^ low := Nat.mod_lt _ (bound_pos low)
  have hmiddle : raw <<< low + kept % bound low < 2 ^ (low + width) := by
    have hle := Nat.mul_le_mul_right (2 ^ low) (Nat.succ_le_of_lt hraw)
    rw [Nat.succ_mul, bound_eq] at hle
    rw [Nat.shiftLeft_eq, Nat.add_comm low, pow_add]
    omega
  have hfirst : kept % bound low < 2 ^ (low + width) := (Nat.le_add_left _ _).trans_lt hmiddle
  rw [splice, clearBits_mask, Nat.shiftLeft_add_eq_or_of_lt hfirst, Nat.or_assoc,
    Nat.or_comm (kept % bound low), ← Nat.shiftLeft_add_eq_or_of_lt hbelow,
    ← Nat.shiftLeft_add_eq_or_of_lt hmiddle, Nat.shiftLeft_eq raw, ← bound_eq, Nat.add_assoc]

variable {data : Bytes}

/-- **No overflow.**  Replacing the bits of a window needs no more bytes than the window touches. -/
lemma splice_lt {offset width raw : ℕ} (h : offset + width ≤ data.length * 8)
    (hraw : raw < bound width) :
    splice (touched data offset width) width raw (slack offset width) <
      bound (((offset + width + 7) / 8 - offset / 8) * 8) := by
  obtain ⟨front, back, hbits, hback⟩ := ofBytes_touched h
  have hwindow := length_window h
  have hlength : ((offset + width + 7) / 8 - offset / 8) * 8 =
      (front ++ ofNat width raw ++ back).length := by
    have htouched := congrArg List.length hbits
    simp only [List.length_append, length_ofBytes, List.length_drop, List.length_take, hwindow,
      length_ofNat] at htouched ⊢
    omega
  rw [splice_eq hraw, touched, bytesValue_eq_value, hbits, ← hback, value_around _ _ _ hraw hwindow,
    hlength]
  exact value_lt _

/-! ## Storing -/

/-- A computation on a buffer.  What it has done to the buffer stays when it raises a fault. -/
abbrev OnBuffer (α : Type) : Type :=
  ExceptT Fault (StateM Bytes) α

namespace OnBuffer

variable {α β : Type}

/-- How a computation on a buffer ends, and the buffer as it is then. -/
def outcome (x : OnBuffer α) (data : Bytes) : Except Fault α × Bytes :=
  (ExceptT.run x).run data

lemma outcome_bind (x : OnBuffer α) (f : α → OnBuffer β) (data : Bytes) :
    (x >>= f).outcome data = match x.outcome data with
      | (.ok a, data') => (f a).outcome data'
      | (.error fault, data') => (.error fault, data') := by
  change (ExceptT.bindCont f (x.outcome data).1).run (x.outcome data).2 = _
  rcases x.outcome data with ⟨_ | a, data'⟩ <;> rfl

lemma outcome_ofExcept (x : Except Fault α) (data : Bytes) :
    (MonadExcept.ofExcept x : OnBuffer α).outcome data = (x, data) := by
  cases x <;> rfl

end OnBuffer

/-- Writes an integer in place. -/
def storeInt (offset width v : Scalar) (signed : Bool) (order : Except Fault ByteOrder) :
    OnBuffer Unit := do
  let data ← get
  MonadExcept.ofExcept (checkWindow data offset width.toInt)
  let raw ← MonadExcept.ofExcept (encode v width signed order)
  let first := offset.toNat / 8
  let last := (offset.toNat + width.toNat + 7) / 8
  let kept := touched data offset.toNat width.toNat
  let stored ← MonadExcept.ofExcept (exactBytes (last - first)
    (splice kept width.toNat raw (slack offset.toNat width.toNat)))
  set (data.take first ++ stored ++ data.drop last)

variable {offset width v : Scalar} {signed : Bool}

/-- Storing is `setInt` in place: it ends with the same buffer, or it raises the same fault and
leaves the buffer as it is. -/
lemma storeInt_eq (order : Except Fault ByteOrder) :
    (storeInt offset width v signed order).outcome data =
      match setInt data offset width v signed order with
      | .ok data' => (.ok (), data')
      | .error fault => (.error fault, data) := by
  have hget : (get : OnBuffer Bytes).outcome data = (.ok data, data) := rfl
  unfold storeInt setInt
  rw [OnBuffer.outcome_bind, hget]
  dsimp only
  rw [OnBuffer.outcome_bind, OnBuffer.outcome_ofExcept]
  cases hwindow : checkWindow data offset width.toInt with
  | error fault => rfl
  | ok =>
      dsimp only
      rw [OnBuffer.outcome_bind, OnBuffer.outcome_ofExcept]
      cases hencode : encode v width signed order with
      | error fault => rfl
      | ok raw =>
          obtain ⟨o, rfl⟩ := order_of_encode hencode
          -- The bytes hold the patched value, so writing them back cannot fail.
          have hraw := lt_of_encode hencode
          have hle : offset.toNat + width.toNat ≤ data.length * 8 :=
            (checkWindow_eq_ok.mp hwindow).toNat_le
          have hstored := exactBytes_of_lt (splice_lt hle hraw)
          dsimp only
          rw [OnBuffer.outcome_bind, OnBuffer.outcome_ofExcept, hstored, splice_eq hraw]
          rfl

/-! ## When storing fails -/

variable {order : Value}

/-- An integer is encoded exactly if the width is positive and has it, and if the byte order is
known. -/
lemma exists_encode_iff :
    (∃ raw, encode v width signed order.toByteOrder = .ok raw) ↔
      0 < width.toInt ∧ InRange signed width.toNat v.toInt ∧ order.NamesOrder := by
  constructor
  · rintro ⟨raw, h⟩
    obtain ⟨o, ho⟩ := order_of_encode h
    rw [ho] at h
    obtain ⟨hpos, hrange, -⟩ := encode_eq_ok.mp h
    refine ⟨hpos, hrange, ?_⟩
    by_contra hunknown
    obtain ⟨fault, hfault, -⟩ := Value.toByteOrder_of_not_namesOrder hunknown
    rw [hfault] at ho
    cases ho
  · intro ⟨hpos, hrange, hknown⟩
    obtain ⟨o, ho⟩ := hknown.toByteOrder
    rw [ho]
    exact ⟨_, encode_eq_ok.mpr ⟨hpos, hrange, rfl⟩⟩

/-- All that keeps an integer from being encoded is an unsuitable value. -/
lemma kind_of_encode {fault : Fault} (h : encode v width signed order.toByteOrder = .error fault) :
    fault.kind = .value := by
  unfold encode at h
  split at h
  · cases h
    rfl
  · dsimp only at h
    split at h
    · cases h
      rfl
    · by_cases hknown : order.NamesOrder
      · obtain ⟨o, ho⟩ := hknown.toByteOrder
        rw [ho] at h
        cases h
      · obtain ⟨fault', hfault, hkind⟩ := Value.toByteOrder_of_not_namesOrder hknown
        rw [hfault] at h
        cases h
        exact hkind

lemma setInt_of_not_fits (h : ¬Fits data offset.toInt width.toInt) :
    ∃ fault, setInt data offset width v signed order.toByteOrder = .error fault ∧
      fault.kind = .index := by
  unfold setInt
  rw [checkWindow_of_not_fits h]
  exact ⟨_, rfl, rfl⟩

/-- In a window that fits only an unsuitable value is a fault. -/
lemma setInt_of_fits (hfits : Fits data offset.toInt width.toInt)
    (h : ¬(width.toInt ≠ 0 ∧ InRange signed width.toNat v.toInt ∧ order.NamesOrder)) :
    ∃ fault, setInt data offset width v signed order.toByteOrder = .error fault ∧
      fault.kind = .value := by
  unfold setInt
  rw [checkWindow_eq_ok.mpr hfits]
  cases hencode : encode v width signed order.toByteOrder with
  | error fault => exact ⟨fault, rfl, kind_of_encode hencode⟩
  | ok raw =>
      obtain ⟨hpos, hrange, hknown⟩ := exists_encode_iff.mp ⟨raw, hencode⟩
      exact absurd ⟨hpos.ne', hrange, hknown⟩ h

lemma setInt_of_inRange (hfits : Fits data offset.toInt width.toInt)
    (h : width.toInt ≠ 0 ∧ InRange signed width.toNat v.toInt ∧ order.NamesOrder) :
    ∃ data', setInt data offset width v signed order.toByteOrder = .ok data' := by
  obtain ⟨hwidth, hrange, hknown⟩ := h
  have hpos : 0 < width.toInt := lt_of_le_of_ne hfits.width_nonneg hwidth.symm
  obtain ⟨raw, hencode⟩ := exists_encode_iff.mpr ⟨hpos, hrange, hknown⟩
  unfold setInt
  rw [checkWindow_eq_ok.mpr hfits, hencode]
  exact ⟨_, rfl⟩

/-- How storing an integer ends, and which buffer is left. -/
structure Atomic (data : Bytes) (offset width v : Scalar) (signed : Bool) (order : Value)
    (result : Except Fault Unit × Bytes) : Prop where
  /-- The window leaves the buffer. -/
  index_iff : (∃ fault, result.1 = .error fault ∧ fault.kind = .index) ↔
    offset.toInt < 0 ∨ width.toInt < 0 ∨ (data.length * 8 : ℕ) < offset.toInt + width.toInt
  /-- The window is inside, but the integer cannot be encoded. -/
  value_iff : (∃ fault, result.1 = .error fault ∧ fault.kind = .value) ↔
    Fits data offset.toInt width.toInt ∧
      (width.toInt = 0 ∨ ¬InRange signed width.toNat v.toInt ∨ ¬order.NamesOrder)
  /-- In all other cases the integer is stored, so no conversion can overflow. -/
  ok_iff : result.1 = .ok () ↔
    Fits data offset.toInt width.toInt ∧
      width.toInt ≠ 0 ∧ InRange signed width.toNat v.toInt ∧ order.NamesOrder
  /-- A fault leaves the buffer as it was. -/
  unchanged : ∀ fault, result.1 = .error fault → result.2 = data
  /-- Fault and buffer are those of `setInt`. -/
  setInt_eq : setInt data offset width v signed order.toByteOrder =
    (fun _ => result.2) <$> result.1

/-- **Storing is atomic.**  An integer is stored in place, or there is a fault and the buffer is
left byte for byte as it was.  The fault tells the two reasons apart: the window leaves the buffer,
or else the width is zero, or the integer is out of its range, or the byte order is unknown. -/
theorem storeInt_atomic (data : Bytes) (offset width v : Scalar) (signed : Bool) (order : Value) :
    Atomic data offset width v signed order
      ((storeInt offset width v signed order.toByteOrder).outcome data) := by
  have hstore := @storeInt_eq data offset width v signed order.toByteOrder
  -- The window is checked first, then the width, the integer and the byte order; in each case the
  -- fault of `setInt` is known.
  by_cases hfits : Fits data offset.toInt width.toInt
  · by_cases hvalue : width.toInt ≠ 0 ∧ InRange signed width.toNat v.toInt ∧ order.NamesOrder
    · obtain ⟨data', hset⟩ := setInt_of_inRange hfits hvalue
      rw [hset] at hstore
      rw [hstore]
      refine ⟨?_, ?_, ?_, ?_, hset⟩
      · rw [← not_fits_iff]
        simp [hfits]
      · simp [hvalue]
      · simp [hfits, hvalue]
      · simp
    · obtain ⟨fault, hset, hkind⟩ := setInt_of_fits hfits hvalue
      have hcause : width.toInt = 0 ∨ ¬InRange signed width.toNat v.toInt ∨ ¬order.NamesOrder := by
        tauto
      rw [hset] at hstore
      rw [hstore]
      refine ⟨?_, ?_, ?_, ?_, hset⟩
      · rw [← not_fits_iff]
        simp [hfits, hkind]
      · simp [hfits, hkind, hcause]
      · simp [hvalue]
      · simp
  · obtain ⟨fault, hset, hkind⟩ := @setInt_of_not_fits data offset width v signed order hfits
    rw [hset] at hstore
    rw [hstore]
    refine ⟨?_, ?_, ?_, ?_, hset⟩
    · rw [← not_fits_iff]
      simp [hfits, hkind]
    · simp [hfits, hkind]
    · simp [hfits]
    · simp

/-- A byte order that is none is found when the window and the integer have passed. -/
example : (storeInt (.number 3) (.number 12) (.number (-5)) true (Value.text "middle").toByteOrder
    ).outcome [0x12, 0x34, 0x56] =
      (.error (.unknownOrder "'middle'"), [0x12, 0x34, 0x56]) := by
  decide

end BitPattern.Bits
