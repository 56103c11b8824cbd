import BitPattern.Bits.Basic
import Mathlib.Tactic

/-!
# Bits as numbers

`Bits.value` and `Bits.ofNat` are inverse to each other between the bit strings of a width and the
numbers below its bound: `value_ofNat` and `ofNat_value`.  The bytes of a buffer are read with the
first one most significant, so a buffer denotes the same number as its bits (`bytesValue_eq_value`),
and the bits of a number written as bytes are the bits of the number (`ofBytes_bytesOf`).

Taking or dropping bytes of a buffer takes or drops eight bits for each of them
(`ofBytes_take`, `ofBytes_drop`).
-/

namespace BitPattern.Bits

/-! ## Bounds -/

lemma bound_eq (width : Nat) : bound width = 2 ^ width := rfl

lemma bound_pos (width : Nat) : 0 < bound width := Nat.two_pow_pos width

lemma bound_add (m n : Nat) : bound (m + n) = bound m * bound n := pow_add 2 m n

/-! ## Numbers of bit strings -/

@[simp] lemma value_nil : value [] = 0 := rfl

lemma value_cons (b : Bool) (bits : List Bool) :
    value (b :: bits) = b.toNat * bound bits.length + value bits := by
  rw [value, List.foldl_cons, foldl_value]
  simp

lemma ofNat_succ (width n : Nat) : ofNat (width + 1) n = n.testBit width :: ofNat width n := by
  rw [ofNat, List.range_succ_eq_map, List.map_cons, List.map_map, ofNat]
  congr 1
  refine List.map_congr_left fun i _ => ?_
  simp only [Function.comp_apply]
  congr 1
  omega

/-- The bits of a number in a width denote what the number leaves in that width. -/
lemma value_ofNat (width n : Nat) : value (ofNat width n) = n % bound width := by
  induction width with
  | zero => simp [ofNat, Nat.mod_one]
  | succ width ih =>
      rw [ofNat_succ, value_cons, length_ofNat, ih, bound_eq, bound_eq, Nat.mod_pow_succ,
        Nat.toNat_testBit]
      ring

@[simp] lemma ofNat_zero (width : Nat) : ofNat width 0 = List.replicate width false := by
  simp [ofNat]

@[simp] lemma value_replicate_false (width : Nat) : value (List.replicate width false) = 0 := by
  rw [← ofNat_zero, value_ofNat, Nat.zero_mod]

/-- Bit strings of one length that denote one number are equal. -/
lemma value_injective {a b : List Bool} (hlen : a.length = b.length) (h : value a = value b) :
    a = b := by
  induction a generalizing b with
  | nil => exact (List.length_eq_zero_iff.mp hlen.symm).symm
  | cons x a ih =>
      cases b with
      | nil => simp at hlen
      | cons y b =>
          have hlen' : a.length = b.length := by simpa using hlen
          rw [value_cons, value_cons, ← hlen'] at h
          have ha := value_lt a
          have hb := value_lt b
          rw [← hlen'] at hb
          -- The first bits agree, since either number is below the weight of the first bit.
          have hxy : x = y := by
            cases x <;> cases y <;> simp at h ⊢ <;> omega
          subst hxy
          rw [ih hlen' (by omega)]

/-- A bit string is the bits of its number in its length. -/
lemma ofNat_value (bits : List Bool) : ofNat bits.length (value bits) = bits := by
  refine value_injective (by simp) ?_
  rw [value_ofNat, Nat.mod_eq_of_lt (value_lt bits)]

/-- The bits of two numbers one after the other are those of one number. -/
lemma ofNat_append (m n a b : Nat) (hb : b < bound n) :
    ofNat m a ++ ofNat n b = ofNat (m + n) (a * bound n + b) := by
  refine value_injective (by simp) ?_
  have hdiv : (a * bound n + b) / bound n = a := by
    rw [Nat.mul_comm, Nat.mul_add_div (bound_pos n), Nat.div_eq_of_lt hb, Nat.add_zero]
  rw [value_append, value_ofNat, value_ofNat, value_ofNat, length_ofNat, bound_add,
    Nat.mod_eq_of_lt hb, Nat.mul_comm (bound m), Nat.mod_mul, Nat.mul_add_mod_of_lt hb, hdiv]
  ring

/-- The number of a bit string without some bits at the end is a shift to the right. -/
lemma value_shiftRight (front back : List Bool) :
    value (front ++ back) >>> back.length = value front := by
  rw [value_append, Nat.shiftRight_eq_div_pow, ← bound_eq, Nat.mul_comm,
    Nat.mul_add_div (bound_pos _), Nat.div_eq_of_lt (value_lt back), Nat.add_zero]

/-- The number of a bit string without some bits at the start is a remainder. -/
lemma value_mod (front back : List Bool) :
    value (front ++ back) % bound back.length = value back := by
  rw [value_append, Nat.mul_add_mod_of_lt (value_lt back)]

/-! ## Buffers -/

lemma ofByte_eq_ofNat (b : UInt8) : ofByte b = ofNat 8 b.toNat := rfl

@[simp] lemma value_ofByte (b : UInt8) : value (ofByte b) = b.toNat := by
  rw [ofByte_eq_ofNat, value_ofNat]
  exact Nat.mod_eq_of_lt b.toNat_lt

lemma ofBytes_cons (b : UInt8) (data : Bytes) : ofBytes (b :: data) = ofByte b ++ ofBytes data :=
  rfl

lemma ofBytes_take (data : Bytes) (n : Nat) :
    ofBytes (data.take n) = (ofBytes data).take (n * 8) := by
  induction data generalizing n with
  | nil => simp [ofBytes]
  | cons b data ih =>
      cases n with
      | zero => simp [ofBytes]
      | succ n =>
          have hn : (n + 1) * 8 = (ofByte b).length + n * 8 := by
            rw [length_ofByte]
            omega
          rw [List.take_succ_cons, ofBytes_cons, ofBytes_cons, ih, hn, List.take_length_add_append]

lemma ofBytes_drop (data : Bytes) (n : Nat) :
    ofBytes (data.drop n) = (ofBytes data).drop (n * 8) := by
  induction data generalizing n with
  | nil => simp [ofBytes]
  | cons b data ih =>
      cases n with
      | zero => simp
      | succ n =>
          have hn : (n + 1) * 8 = (ofByte b).length + n * 8 := by
            rw [length_ofByte]
            omega
          rw [List.drop_succ_cons, ofBytes_cons, ih, hn, List.drop_length_add_append]

/-- A buffer denotes the number of its bits. -/
lemma bytesValue_eq_value (data : Bytes) : bytesValue data = value (ofBytes data) := by
  have h : ∀ n, data.foldl (fun n b => 256 * n + b.toNat) n =
      (ofBytes data).foldl (fun n b => 2 * n + b.toNat) n := by
    induction data with
    | nil => exact fun n => rfl
    | cons b data ih =>
        intro n
        rw [List.foldl_cons, ih, ofBytes_cons, List.foldl_append, foldl_value n, value_ofByte,
          length_ofByte, Nat.mul_comm 256]
        rfl
  exact h 0

lemma bytesValue_append_singleton (data : Bytes) (b : UInt8) :
    bytesValue (data ++ [b]) = 256 * bytesValue data + b.toNat := by
  simp [bytesValue]

lemma bytesValue_bytesOf (count n : Nat) :
    bytesValue (bytesOf count n) = n % bound (count * 8) := by
  induction count generalizing n with
  | zero => simp [bytesOf, bytesValue, Nat.mod_one]
  | succ count ih =>
      have hbyte : (UInt8.ofNat (n % 256)).toNat = n % 256 := by simp
      have hbound : bound ((count + 1) * 8) = 256 * bound (count * 8) := by
        rw [Nat.succ_mul, Nat.add_comm, bound_add]
        rfl
      rw [bytesOf, bytesValue_append_singleton, ih, hbyte, hbound, Nat.mod_mul]
      omega

/-- The bits of a number written as bytes are its bits. -/
lemma ofBytes_bytesOf (count n : Nat) : ofBytes (bytesOf count n) = ofNat (count * 8) n := by
  refine value_injective (by simp) ?_
  rw [← bytesValue_eq_value, bytesValue_bytesOf, value_ofNat]

/-- A number that is shifted to fill whole bytes is written as its bits and zeros behind them. -/
lemma ofBytes_bytesOf_shiftLeft {length count : Nat} (h : length ≤ count * 8) (n : Nat) :
    ofBytes (bytesOf count (n <<< (count * 8 - length))) =
      ofNat length n ++ List.replicate (count * 8 - length) false := by
  set pad := count * 8 - length with hpad
  have hwidth : count * 8 = length + pad := by omega
  rw [ofBytes_bytesOf, hwidth, ← ofNat_zero pad, ofNat_append _ _ _ _ (bound_pos pad),
    Nat.shiftLeft_eq, bound_eq, Nat.add_zero]

/-- Buffers with the same bits are equal. -/
lemma ofBytes_injective {a b : Bytes} (h : ofBytes a = ofBytes b) : a = b := by
  induction a generalizing b with
  | nil =>
      cases b with
      | nil => rfl
      | cons y b =>
          have := congrArg List.length h
          rw [length_ofBytes, length_ofBytes, List.length_nil, List.length_cons] at this
          omega
  | cons x a ih =>
      cases b with
      | nil =>
          have := congrArg List.length h
          rw [length_ofBytes, length_ofBytes, List.length_nil, List.length_cons] at this
          omega
      | cons y b =>
          rw [ofBytes_cons, ofBytes_cons] at h
          obtain ⟨hxy, hab⟩ := List.append_inj h (by simp)
          have hbyte : x.toNat = y.toNat := by rw [← value_ofByte, hxy, value_ofByte]
          rw [UInt8.toNat_inj.mp hbyte, ih hab]

end BitPattern.Bits
