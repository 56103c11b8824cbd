import BitPattern.Plan.Run
import BitPattern.Proofs.Value.Content

/-!
# What a field reads

A reading settles the byte order and then takes the bits (`FieldPlan.read_eq`).  Taking bits fails
only if they lie outside the buffer (`readBits_eq_error`).  Bits inside it stand for a value, which
is `meaning` of them: `readBits_content` says that the value that is read has it for its content,
whatever the buffer and the alignment.
-/

namespace BitPattern.Plan

open BitPattern.Bits

/-- The value of a field of a type that reads so many bits. -/
def readBits (type : FieldType) (signed : Bool) (data : Bytes) (off : Int) (width : Scalar)
    (order : ByteOrder) : Except Fault Value :=
  match type with
  | .int => Value.int <$> Bits.getInt data off width signed (.ok order)
  | .string => Value.ofBytes <$> Bits.getBytes data off (Scalar.number (width.toInt / 8))
  | .bitstring => Value.bits <$> Bitstring.view data off width

/-- A reading settles the byte order, which only an integer asks for, and then takes the bits. -/
lemma FieldPlan.read_eq (plan : FieldPlan) (lookup : String → Except Fault Value) (data : Bytes)
    (off : Int) (width : Scalar) :
    plan.read lookup data off width =
      if plan.type = .int then plan.order.eval lookup >>= fun order =>
        Run.ofExcept (readBits plan.type plan.signed data off width order)
      else Run.ofExcept (readBits plan.type plan.signed data off width .big) := by
  unfold FieldPlan.read readBits
  cases plan.type <;> rfl

/-- The byte order makes no difference to a field that is no integer. -/
lemma readBits_order {type : FieldType} (htype : type ≠ .int) (signed : Bool) (data : Bytes)
    (off : Int) (width : Scalar) (order order' : ByteOrder) :
    readBits type signed data off width order = readBits type signed data off width order' := by
  cases type with
  | int => exact absurd rfl htype
  | string => rfl
  | bitstring => rfl

/-- Taking bits fails only if they lie outside the buffer. -/
lemma readBits_eq_error {type : FieldType} {signed : Bool} {data : Bytes} {off : Int}
    {width : Scalar} {order : ByteOrder} {f : Fault}
    (h : readBits type signed data off width order = .error f) :
    ∃ low high size extent, f = .outside low high size extent := by
  have hwindow : ∀ (offset : Scalar) (count : Int) (g : Fault),
      Bits.checkWindow data offset count = .error g →
        ∃ low high size extent, g = .outside low high size extent := by
    intro offset count g hg
    unfold Bits.checkWindow at hg
    dsimp only at hg
    split at hg
    · cases hg
      exact ⟨_, _, _, _, rfl⟩
    · cases hg
  unfold readBits at h
  split at h
  · rw [result_map_eq_error, Bits.getInt] at h
    rcases result_bind_eq_error.mp h with h | ⟨_, -, h⟩
    · exact hwindow _ _ _ h
    · cases h
  · rw [result_map_eq_error, Bits.getBytes] at h
    rcases result_bind_eq_error.mp h with h | ⟨_, -, h⟩
    · exact hwindow _ _ _ h
    · cases h
  · rw [result_map_eq_error, Bitstring.view] at h
    split at h <;> split at h <;> cases h <;> exact ⟨_, _, _, _, rfl⟩

/-- The value that the bits of a field stand for, with a bitstring in a buffer of its own. -/
def meaning (type : FieldType) (signed : Bool) (order : ByteOrder) (bits : List Bool) : Value :=
  match type with
  | .int => .int (decode signed order bits)
  | .string => .ofBytes (bytesOf (bits.length / 8) (value bits))
  | .bitstring => .bits (.ofBits bits)

/-- **Reading.** From bits inside the buffer, whole bytes of them for a string, the value is read
that they stand for. -/
lemma readBits_content {type : FieldType} {signed : Bool} {data : Bytes} {off : Int}
    {width : Scalar} {order : ByteOrder} (h : Fits data off width.toInt)
    (hwhole : type = .string → width.toInt % 8 = 0) :
    ∃ v, readBits type signed data off width order = .ok v ∧
      v.content = meaning type signed order (window data off.toNat width.toNat) := by
  cases type with
  | int =>
      have hget := @getInt_eq data (.number off) width signed order h
      exact ⟨_, congrArg (Value.int <$> ·) hget, rfl⟩
  | string =>
      have hmod := hwhole rfl
      -- Whole bytes, so the count of bytes gives the width back.
      have hbytes : width.toInt / 8 * 8 = width.toInt := by omega
      have hfits : Fits data off (width.toInt / 8 * 8) := by
        rw [hbytes]
        exact h
      have hget := @getBytes_eq data (.number off) (.number (width.toInt / 8)) hfits
      have hcount : (Scalar.number (width.toInt / 8)).toNat = width.toNat / 8 := by
        simp only [Scalar.toNat, Scalar.toInt_number]
        omega
      have hwidth : width.toNat / 8 * 8 = width.toNat := by
        rw [Scalar.toNat]
        omega
      refine ⟨_, congrArg (Value.ofBytes <$> ·) hget, ?_⟩
      have hlength : (window data off.toNat width.toNat).length = width.toNat :=
        length_window h.toNat_le
      rw [meaning, hlength, hcount, hwidth]
      rfl
  | bitstring =>
      obtain ⟨b, hview, -, -, -, hbits⟩ := @Bitstring.view_eq data (.number off) width h
      refine ⟨_, congrArg (Value.bits <$> ·) hview, ?_⟩
      rw [Value.content, b.content_eq_ofBits, hbits]
      rfl

end BitPattern.Plan
