import BitPattern.Plan.Run
import BitPattern.Proofs.Run.Lift

/-!
# The faults of expressions

An operation on values can only end in a fault of values: operands of the wrong type, a value out of
range, a division by zero, a byte order that is none.  It never leaves a buffer and never asks for a
name.  `Fault.ofValues` names these faults, and `eval_faults` carries the fact through all
expressions: an evaluation ends in a fault of values or in one that comes from looking up one of the
names of the expression.
-/

namespace BitPattern

/-- The faults that operations on values end in. -/
def Fault.ofValues : Fault → Prop
  | .type | .value | .overflow | .memory | .zeroDivision | .unknownName | .unencodable
  | .noOrder _ | .unknownOrder _ => True
  | _ => False

/-- A result that is a value or a fault of values. -/
def OfValues {α : Type} (x : Except Fault α) : Prop :=
  ∀ e, x = .error e → e.ofValues

namespace OfValues

variable {α β : Type}

lemma ok (a : α) : OfValues (.ok a : Except Fault α) := by
  intro e h
  cases h

lemma error {e : Fault} (h : e.ofValues) : OfValues (.error e : Except Fault α) := by
  rintro e' h'
  cases h'
  exact h

lemma bind {x : Except Fault α} {f : α → Except Fault β} (hx : OfValues x)
    (hf : ∀ a, OfValues (f a)) : OfValues (x >>= f) := by
  intro e h
  rcases result_bind_eq_error.mp h with h | ⟨a, -, h⟩
  · exact hx e h
  · exact hf a e h

lemma map {x : Except Fault α} {f : α → β} (hx : OfValues x) : OfValues (f <$> x) := by
  cases x with
  | ok a => exact ok _
  | error e => exact error (hx e rfl)

lemma mapM {f : α → Except Fault β} (hf : ∀ a, OfValues (f a)) (xs : List α) :
    OfValues (xs.mapM f) := by
  induction xs with
  | nil => exact ok _
  | cons x xs ih =>
      rw [List.mapM_cons]
      exact bind (hf x) fun _ => bind ih fun _ => ok _

end OfValues

namespace Value

open OfValues

/-! ## Operators -/

lemma toInt_ofValues (v : Value) : OfValues v.toInt := by
  unfold toInt
  split
  · exact ok _
  · exact error trivial

lemma toScalar_ofValues (v : Value) : OfValues v.toScalar := by
  unfold toScalar
  split
  · exact ok _
  · exact ok _
  · exact error trivial

lemma toIndex_ofValues (n : Int) : OfValues (toIndex n) := by
  unfold toIndex
  split
  · exact ok _
  · exact error trivial

lemma checkSize_ofValues (size : Int) {beyond : Fault} (h : beyond.ofValues) :
    OfValues (checkSize size beyond) := by
  unfold checkSize
  split
  · exact error h
  · split
    · exact error trivial
    · exact ok _

lemma arith_ofValues (f : Int → Int → Int) (v w : Value) : OfValues (arith f v w) :=
  bind (toInt_ofValues v) fun _ => bind (toInt_ofValues w) fun _ => ok _

lemma divide_ofValues (f : Int → Int → Int) (v w : Value) : OfValues (divide f v w) := by
  refine bind (toInt_ofValues v) fun a => bind (toInt_ofValues w) fun b => ?_
  split
  · exact error trivial
  · exact ok _

lemma shift_ofValues (f : Int → Nat → Int) (v w : Value) : OfValues (shift f v w) := by
  refine bind (toInt_ofValues v) fun a => bind (toInt_ofValues w) fun b => ?_
  split
  · exact error trivial
  · exact ok _

lemma bitwise_ofValues (f : Int → Int → Int) (v w : Value) : OfValues (bitwise f v w) := by
  refine bind (toInt_ofValues v) fun a => bind (toInt_ofValues w) fun b => ?_
  split <;> exact ok _

lemma ofTypes_ofValues (types : List (Option Builtin)) : OfValues (ofTypes types) := by
  unfold ofTypes
  split
  · exact ok _
  · exact error trivial
  · exact error trivial
  · exact ok _

lemma merge_ofValues (v w : Value) : OfValues (merge v w) := by
  unfold merge
  split
  · exact ok _
  · exact bitwise_ofValues _ _ _

lemma either_ofValues (v w : Value) : OfValues (either v w) := by
  unfold either
  split
  · exact ofTypes_ofValues _
  · exact merge_ofValues v w

lemma add_ofValues (v w : Value) : OfValues (add v w) := by
  unfold add
  split
  · exact ok _
  · exact error trivial
  · exact ok _
  · exact ok _
  · exact ok _
  · exact ok _
  · exact arith_ofValues _ _ _

lemma repeatChecked_ofValues {α : Type} (xs : List α) (count : Int) {beyond : Fault}
    (h : beyond.ofValues) : OfValues (repeatChecked xs count beyond) :=
  bind (toIndex_ofValues count) fun _ => bind (checkSize_ofValues _ h) fun _ => ok _

lemma repeated_ofValues (count : Int) (v : Value) : OfValues (repeated count v) := by
  unfold repeated
  split
  · exact bind (repeatChecked_ofValues _ _ trivial) fun _ => ok _
  · exact bind (repeatChecked_ofValues _ _ trivial) fun _ => ok _
  · exact bind (repeatChecked_ofValues _ _ trivial) fun _ => ok _
  · exact bind (repeatChecked_ofValues _ _ trivial) fun _ => ok _
  · exact bind (repeatChecked_ofValues _ _ trivial) fun _ => ok _
  · exact error trivial

lemma mul_ofValues (v w : Value) : OfValues (mul v w) := by
  unfold mul
  split
  · exact ok _
  · exact repeated_ofValues _ _
  · exact repeated_ofValues _ _
  · exact error trivial

lemma compareBy_ofValues (admits : Ordering → Bool) (v w : Value) :
    OfValues (compareBy admits v w) := by
  unfold compareBy
  split
  · exact ok _
  · exact error trivial

end Value

lemma BinOp.apply_ofValues (op : BinOp) (v w : Value) : OfValues (op.apply v w) := by
  cases op with
  | or | and | eq | ne => exact OfValues.ok _
  | lt | le | gt | ge => exact Value.compareBy_ofValues _ v w
  | bitOr => exact Value.either_ofValues v w
  | bitXor | bitAnd => exact Value.bitwise_ofValues _ v w
  | shiftLeft | logicalShiftRight | shiftRight => exact Value.shift_ofValues _ v w
  | add => exact Value.add_ofValues v w
  | sub => exact Value.arith_ofValues _ v w
  | mul => exact Value.mul_ofValues v w
  | div | mod => exact Value.divide_ofValues _ v w

lemma UnOp.apply_ofValues (op : UnOp) (v : Value) : OfValues (op.apply v) := by
  cases op with
  | neg | complement => exact OfValues.bind (Value.toInt_ofValues v) fun _ => OfValues.ok _
  | not => exact OfValues.ok _

namespace Value

open OfValues

/-! ## Functions -/

lemma convertInt_ofValues (v : Value) : OfValues v.convertInt := by
  unfold convertInt
  split
  · exact ok _
  · split
    · exact ok _
    · exact error trivial
    · exact error trivial

lemma convertRadix_ofValues (v radix : Value) : OfValues (v.convertRadix radix) := by
  refine bind (toInt_ofValues radix) fun n => ?_
  unfold numeralIn
  split
  · exact error trivial
  · split
    · exact error trivial
    · split
      · exact ok _
      · exact error trivial
      · exact error trivial

lemma toByte_ofValues (v : Value) : OfValues v.toByte := by
  refine bind (toInt_ofValues v) fun n => ?_
  split
  · exact ok _
  · exact error trivial

lemma toBytes_ofValues (v : Value) : OfValues v.toBytes := by
  unfold toBytes
  split
  · exact error trivial
  · exact ok _
  · split
    · refine bind (toIndex_ofValues _) fun n => ?_
      split
      · exact error trivial
      · exact bind (checkSize_ofValues _ trivial) fun _ => ok _
    · split
      · exact mapM toByte_ofValues _
      · exact error trivial

lemma encodeText_ofValues (text encoding substitution : String) :
    OfValues (encodeText text encoding substitution) := by
  unfold encodeText
  split
  · exact error trivial
  · split
    · exact ok _
    · exact error trivial
    · split
      · exact ok _
      · exact error trivial

lemma toName_ofValues (v : Value) : OfValues v.toName := by
  unfold toName
  split
  · split
    · exact error trivial
    · exact ok _
  · exact error trivial

lemma convertText_ofValues (v encoding substitution : Value) :
    OfValues (v.convertText encoding substitution) := by
  refine bind (toName_ofValues _) fun _ => bind (toName_ofValues _) fun _ => ?_
  split
  · exact map (encodeText_ofValues _ _ _)
  · exact error trivial

lemma less_ofValues (v w : Value) : OfValues (less v w) := by
  unfold less
  split
  · exact ok _
  · exact error trivial

lemma bestFrom_ofValues {better : Value → Value → Except Fault Bool}
    (h : ∀ v w, OfValues (better v w)) (best : Value) (vs : List Value) :
    OfValues (bestFrom better best vs) := by
  induction vs generalizing best with
  | nil => exact ok _
  | cons v vs ih => exact bind (h v best) fun _ => ih _

lemma extreme_ofValues {better : Value → Value → Except Fault Bool}
    (h : ∀ v w, OfValues (better v w)) (args : List Value) : OfValues (extreme better args) := by
  have hbest : ∀ vs, OfValues (best better vs) := by
    intro vs
    cases vs with
    | nil => exact error trivial
    | cons v vs => exact bestFrom_ofValues h v vs
  unfold extreme
  split
  · exact error trivial
  · split
    · exact hbest _
    · exact error trivial
  · exact hbest _

end Value

lemma Builtin.apply_ofValues (f : Builtin) (args : List Value) : OfValues (f.apply args) := by
  unfold Builtin.apply
  split
  · split
    · exact OfValues.ok _
    · exact OfValues.error trivial
  · exact OfValues.bind (Value.toInt_ofValues _) fun _ => OfValues.ok _
  · exact Value.extreme_ofValues Value.less_ofValues _
  · exact Value.extreme_ofValues (fun v w => Value.less_ofValues w v) _
  · exact OfValues.ok _
  · exact Value.convertInt_ofValues _
  · exact Value.convertRadix_ofValues _ _
  · exact OfValues.ok _
  · exact OfValues.ok _
  · exact OfValues.ok _
  · exact OfValues.map (Value.toBytes_ofValues _)
  · exact Value.convertText_ofValues _ _ _
  · exact Value.convertText_ofValues _ _ _
  · exact OfValues.error trivial

lemma Value.apply_faults (f : Value) (args : List Value) :
    (f.apply args).Faults Fault.ofValues := by
  unfold Value.apply
  split
  · exact Builtin.apply_ofValues _ args
  · exact Run.Faults.of_ok rfl
  · exact OfValues.error trivial

/-! ## Byte orders -/

namespace Value

open OfValues

lemma bitstringDisplay_eq_error {b : Bitstring} {f : Fault} (h : b.display = .error f) :
    f = .value := by
  rcases result_bind_eq_error.mp h with h | ⟨_, -, h⟩
  · unfold Bitstring.text at h
    split at h
    · cases h
      rfl
    · cases h
  · cases h

mutual

/-- A value has no text only if a bitstring in it has no digits. -/
lemma display_eq_error {f : Fault} : (v : Value) → v.display = .error f → f = .value
  | .bits _, h => bitstringDisplay_eq_error h
  | .tuple items, h => by
      rcases result_bind_eq_error.mp h with h | ⟨_, -, h⟩
      · exact displays_eq_error items h
      · cases h
  | .list items, h => by
      rcases result_bind_eq_error.mp h with h | ⟨_, -, h⟩
      · exact displays_eq_error items h
      · cases h
  | .dict entries, h => by
      rcases result_bind_eq_error.mp h with h | ⟨_, -, h⟩
      · exact displayEntries_eq_error entries h
      · cases h
  | .builtin g, h => by cases g <;> cases h

lemma displays_eq_error {f : Fault} : (vs : List Value) → displays vs = .error f → f = .value
  | v :: rest, h => by
      rcases result_bind_eq_error.mp h with h | ⟨_, -, h⟩
      · exact display_eq_error v h
      · rcases result_bind_eq_error.mp h with h | ⟨_, -, h⟩
        · exact displays_eq_error rest h
        · cases h

lemma displayEntries_eq_error {f : Fault} : (entries : List (String × Value)) →
    displayEntries entries = .error f → f = .value
  | (_, v) :: rest, h => by
      rcases result_bind_eq_error.mp h with h | ⟨_, -, h⟩
      · exact display_eq_error v h
      · rcases result_bind_eq_error.mp h with h | ⟨_, -, h⟩
        · exact displayEntries_eq_error rest h
        · cases h

end

lemma display_ofValues (v : Value) : OfValues v.display := by
  intro f h
  rw [display_eq_error v h]
  trivial

lemma namedEndian_ofValues (s : String) : OfValues (namedEndian s) := by
  unfold namedEndian
  split
  · exact ok _
  · exact error trivial

lemma toEndian_ofValues (v : Value) : OfValues v.toEndian := by
  unfold toEndian
  split
  · exact ok _
  · exact namedEndian_ofValues _
  · exact namedEndian_ofValues _
  · exact bind (display_ofValues v) fun _ => error trivial

end Value

lemma ByteOrder.ofName_ofValues (s : String) : OfValues (ByteOrder.ofName s) := by
  unfold ByteOrder.ofName
  split
  · exact OfValues.ok _
  · exact OfValues.error trivial

/-! ## What names a byte order -/

namespace Value

/-- A value that says what the byte order is: a member of the enumeration, or the name of one. -/
def NamesOrder (v : Value) : Prop :=
  ∃ e : Endian, v = .endian e ∨ v = .text e.name

lemma ofName_of_ne {s : String} (h : ∀ e : Endian, s ≠ e.name) :
    ByteOrder.ofName s = .error (.unknownOrder (Text.quoted s)) := by
  have hbig : s ≠ "big" := h .big
  have hlittle : s ≠ "little" := h .little
  have hnative : s ≠ "native" := h .native
  have hnone : ByteOrder.ofName? s = Option.none := by
    simp [ByteOrder.ofName?, hbig, hlittle, hnative]
  rw [ByteOrder.ofName, hnone]

/-- A value that says what the byte order is means one. -/
lemma NamesOrder.toByteOrder {v : Value} (h : v.NamesOrder) : ∃ o, v.toByteOrder = .ok o := by
  have hname (e : Endian) : ∃ o, ByteOrder.ofName e.name = .ok o := by
    cases e <;> exact ⟨_, rfl⟩
  obtain ⟨e, rfl | rfl⟩ := h
  · exact hname e
  · exact hname e

/-- Any other value is a fault of an unsuitable value, also where it cannot be shown. -/
lemma toByteOrder_of_not_namesOrder {v : Value} (h : ¬v.NamesOrder) :
    ∃ fault, v.toByteOrder = .error fault ∧ fault.kind = .value := by
  have hshown (v : Value) : ∃ fault,
      (v.display >>= fun s => (throw (.unknownOrder s) : Except Fault ByteOrder)) = .error fault ∧
        fault.kind = .value := by
    cases hdisplay : v.display with
    | ok s => exact ⟨_, rfl, rfl⟩
    | error fault =>
        obtain rfl := display_eq_error v hdisplay
        exact ⟨_, rfl, rfl⟩
  unfold Value.toByteOrder
  split
  · rename_i e
    exact absurd ⟨e, .inl rfl⟩ h
  · rename_i s
    exact ⟨_, ofName_of_ne fun e he => h ⟨e, .inr (congrArg Value.text he)⟩, rfl⟩
  · exact hshown v

end Value

end BitPattern
