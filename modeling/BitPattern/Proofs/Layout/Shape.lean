import BitPattern.Proofs.Value.Content

/-!
# Shapes of values

A shape says what a field of a layout holds: an integer of a width, a sign and a byte order, a
string of a number of bytes, or a bitstring of a number of bits.  Its bounds are those that the
types of fields have, so every shape is that of some field.

A value that fits a shape can be written in it (`Shape.append`), and the bits of a shape stand for a
value (`Shape.decode`).  The two are inverse: bits that were written stand for the value that was
written (`append_of_fits`), and the value that bits stand for is written as these bits
(`append_of_decode`).  The same holds of values one after the other (`writeAll_of_fits`,
`writeAll_of_decodeAll`), at whatever alignment each of them starts, because a writer is a bit
string and nothing else.

A value is read as `Value.asRead` of the one written: a truth value is read as a number, and bytes
of any kind as constant bytes.
-/

namespace BitPattern

open Bits

/-- The value that a field reads where a value was written. -/
def Value.asRead : Value → Value
  | bool b => .int (if b then 1 else 0)
  | bytes _ b => .ofBytes b
  | v => v

namespace Layout

/-! ## Shapes -/

/-- What a field of a layout holds. -/
inductive Shape where
  | int (width : Nat) (signed : Bool) (order : ByteOrder) (pos : 1 ≤ width) (le : width ≤ 64)
  | string (count : Nat) (pos : 1 ≤ count)
  | bits (width : Nat)

namespace Shape

/-- The number of bits of a shape. -/
def width : Shape → Nat
  | int width .. => width
  | string count _ => count * 8
  | bits width => width

/-- The type of a field with a shape. -/
def type : Shape → FieldType
  | int .. => .int
  | string .. => .string
  | bits _ => .bitstring

/-- A value that has a place in a shape. -/
def Fits : Shape → Value → Prop
  | int width signed .., v => ∃ n, v.int? = some n ∧ InRange signed width n
  | string count _, v => ∃ kind b, v = .bytes kind b ∧ b.length = count
  | bits width, v => ∃ b, v = .bits b ∧ b.length = width

/-- Appends a value to a writer in the way that is meant for its shape. -/
def append (shape : Shape) (w : Writer) (v : Value) : Except Fault Writer :=
  match shape, v with
  | int width signed order .., v => do
    let n ← v.toScalar
    w.appendInt n (width : Int) signed (.ok order)
  | string .., .bytes _ b => .ok (w.appendBytes b)
  | bits _, .bits b => .ok (w.appendBitstring b)
  | string .., _ | bits _, _ => .error .type

/-- The value that bits stand for. -/
def decode : Shape → List Bool → Value
  | int _ signed order .., stream => .int (Bits.decode signed order stream)
  | string count _, stream => .ofBytes (bytesOf count (value stream))
  | bits _, stream => .bits (.ofBits stream)

/-! ## Single values -/

lemma ofBytes_bytesOf_value {count : Nat} {bits : List Bool} (h : bits.length = count * 8) :
    ofBytes (bytesOf count (value bits)) = bits := by
  rw [ofBytes_bytesOf, ← h, ofNat_value]

lemma bytesOf_value_ofBytes (b : Bytes) : bytesOf b.length (value (ofBytes b)) = b :=
  ofBytes_injective (ofBytes_bytesOf_value (length_ofBytes b))

lemma toScalar_of_int? {v : Value} {n : Int} (h : v.int? = some n) :
    ∃ s, v.toScalar = .ok s ∧ s.toInt = n ∧ v.asRead.content = .int n := by
  cases v with
  | int m =>
      cases h
      exact ⟨.number n, rfl, rfl, rfl⟩
  | bool b =>
      cases h
      exact ⟨.truth b, rfl, by cases b <;> rfl, rfl⟩
  | _ => cases h

/-- **Writing.** A value that fits is written as bits that stand for it. -/
lemma append_of_fits {shape : Shape} {v : Value} (h : shape.Fits v) (w : Writer) :
    ∃ w' bits, shape.append w v = .ok w' ∧ w'.bits = w.bits ++ bits ∧
      bits.length = shape.width ∧ shape.decode bits = v.asRead.content := by
  cases shape with
  | int width signed order pos le =>
      obtain ⟨n, hn, hrange⟩ := h
      obtain ⟨s, hs, rfl, hread⟩ := toScalar_of_int? hn
      -- The integer is in range, so it has a pattern of bits; reading that gives the integer back.
      have hraw : encode s (width : Int) signed (.ok order) =
          .ok (order.toStream width (s.toInt % bound width).toNat) :=
        encode_eq_ok.mpr ⟨Int.natCast_pos.mpr pos, hrange, rfl⟩
      obtain ⟨w', happend, hbits⟩ := Writer.bits_appendInt (w := w) hraw
      refine ⟨w', _, ?_, hbits, length_ofNat _ _, ?_⟩
      · simp only [append, hs]
        exact happend
      · rw [hread, decode, decode_of_encode hraw]
  | string count pos =>
      obtain ⟨kind, b, rfl, rfl⟩ := h
      refine ⟨_, ofBytes b, rfl, w.bits_appendBytes b, length_ofBytes b, ?_⟩
      rw [decode, bytesOf_value_ofBytes]
      rfl
  | bits width =>
      obtain ⟨b, rfl, rfl⟩ := h
      refine ⟨_, b.bits, rfl, w.bits_appendBitstring b, b.length_bits, ?_⟩
      rw [decode, ← b.content_eq_ofBits]
      rfl

/-- **Writing back.** The value that bits stand for is written as these bits, wherever its bitstring
lies. -/
lemma append_of_decode {shape : Shape} {v : Value} {bits : List Bool}
    (hlen : bits.length = shape.width) (h : v.content = shape.decode bits) (w : Writer) :
    ∃ w', shape.append w v = .ok w' ∧ w'.bits = w.bits ++ bits := by
  cases shape with
  | int width signed order pos le =>
      have hv : v = .int (Bits.decode signed order bits) := by
        cases v <;> simp_all [decode, Value.content]
      have hlen : bits.length = width := hlen
      subst hv hlen
      obtain ⟨w', happend, hbits⟩ := Writer.bits_appendInt (w := w)
        (encode_decode signed order pos)
      exact ⟨w', happend, hbits.trans (congrArg _ (ofNat_value bits))⟩
  | string count pos =>
      have hv : v = .ofBytes (bytesOf count (value bits)) := by
        cases v <;> simp_all [decode, Value.content, Value.ofBytes]
      subst hv
      refine ⟨_, rfl, ?_⟩
      rw [w.bits_appendBytes, ofBytes_bytesOf_value hlen]
  | bits width =>
      obtain ⟨b, rfl, hb⟩ : ∃ b, v = .bits b ∧ b.content = .ofBits bits := by
        cases v <;> simp_all [decode, Value.content]
      have hbits : b.bits = bits := by
        rw [← b.content_bits, hb, Bitstring.ofBits, Writer.build_bits, Writer.bits, ofNat_value]
      refine ⟨_, rfl, ?_⟩
      rw [w.bits_appendBitstring, hbits]

end Shape

/-! ## Values one after the other -/

/-- The number of bits of several shapes. -/
def totalWidth (shapes : List Shape) : Nat :=
  (shapes.map Shape.width).sum

/-- Appends values one after the other, each in its shape. -/
def writeAll (w : Writer) : List Shape → List Value → Except Fault Writer
  | shape :: shapes, v :: vs => do
    let w ← shape.append w v
    writeAll w shapes vs
  | _, _ => .ok w

/-- The values that bits stand for, one after the other. -/
def decodeAll : List Shape → List Bool → List Value
  | [], _ => []
  | shape :: shapes, bits =>
    shape.decode (bits.take shape.width) :: decodeAll shapes (bits.drop shape.width)

lemma totalWidth_cons (shape : Shape) (shapes : List Shape) :
    totalWidth (shape :: shapes) = shape.width + totalWidth shapes := by
  simp [totalWidth]

/-- Values that fit are written as bits that stand for them. -/
theorem writeAll_of_fits {shapes : List Shape} {vs : List Value}
    (h : List.Forall₂ Shape.Fits shapes vs) (w : Writer) :
    ∃ w' bits, writeAll w shapes vs = .ok w' ∧ w'.bits = w.bits ++ bits ∧
      bits.length = totalWidth shapes ∧
      decodeAll shapes bits = vs.map fun v => v.asRead.content := by
  induction h generalizing w with
  | nil => exact ⟨w, [], rfl, (List.append_nil _).symm, rfl, rfl⟩
  | @cons shape v shapes vs hv _ ih =>
      obtain ⟨w₁, first, happend, hbits₁, hlen₁, hfirst⟩ := Shape.append_of_fits hv w
      obtain ⟨w₂, rest, hwrite, hbits₂, hlen₂, hrest⟩ := ih w₁
      refine ⟨w₂, first ++ rest, ?_, ?_, ?_, ?_⟩
      · rw [writeAll, happend]
        exact hwrite
      · rw [hbits₂, hbits₁, List.append_assoc]
      · rw [List.length_append, hlen₁, hlen₂, totalWidth_cons]
      · rw [decodeAll, ← hlen₁, List.take_left, List.drop_left, hfirst, hrest, List.map_cons]

/-- The values that bits stand for are written as these bits, up to where the last of them ends. -/
theorem writeAll_of_decodeAll {shapes : List Shape} {vs : List Value} {bits : List Bool}
    (hlen : totalWidth shapes ≤ bits.length)
    (h : vs.map Value.content = decodeAll shapes bits) (w : Writer) :
    ∃ w', writeAll w shapes vs = .ok w' ∧ w'.bits = w.bits ++ bits.take (totalWidth shapes) := by
  induction shapes generalizing vs bits w with
  | nil => exact ⟨w, by simp [writeAll], by simp [totalWidth]⟩
  | cons shape shapes ih =>
      rw [totalWidth_cons] at hlen ⊢
      obtain ⟨v, vs, rfl, hv, hvs⟩ := List.map_eq_cons_iff.mp h
      obtain ⟨w₁, happend, hbits₁⟩ := Shape.append_of_decode
        (by rw [List.length_take]; omega) hv w
      obtain ⟨w₂, hwrite, hbits₂⟩ := ih (by rw [List.length_drop]; omega) hvs w₁
      refine ⟨w₂, ?_, ?_⟩
      · rw [writeAll, happend]
        exact hwrite
      · rw [hbits₂, hbits₁, List.append_assoc, List.take_add]

end Layout

end BitPattern
