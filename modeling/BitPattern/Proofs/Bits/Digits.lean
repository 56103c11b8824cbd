import BitPattern.Proofs.Bits.History

/-!
# The digits of a bitstring

A bitstring is written with one digit for each bit in view, and those digits are all that can be
observed of it: `Bitstring.digits_describe`.  Equality and hashing compare them, reading them back
gives an equal bitstring, the members, the bytes, the ranges and the sums of bitstrings are those of
the digits, and whatever is read from one of two equal bitstrings is read from the other, wherever
they lie (`Bitstring.readAlike_of_same`).

A length that was given as a truth value is no number to write digits in, so the one bit of a
bitstring with the length `true` has no digit (`Bitstring.text_eq`).  Nothing else depends on how
offset and length were given, but for the size that a fault shows.
-/

namespace BitPattern

namespace Bits

/-! ## Digits of bit strings -/

lemma toList_text (bits : List Bool) :
    (text bits).toList = bits.map fun b => if b then '1' else '0' :=
  String.toList_ofList

@[simp] lemma length_text (bits : List Bool) : (text bits).length = bits.length := by
  rw [text, String.length_ofList, List.length_map]

lemma text_append (a b : List Bool) : text (a ++ b) = text a ++ text b := by
  rw [text, text, text, List.map_append, String.ofList_append]

lemma text_inj {a b : List Bool} : text a = text b ↔ a = b := by
  refine ⟨fun h => ?_, congrArg text⟩
  have hdigit : Function.Injective fun b : Bool => if b then '1' else '0' := by decide
  exact List.map_injective_iff.mpr hdigit (String.ofList_injective h)

/-- A range of the digits of some bits are the digits of that range. -/
lemma text_slice (bits : List Bool) (offset width : Nat) :
    String.ofList (((text bits).toList.drop offset).take width) =
      text ((bits.drop offset).take width) := by
  rw [toList_text, text, List.map_take, List.map_drop]

/-- The digits of some bits are binary, so they are read as those bits. -/
lemma text_digits (bits : List Bool) :
    text bits = String.ofList (Writer.binaryDigits (text bits)) := by
  rw [Writer.binaryDigits, List.filter_eq_self.mpr, String.ofList_toList]
  intro c hc
  rw [toList_text] at hc
  obtain ⟨b, -, rfl⟩ := List.mem_map.mp hc
  cases b <;> decide

end Bits

namespace Bitstring

open Bits

/-! ## Writing digits -/

/-- A length that was given as the truth value of one. -/
lemma givenLength_eq_truth {b : Bitstring} :
    b.givenLength = .truth true ↔ b.lengthIsTruth = true ∧ b.length ≠ 0 := by
  cases htruth : b.lengthIsTruth <;> simp [givenLength, Scalar.ofNat, htruth]

lemma toInt_givenLength (b : Bitstring) : b.givenLength.toInt = b.length :=
  Scalar.toInt_ofNat b.length_le_one

/-- There is a digit for each bit, unless the length was given as the truth value of one. -/
lemma text_eq (b : Bitstring) :
    b.text = if b.givenLength = .truth true then .error .value else .ok (Bits.text b.bits) := by
  have hbits : ofNat b.length b.value = b.bits := by
    rw [b.value_eq, ← b.length_bits, ofNat_value]
  simp only [text, hbits, givenLength_eq_truth, Bool.and_eq_true, bne_iff_ne]

lemma text_eq_ok {b : Bitstring} {s : String} :
    b.text = .ok s ↔ b.givenLength ≠ .truth true ∧ s = Bits.text b.bits := by
  rw [text_eq]
  split
  · rename_i h
    exact ⟨fun h' => (by cases h'), fun h' => absurd h h'.1⟩
  · rename_i h
    rw [Except.ok.injEq, eq_comm]
    exact ⟨fun h' => ⟨h, h'⟩, fun h' => h'.2⟩

/-- Digits that are read make a bitstring with those digits. -/
lemma ofText_text (bits : List Bool) :
    ∃ c, Bitstring.ofText (Bits.text bits) = .ok c ∧ c.bits = bits := by
  have happend := Writer.append_of_writes (.digits (text_digits bits)) Writer.empty
  simp only [Writer.Step.append, Writer.appendDigits] at happend
  refine ⟨_, by rw [Bitstring.ofText, happend]; rfl, ?_⟩
  rw [Writer.build_bits, Writer.bits_push _ (value_lt bits), ofNat_value, Writer.bits_empty,
    List.nil_append]

/-! ## Ranges of the view -/

/-- A range of bits lies in the view. -/
structure HasRange (b : Bitstring) (offset width : Int) : Prop where
  offset_nonneg : 0 ≤ offset
  width_nonneg : 0 ≤ width
  stop_le : offset + width ≤ b.length

/-- The bits of a range of the view. -/
def range (b : Bitstring) (offset width : Int) : List Bool :=
  (b.bits.drop offset.toNat).take width.toNat

section Range

variable {b : Bitstring} {offset width : Int}

lemma HasRange.fits (h : b.HasRange offset width) : Fits b.data (b.offset + offset) width := by
  obtain ⟨h0, h1, h2⟩ := h
  have hfits := b.fits
  exact ⟨by omega, h1, by omega⟩

/-- A range of the view is a window of the buffer. -/
lemma HasRange.window_eq (h : b.HasRange offset width) :
    window b.data (b.offset + offset).toNat width.toNat = b.range offset width := by
  obtain ⟨h0, h1, h2⟩ := h
  have hstart : (b.offset + offset).toNat - b.offset = offset.toNat := by omega
  rw [b.window_eq (by omega) (by omega), hstart, range]

lemma locate_of_hasRange {offset : Scalar} (h : b.HasRange offset.toInt width) :
    b.locate offset width = .ok (b.offset + offset.toInt) := by
  obtain ⟨h0, h1, h2⟩ := h
  have hinside : ¬(offset.toInt < 0 ∨ width < 0) ∧ ¬(b.length : Int) < offset.toInt + width := by
    omega
  simp [locate, hinside]

lemma locate_of_not_hasRange {offset : Scalar} (h : ¬b.HasRange offset.toInt width) :
    b.locate offset width =
      .error (.outside offset (offset.toInt + width) b.givenLength .bitstring) := by
  have houtside : (offset.toInt < 0 ∨ width < 0) ∨ (b.length : Int) < offset.toInt + width := by
    by_contra hinside
    exact h ⟨by omega, by omega, by omega⟩
  simp [locate, houtside]

end Range

section Reading

variable {b : Bitstring} {offset width : Scalar}

/-- An integer is read from the bits of its range, once there is a byte order. -/
lemma getInt_of_hasRange (h : b.HasRange offset.toInt width.toInt) (signed : Bool)
    (order : Except Fault ByteOrder) :
    b.getInt offset width signed order =
      (fun o => decode signed o (b.range offset.toInt width.toInt)) <$> order := by
  have hfits := h.fits
  rw [Bitstring.getInt, locate_of_hasRange h]
  cases order with
  | ok o =>
      have hread := @getInt_eq b.data (.number (b.offset + offset.toInt)) width signed o hfits
      refine hread.trans (congrArg (fun bits => Except.ok (decode signed o bits)) ?_)
      exact h.window_eq
  | error f =>
      change (checkWindow b.data (.number (b.offset + offset.toInt)) width.toInt >>= _) = _
      rw [checkWindow_eq_ok.mpr hfits]
      rfl

lemma getBytes_of_hasRange (h : b.HasRange offset.toInt (width.toInt * 8)) :
    b.getBytes offset width =
      .ok (bytesOf width.toNat (Bits.value (b.range offset.toInt (width.toInt * 8)))) := by
  have hwidth : (width.toInt * 8).toNat = width.toNat * 8 := by
    rw [Scalar.toNat]
    omega
  have hread := @getBytes_eq b.data (.number (b.offset + offset.toInt)) width h.fits
  rw [Bitstring.getBytes, locate_of_hasRange h, ← h.window_eq, hwidth]
  exact hread

/-- A view keeps its length as it was given, unless that stood for all that follows the offset. -/
lemma givenLength_of_view {data : Bytes} {offset length : Scalar} {c : Bitstring}
    (h : view data offset length = .ok c) (hrest : length.toInt ≠ -1) : c.givenLength = length := by
  unfold view at h
  simp only [hrest, if_false] at h
  split at h
  · rename_i hinside
    cases h
    cases length with
    | number n => exact congrArg Scalar.number (Int.toNat_of_nonneg hinside.2.2)
    | truth t => cases t <;> rfl
  · cases h

/-- A range of the view is viewed as a bitstring with the bits of the range. -/
lemma sub_of_hasRange (h : b.HasRange offset.toInt width.toInt) :
    ∃ c, b.sub offset width = .ok c ∧ c.bits = b.range offset.toInt width.toInt ∧
      c.givenLength = width := by
  obtain ⟨c, hview, -, -, -, hbits⟩ :=
    @view_eq b.data (.number (b.offset + offset.toInt)) width h.fits
  have hrest : width.toInt ≠ -1 := by
    have := h.width_nonneg
    omega
  refine ⟨c, ?_, hbits.trans h.window_eq, givenLength_of_view hview hrest⟩
  rw [Bitstring.sub, locate_of_hasRange h]
  exact hview

lemma sub_eq_ok {c : Bitstring} (h : b.sub offset width = .ok c) :
    b.HasRange offset.toInt width.toInt ∧ c.bits = b.range offset.toInt width.toInt ∧
      c.givenLength = width := by
  by_cases hrange : b.HasRange offset.toInt width.toInt
  · obtain ⟨c', hsub, hbits, hgiven⟩ := sub_of_hasRange hrange
    cases h.symm.trans hsub
    exact ⟨hrange, hbits, hgiven⟩
  · rw [Bitstring.sub, locate_of_not_hasRange hrange] at h
    cases h

end Reading

/-! ## Equal bitstrings -/

/-- Equal faults, but for the size of two bitstrings, which either shows as it was given. -/
def SameMiss (a b : Bitstring) (e f : Fault) : Prop :=
  e = f ∨ ∃ low high, e = .outside low high a.givenLength .bitstring ∧
    f = .outside low high b.givenLength .bitstring

/-- A range that lies in neither of two views is missed in both. -/
lemma miss {α : Type} {R : α → α → Prop} {a b : Bitstring} {offset : Scalar} {width : Int}
    (ha : ¬a.HasRange offset.toInt width) (hb : ¬b.HasRange offset.toInt width)
    (f g : Int → Except Fault α) :
    Run.SameEnd (SameMiss a b) R (a.locate offset width >>= f) (b.locate offset width >>= g) := by
  rw [locate_of_not_hasRange ha, locate_of_not_hasRange hb]
  exact .inr ⟨offset, _, rfl, rfl⟩

/-- What is read from two bitstrings, and what is made of them, is the same. -/
structure ReadAlike (a b : Bitstring) : Prop where
  getInt : ∀ offset width signed order, Run.SameEnd (SameMiss a b) (· = ·)
    (a.getInt offset width signed order) (b.getInt offset width signed order)
  getBytes : ∀ offset count, Run.SameEnd (SameMiss a b) (· = ·)
    (a.getBytes offset count) (b.getBytes offset count)
  sub : ∀ offset length, Run.SameEnd (SameMiss a b)
    (fun c d => c.same d = true ∧ c.givenLength = d.givenLength)
    (a.sub offset length) (b.sub offset length)
  append : ∀ c, a.append c = b.append c ∧ c.append a = c.append b
  toBytes : a.toBytes = b.toBytes
  toList : a.toList = b.toList
  /-- The sizes that faults show stand for the same number. -/
  size : a.givenLength.toInt = b.givenLength.toInt

/-- **Equal bitstrings are read alike**, whatever their buffers and offsets. -/
lemma readAlike_of_same {a b : Bitstring} (h : a.same b = true) : ReadAlike a b := by
  have hbits := same_iff.mp h
  obtain ⟨hlength, hvalue⟩ := bits_injective hbits
  have hrange {offset width : Int} : a.HasRange offset width ↔ b.HasRange offset width := by
    constructor
    · rintro ⟨h0, h1, h2⟩
      exact ⟨h0, h1, hlength ▸ h2⟩
    · rintro ⟨h0, h1, h2⟩
      exact ⟨h0, h1, hlength ▸ h2⟩
  have hpart (offset width : Int) : a.range offset width = b.range offset width := by
    rw [range, range, hbits]
  -- What is read inside the view is a function of the bits; outside both fail, with the sizes that
  -- they were given.
  refine ⟨fun offset width signed order => ?_, fun offset count => ?_, fun offset length => ?_,
    fun c => ?_, ?_, ?_, ?_⟩
  · by_cases hin : a.HasRange offset.toInt width.toInt
    · rw [getInt_of_hasRange hin, getInt_of_hasRange (hrange.mp hin), hpart]
      exact .refl (fun f => .inl rfl) (fun n => rfl) _
    · exact miss hin (mt hrange.mpr hin) _ _
  · by_cases hin : a.HasRange offset.toInt (count.toInt * 8)
    · rw [getBytes_of_hasRange hin, getBytes_of_hasRange (hrange.mp hin), hpart]
      exact .refl (fun f => .inl rfl) (fun n => rfl) _
    · exact miss hin (mt hrange.mpr hin) _ _
  · by_cases hin : a.HasRange offset.toInt length.toInt
    · obtain ⟨c, hc, hcbits, hcgiven⟩ := sub_of_hasRange hin
      obtain ⟨d, hd, hdbits, hdgiven⟩ := sub_of_hasRange (hrange.mp hin)
      rw [hc, hd]
      exact ⟨same_iff.mpr (by rw [hcbits, hdbits, hpart]), hcgiven.trans hdgiven.symm⟩
    · exact miss hin (mt hrange.mpr hin) _ _
  · simp only [Bitstring.append, Writer.appendBitstring, hlength, hvalue, and_self]
  · simp only [Bitstring.toBytes, hlength, hvalue]
  · rw [toList_eq, toList_eq, hbits]
  · rw [toInt_givenLength, toInt_givenLength, hlength]

/-! ## What the digits say -/

/-- The digits of a bitstring say all that can be observed of it. -/
structure Described (b : Bitstring) : Prop where
  /-- The digits are those of the bits in view.  A bitstring with the length `true` has none. -/
  text_eq : b.text = if b.givenLength = .truth true then .error .value else .ok (Bits.text b.bits)
  /-- There is one digit for each bit. -/
  length_eq : ∀ s, b.text = .ok s → s.length = b.length
  /-- Bitstrings are equal if and only if their digits are. -/
  same_iff : ∀ c s t, b.text = .ok s → c.text = .ok t → (b.same c = true ↔ s = t)
  /-- Equal bitstrings have the same hash. -/
  hashKey_eq : ∀ c, b.same c = true → b.hashKey = c.hashKey
  /-- The digits are read as an equal bitstring. -/
  ofText_eq : ∀ s, b.text = .ok s → ∃ c, ofText s = .ok c ∧ c.same b = true
  /-- The members are the digits, in order. -/
  toList_eq : ∀ s, b.text = .ok s → b.toList.map Nat.digitChar = s.toList
  /-- The digits of two bitstrings follow each other in their sum. -/
  append_text : ∀ c s t, b.text = .ok s → c.text = .ok t → (b.append c).text = .ok (s ++ t)
  /-- A range is viewed if and only if it lies in the view. -/
  sub_ok_iff : ∀ offset length : Scalar, (∃ c, b.sub offset length = .ok c) ↔
    0 ≤ offset.toInt ∧ 0 ≤ length.toInt ∧ offset.toInt + length.toInt ≤ b.length
  /-- The digits of a range are that range of the digits. -/
  sub_text : ∀ offset length c s, b.sub offset length = .ok c → b.text = .ok s →
    c.givenLength = length ∧ (length ≠ .truth true →
      c.text = .ok (String.ofList ((s.toList.drop offset.toNat).take length.toNat)))
  /-- The bytes have the digits, and zeros up to a whole number of bytes. -/
  toBytes_text : ∀ s, b.text = .ok s → ∃ pad < 8,
    Bits.text (Bits.ofBytes b.toBytes) = s ++ String.ofList (List.replicate pad '0')
  /-- Whatever is read from an equal bitstring is the same. -/
  readAlike : ∀ c, b.same c = true → ReadAlike b c

/-- **The digits describe a bitstring.**  This holds of every buffer, offset and length, however
they were given. -/
theorem digits_describe (b : Bitstring) : b.Described where
  text_eq := b.text_eq
  length_eq s hs := by
    obtain ⟨-, rfl⟩ := text_eq_ok.mp hs
    rw [length_text, length_bits]
  same_iff c s t hs ht := by
    obtain ⟨-, rfl⟩ := text_eq_ok.mp hs
    obtain ⟨-, rfl⟩ := text_eq_ok.mp ht
    rw [Bitstring.same_iff, text_inj]
  hashKey_eq c h := by
    obtain ⟨hlength, hvalue⟩ := bits_injective (Bitstring.same_iff.mp h)
    rw [hashKey, hashKey, hlength, hvalue]
  ofText_eq s hs := by
    obtain ⟨-, rfl⟩ := text_eq_ok.mp hs
    obtain ⟨c, hc, hbits⟩ := ofText_text b.bits
    exact ⟨c, hc, Bitstring.same_iff.mpr hbits⟩
  toList_eq s hs := by
    obtain ⟨-, rfl⟩ := text_eq_ok.mp hs
    rw [Bitstring.toList_eq, toList_text, List.map_map]
    refine List.map_congr_left fun bit _ => ?_
    cases bit <;> rfl
  append_text c s t hs ht := by
    obtain ⟨-, rfl⟩ := text_eq_ok.mp hs
    obtain ⟨-, rfl⟩ := text_eq_ok.mp ht
    exact text_eq_ok.mpr ⟨nofun, by rw [append_bits, text_append]⟩
  sub_ok_iff offset length := by
    constructor
    · rintro ⟨c, hc⟩
      obtain ⟨⟨h0, h1, h2⟩, -⟩ := sub_eq_ok hc
      exact ⟨h0, h1, h2⟩
    · rintro ⟨h0, h1, h2⟩
      obtain ⟨c, hc, -⟩ := sub_of_hasRange ⟨h0, h1, h2⟩
      exact ⟨c, hc⟩
  -- A part has the length it was asked for, and with the length `true` no digits.
  sub_text offset length c s hc hs := by
    obtain ⟨-, rfl⟩ := text_eq_ok.mp hs
    obtain ⟨-, hbits, hgiven⟩ := sub_eq_ok hc
    refine ⟨hgiven, fun hnumber => text_eq_ok.mpr ⟨hgiven ▸ hnumber, ?_⟩⟩
    rw [hbits, text_slice]
    rfl
  toBytes_text s hs := by
    obtain ⟨-, rfl⟩ := text_eq_ok.mp hs
    -- The zeros that fill the last byte.
    refine ⟨b.toBytes.length * 8 - b.length, ?_, ?_⟩
    · rw [toBytes, length_bytesOf]
      omega
    · rw [Writer.ofBytes_toBytes, text_append, Bits.text, Bits.text, List.map_replicate]
      rfl
  readAlike c h := readAlike_of_same h

/-- The one bit of a view with the length `true` is there, but it has no digit. -/
theorem truth_length_without_digits :
    ∃ b, view [0x80] (.number 0) (.truth true) = .ok b ∧ b.bits = [true] ∧ b.length = 1 ∧
      b.text = .error .value := by
  refine ⟨_, rfl, ?_, rfl, rfl⟩
  decide

end Bitstring

end BitPattern
