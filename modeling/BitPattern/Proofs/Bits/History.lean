import BitPattern.Proofs.Bits.Writer
import BitPattern.Proofs.Run.Lift
import BitPattern.Value.Subject

/-!
# The history of a writer

A writer is used in place: its steps follow one another, and a step that fails raises a fault.
`Step.perform` runs a step in the order in which it changes the writer: what is to be pushed is
computed, the number is shifted and assigned, and only then the length is counted up.  `perform_eq`
says that this is the step as a function of the writer.

What a step stands for is a bit string that does not depend on the writer: `Step.Writes` says which
one by how it is read, and `Step.piece?` computes it.  The main result is `history_faithful`: after
any steps, of which some may have failed, the writer holds the pieces of the others one after the
other, building is free of faults, and every piece is read back at the sum of the lengths before it.
-/

namespace BitPattern

open Bits

namespace Writer

/-! ## Steps in place -/

/-- A step of a writer, with the arguments that the caller gives. -/
inductive Step where
  | int (value width : Scalar) (signed : Bool) (order : Value)
  | bytes (data : Value)
  | digits (text : Value)
  | bitstring (b : Bitstring)
  | skip (width : Scalar)

namespace Step

/-- The writer after a step, or the fault that the step raises. -/
def append (w : Writer) : Step → Except Fault Writer
  | int value width signed order => w.appendInt value width signed order.toByteOrder
  | bytes data => do pure (w.appendBytes (← data.toBytes))
  | digits text => w.appendDigits text
  | bitstring b => .ok (w.appendBitstring b)
  | skip width => w.skip width

/-- The number that a step pushes and the width it does so in, which are computed before the writer
is touched. -/
def pushed : Step → Except Fault (Nat × Int)
  | int value width signed order => do
    let raw ← encode value width signed order.toByteOrder
    pure (raw, width.toInt)
  | bytes data => do
    let data ← data.toBytes
    pure (bytesValue data, (data.length * 8 : Nat))
  | digits text => do
    let digits ← empty.appendDigits text
    pure (digits.value, (digits.length : Nat))
  | bitstring b => .ok (b.value, b.length)
  | skip width => .ok (0, width.toInt)

end Step

/-- Pushes a number in place.  The shift, which refuses a negative width, comes first. -/
def pushInPlace (w : Writer) (raw : Nat) (width : Int) : Except Fault Unit × Writer :=
  if width < 0 then (.error .value, w)
  else
    let shifted := { w with value := w.value <<< width.toNat ||| raw }
    let counted := { shifted with length := shifted.length + width.toNat }
    (.ok (), counted)

/-- Runs a step in place: what it raises, if anything, and the writer as it is then. -/
def Step.perform (s : Step) (w : Writer) : Except Fault Unit × Writer :=
  match s.pushed with
  | .error fault => (.error fault, w)
  | .ok (raw, width) => w.pushInPlace raw width

lemma pushInPlace_natCast (w : Writer) (raw width : Nat) :
    w.pushInPlace raw width = (.ok (), w.push raw width) := by
  rw [pushInPlace, if_neg (by omega)]
  rfl

@[simp] lemma push_empty (raw width : Nat) : empty.push raw width = ⟨raw, width⟩ := by
  simp [push, empty]

/-- A byte string has no digits, so it is appended exactly if it is blank. -/
lemma appendDigits_bytes (w : Writer) {kind : BytesKind} (hkind : kind ≠ .view) (b : Bytes) :
    w.appendDigits (.bytes kind b) =
      if b.all fun byte => Text.isAsciiWhite (Text.latinChar byte) then .ok w
      else .error .type := by
  cases kind with
  | view => exact absurd rfl hkind
  | constant => rfl
  | mutable => rfl

/-- Digits push on any writer what they push on an empty one. -/
lemma appendDigits_eq (w : Writer) (text : Value) :
    w.appendDigits text = (do
      let digits ← empty.appendDigits text
      pure (w.push digits.value digits.length)) := by
  cases text with
  | text s =>
      simp only [appendDigits, appendBits, push_empty]
      split <;> rfl
  | bytes kind b =>
      by_cases hkind : kind = .view
      · rw [hkind]
        rfl
      · have hblank : w.push empty.value empty.length = w := by simp [push, empty]
        rw [appendDigits_bytes w hkind, appendDigits_bytes empty hkind]
        split
        · exact congrArg Except.ok hblank.symm
        · rfl
  | _ => rfl

/-- An integer that is encoded has a width to push it in. -/
lemma width_nonneg_of_encode {v width : Scalar} {signed : Bool} {order : Except Fault ByteOrder}
    {raw : Nat} (h : encode v width signed order = .ok raw) : 0 ≤ width.toInt := by
  unfold encode at h
  by_contra hneg
  rw [if_pos (by omega)] at h
  cases h

/-- Running a step in place is the step: it ends in the same writer, or it raises the same fault and
leaves the writer as it is. -/
lemma perform_eq (s : Step) (w : Writer) :
    s.perform w = match s.append w with
      | .ok w' => (.ok (), w')
      | .error fault => (.error fault, w) := by
  cases s with
  | int value width signed order =>
      simp only [Step.perform, Step.pushed, Step.append, appendInt]
      cases hraw : encode value width signed order.toByteOrder with
      | error fault => rfl
      | ok raw =>
          have hwidth : width.toInt = (width.toNat : Int) :=
            (Int.toNat_of_nonneg (width_nonneg_of_encode hraw)).symm
          show w.pushInPlace raw width.toInt = (.ok (), w.push raw width.toNat)
          -- The width was checked by the encoding, so it is a natural number.
          rw [hwidth, pushInPlace_natCast]
  | bytes data =>
      simp only [Step.perform, Step.pushed, Step.append]
      cases data.toBytes with
      | error fault => rfl
      | ok b => exact pushInPlace_natCast w _ _
  | digits text =>
      simp only [Step.perform, Step.pushed, Step.append]
      rw [appendDigits_eq w text]
      cases empty.appendDigits text with
      | error fault => rfl
      | ok digits => exact pushInPlace_natCast w _ _
  | bitstring b => exact pushInPlace_natCast w _ _
  | skip width =>
      simp only [Step.perform, Step.pushed, Step.append, pushInPlace, skip]
      split <;> rfl

/-! ## What steps write -/

/-- The bits that a step stands for, by how they are read: an integer in its width, sign and byte
order, the contents of a byte string, the digits of a text, a bitstring, and zeros. -/
inductive Step.Writes : Step → List Bool → Prop
  | int {value width : Scalar} {signed : Bool} {order : Value} {o : ByteOrder} {bits : List Bool}
      (horder : order.toByteOrder = .ok o) (hpos : 0 < width.toInt)
      (hlen : (bits.length : Int) = width.toInt) (hread : decode signed o bits = value.toInt) :
      Writes (.int value width signed order) bits
  | bytes {data : Value} {content : Bytes} (h : data.toBytes = .ok content) :
      Writes (.bytes data) (ofBytes content)
  | digits {s : String} {bits : List Bool}
      (h : Bits.text bits = String.ofList (binaryDigits s)) :
      Writes (.digits (.text s)) bits
  | blank {kind : BytesKind} {content : Bytes} (hkind : kind ≠ .view)
      (h : ∀ byte ∈ content, Text.isAsciiWhite (Text.latinChar byte) = true) :
      Writes (.digits (.bytes kind content)) []
  | bitstring (b : Bitstring) : Writes (.bitstring b) b.bits
  | skip {width : Scalar} (h : 0 ≤ width.toInt) :
      Writes (.skip width) (List.replicate width.toNat false)

/-- The bits of a text of binary digits are those that the digits are read as. -/
lemma digits_of_text {cs : List Char} {bits : List Bool} (h : Bits.text bits = String.ofList cs) :
    (cs.all fun c => c == '0' || c == '1') = true ∧ cs.map (· == '1') = bits := by
  have hcs : cs = bits.map fun b => if b then '1' else '0' := by
    have := congrArg String.toList h
    simpa [Bits.text] using this.symm
  subst hcs
  constructor
  · rw [List.all_map, List.all_eq_true]
    intro b _
    cases b <;> rfl
  · rw [List.map_map]
    conv_rhs => rw [← List.map_id bits]
    refine List.map_congr_left fun b _ => ?_
    cases b <;> rfl

/-- Digits that are binary are the text of the bits that they are read as. -/
lemma text_of_digits {cs : List Char} (h : (cs.all fun c => c == '0' || c == '1') = true) :
    Bits.text (cs.map (· == '1')) = String.ofList cs := by
  rw [Bits.text, List.map_map]
  congr 1
  conv_rhs => rw [← List.map_id cs]
  refine List.map_congr_left fun c hc => ?_
  have hc := List.all_eq_true.mp h c hc
  simp only [Bool.or_eq_true, beq_iff_eq] at hc
  rcases hc with rfl | rfl <;> rfl

/-- A step appends the bits that it stands for, whatever has been written before. -/
lemma append_of_writes {s : Step} {bits : List Bool} (h : s.Writes bits) (w : Writer) :
    s.append w = .ok (w.push (Bits.value bits) bits.length) := by
  cases h with
  | int horder hpos hlen hread =>
      rename_i v width signed order o
      have hbits : 0 < bits.length := by omega
      obtain ⟨-, hrange, hraw⟩ := encode_eq_ok.mp (encode_decode signed o hbits)
      have hwidth : width.toNat = bits.length := by
        rw [Scalar.toNat]
        omega
      -- The digits that are read as the value are those that the value is encoded as.
      have hencode : encode v width signed (.ok o) = .ok (Bits.value bits) := by
        rw [hread] at hrange hraw
        refine encode_eq_ok.mpr ⟨hpos, ?_, ?_⟩
        · rw [hwidth]
          exact hrange
        · rw [hwidth]
          exact hraw
      simp only [Step.append, appendInt]
      rw [horder, hencode, ← hwidth]
      rfl
  | bytes h =>
      simp only [Step.append]
      rw [h, length_ofBytes, ← bytesValue_eq_value]
      rfl
  | digits h =>
      obtain ⟨hall, hbits⟩ := digits_of_text h
      simp only [Step.append, appendDigits, appendBits]
      rw [if_pos hall, hbits, ← hbits, List.length_map]
  | blank hkind h =>
      -- White space in a byte string is no digit, and nothing is written.
      have hempty : w.push (Bits.value []) ([] : List Bool).length = w := by simp [push]
      simp only [Step.append]
      rw [hempty, appendDigits_bytes w hkind, if_pos (List.all_eq_true.mpr h)]
  | bitstring b =>
      rw [Bitstring.length_bits, ← b.value_eq]
      rfl
  | skip h =>
      simp only [Step.append, skip]
      rw [if_neg (by omega), value_replicate_false, List.length_replicate]

/-- A step that succeeds on some writer stands for some bits. -/
lemma writes_of_append {s : Step} {w w' : Writer} (h : s.append w = .ok w') :
    ∃ bits, s.Writes bits := by
  cases s with
  | int v width signed order =>
      simp only [Step.append, appendInt] at h
      obtain ⟨raw, hraw, -⟩ := result_bind_eq_ok.mp h
      obtain ⟨o, horder⟩ := order_of_encode hraw
      rw [horder] at hraw
      obtain ⟨hpos, -, -⟩ := encode_eq_ok.mp hraw
      refine ⟨ofNat width.toNat raw, .int horder hpos ?_ (decode_of_encode hraw)⟩
      rw [length_ofNat, Scalar.toNat]
      omega
  | bytes data =>
      obtain ⟨content, hcontent, -⟩ := result_bind_eq_ok.mp h
      exact ⟨_, .bytes hcontent⟩
  | digits text =>
      simp only [Step.append] at h
      cases text with
      | text s =>
          simp only [appendDigits, appendBits] at h
          split at h
          · rename_i hall
            exact ⟨_, .digits (text_of_digits hall)⟩
          · cases h
      | bytes kind content =>
          -- A view has no digits to strip.
          have hkind : kind ≠ .view := by
            rintro rfl
            cases h
          rw [appendDigits_bytes w hkind] at h
          split at h
          · rename_i hall
            exact ⟨[], .blank hkind (List.all_eq_true.mp hall)⟩
          · cases h
      | _ => cases h
  | bitstring b => exact ⟨_, .bitstring b⟩
  | skip width =>
      simp only [Step.append, skip] at h
      split at h
      · cases h
      · exact ⟨_, .skip (by omega)⟩

/-- The bits that a step writes on its own, if it succeeds. -/
def Step.piece? (s : Step) : Option (List Bool) :=
  (s.append empty).toOption.map bits

/-- What a step writes on its own is what it stands for. -/
lemma piece?_eq_some {s : Step} {bits : List Bool} : s.piece? = some bits ↔ s.Writes bits := by
  have hpiece : ∀ {bits : List Bool}, s.Writes bits → s.piece? = some bits := by
    intro bits h
    unfold Step.piece?
    rw [append_of_writes h]
    refine congrArg some ?_
    rw [bits_push empty (value_lt bits), ofNat_value, bits_empty, List.nil_append]
  refine ⟨fun h => ?_, hpiece⟩
  obtain ⟨w, hw, -⟩ := Option.map_eq_some_iff.mp h
  obtain ⟨bits', hwrites⟩ : ∃ bits', s.Writes bits' := by
    cases happend : s.append empty with
    | ok w => exact writes_of_append happend
    | error fault => rw [happend] at hw; cases hw
  rw [hpiece hwrites] at h
  cases h
  exact hwrites

/-- A step either writes a piece, on every writer, or fails on every one. -/
lemma append_of_piece?_eq_none {s : Step} (h : s.piece? = none) (w : Writer) :
    ∃ fault, s.append w = .error fault := by
  cases happend : s.append w with
  | error fault => exact ⟨fault, rfl⟩
  | ok w' =>
      obtain ⟨bits, hwrites⟩ := writes_of_append happend
      rw [piece?_eq_some.mpr hwrites] at h
      cases h

/-! ## Histories -/

/-- The writer after a history of steps, of which some may have failed. -/
def after (steps : List Step) : Writer :=
  steps.foldl (fun w s => (s.perform w).2) empty

/-- The bits of the steps of a history that succeed, in order. -/
def written (steps : List Step) : List Bool :=
  (steps.filterMap Step.piece?).flatten

lemma after_concat (steps : List Step) (s : Step) :
    after (steps ++ [s]) = (s.perform (after steps)).2 := by
  rw [after, List.foldl_append]
  rfl

lemma written_append (steps rest : List Step) :
    written (steps ++ rest) = written steps ++ written rest := by
  rw [written, List.filterMap_append, List.flatten_append]
  rfl

/-- A step that writes a piece ends well, and its piece is pushed. -/
lemma perform_of_writes {s : Step} {bits : List Bool} (h : s.Writes bits) (w : Writer) :
    s.perform w = (.ok (), w.push (Bits.value bits) bits.length) := by
  rw [perform_eq, append_of_writes h]

/-- A step that writes no piece raises a fault and leaves the writer as it is. -/
lemma perform_of_piece?_eq_none {s : Step} (h : s.piece? = none) (w : Writer) :
    ∃ fault, s.perform w = (.error fault, w) := by
  obtain ⟨fault, hfault⟩ := append_of_piece?_eq_none h w
  exact ⟨fault, by rw [perform_eq, hfault]⟩

/-- **What a history writes.**  Step by step, the number stays below the bound of the length, and
the bits are those of the steps that have succeeded. -/
lemma after_holds (steps : List Step) :
    (after steps).value < bound (after steps).length ∧ (after steps).bits = written steps := by
  induction steps using List.reverseRecOn with
  | nil => exact ⟨bound_pos 0, rfl⟩
  | append_singleton steps s ih =>
      obtain ⟨hlt, hbits⟩ := ih
      rw [after_concat, written_append]
      cases hpiece : s.piece? with
      | none =>
          obtain ⟨fault, hfault⟩ := perform_of_piece?_eq_none hpiece (after steps)
          rw [hfault]
          refine ⟨hlt, ?_⟩
          simp [written, hpiece, hbits]
      | some bits =>
          rw [perform_of_writes (piece?_eq_some.mp hpiece)]
          refine ⟨push_lt hlt (value_lt bits), ?_⟩
          rw [bits_push _ (value_lt bits), ofNat_value, hbits]
          simp [written, hpiece]

/-! ## Building -/

/-- A number as so many bytes, or the fault of one that has more. -/
def exactBytes (count n : Nat) : Except Fault Bytes :=
  if n < bound (count * 8) then .ok (bytesOf count n) else .error .overflow

lemma exactBytes_of_lt {count n : Nat} (h : n < bound (count * 8)) :
    exactBytes count n = .ok (bytesOf count n) :=
  if_pos h

/-- Building with the checks that the conversion to bytes and the view make. -/
def checkedBuild (w : Writer) : Except Fault Bitstring := do
  let count := (w.length + 7) / 8
  let data ← exactBytes count (w.value <<< (count * 8 - w.length))
  Bitstring.view data (.number 0) (.number w.length)

/-- A writer whose number is below the bound of its length is built without a fault. -/
lemma checkedBuild_eq {w : Writer} (h : w.value < bound w.length) :
    w.checkedBuild = .ok w.build := by
  set count := (w.length + 7) / 8 with hcount
  -- Shifted by the pad bits, the number still fits into the whole bytes.
  have hlt : w.value <<< (count * 8 - w.length) < bound (count * 8) := by
    have hwidth : count * 8 = w.length + (count * 8 - w.length) := by omega
    rw [Nat.shiftLeft_eq, ← bound_eq, hwidth, bound_add]
    have hpad : w.length + (count * 8 - w.length) - w.length = count * 8 - w.length := by omega
    rw [hpad]
    exact Nat.mul_lt_mul_of_pos_right h (bound_pos _)
  have hfits : w.length ≤ (bytesOf count (w.value <<< (count * 8 - w.length))).length * 8 := by
    rw [length_bytesOf]
    omega
  have hrest : ¬((w.length : Int) = -1) := by omega
  unfold checkedBuild
  rw [← hcount]
  dsimp only
  rw [exactBytes_of_lt hlt]
  show Bitstring.view (bytesOf count (w.value <<< (count * 8 - w.length))) (.number 0)
    (.number w.length) = .ok w.build
  unfold Bitstring.view
  simp only [Scalar.toInt_number, hrest, if_false]
  rw [dif_pos ⟨by simpa [Scalar.toNat] using hfits, le_refl 0, by omega⟩]
  rfl

/-- The bytes of a bitstring are its bits, and zeros up to a whole number of bytes. -/
lemma ofBytes_toBytes (b : Bitstring) :
    ofBytes b.toBytes = b.bits ++ List.replicate (b.toBytes.length * 8 - b.length) false := by
  have hle : b.length ≤ (b.length + 7) / 8 * 8 := by omega
  have hbits : ofNat b.length b.value = b.bits := by
    rw [b.value_eq, ← b.length_bits, ofNat_value]
  rw [Bitstring.toBytes, length_bytesOf, ofBytes_bytesOf_shiftLeft hle, hbits]

/-! ## Reading back -/

section ReadBack

variable {b : Bitstring} {front bits back : List Bool}

lemma length_le_of_bits_eq (h : b.bits = front ++ bits ++ back) :
    front.length + bits.length ≤ b.length := by
  rw [← b.length_bits, h, List.length_append, List.length_append]
  omega

/-- A piece of the bits of a bitstring is a window of its buffer. -/
lemma window_of_bits_eq (h : b.bits = front ++ bits ++ back) :
    window b.data (b.offset + front.length) bits.length = bits := by
  have hle := length_le_of_bits_eq h
  rw [b.window_eq (by omega) (by omega), Nat.add_sub_cancel_left, h, List.append_assoc,
    List.drop_left, List.take_left]

/-- The window of a piece lies in the buffer. -/
lemma fits_of_bits_eq (h : b.bits = front ++ bits ++ back) :
    Fits b.data (b.offset + front.length : Nat) (bits.length : Nat) := by
  have hle := length_le_of_bits_eq h
  have hfits := b.fits
  exact ⟨by omega, by omega, by omega⟩

/-- A piece is found where the bits before it end. -/
lemma locate_of_bits_eq (h : b.bits = front ++ bits ++ back) :
    b.locate (.number front.length) bits.length = .ok ((b.offset + front.length : Nat) : Int) := by
  have hle := length_le_of_bits_eq h
  unfold Bitstring.locate
  dsimp only
  rw [if_neg]
  · rw [Scalar.toInt_number, Nat.cast_add]
  · intro houtside
    simp only [Bool.or_eq_true, decide_eq_true_eq] at houtside
    rw [Scalar.toInt_number] at houtside
    omega

/-- A piece is viewed as a bitstring of its own. -/
lemma sub_of_bits_eq (h : b.bits = front ++ bits ++ back) :
    ∃ part : Bitstring, b.sub (.number front.length) (.number bits.length) = .ok part ∧
      Bitstring.view b.data (.number (b.offset + front.length : Nat)) (.number bits.length) =
        .ok part ∧ part.bits = bits := by
  obtain ⟨part, hview, -, -, -, hbits⟩ := @Bitstring.view_eq b.data
    (.number (b.offset + front.length : Nat)) (.number bits.length) (fits_of_bits_eq h)
  refine ⟨part, ?_, hview, hbits.trans (window_of_bits_eq h)⟩
  show (b.locate (.number front.length) bits.length >>= fun start =>
    Bitstring.view b.data (.number start) (.number bits.length)) = .ok part
  rw [locate_of_bits_eq h]
  exact hview

/-- A piece is read as the integer that it stands for. -/
lemma getInt_of_bits_eq (h : b.bits = front ++ bits ++ back) {width : Scalar} (signed : Bool)
    (order : ByteOrder) (hwidth : (bits.length : Int) = width.toInt) :
    b.getInt (.number front.length) width signed (.ok order) = .ok (decode signed order bits) ∧
      Bits.getInt b.data (.number (b.offset + front.length : Nat)) width signed (.ok order) =
        .ok (decode signed order bits) := by
  have hfits := fits_of_bits_eq h
  rw [hwidth] at hfits
  have hnat : width.toNat = bits.length := by
    rw [Scalar.toNat]
    omega
  have hread : Bits.getInt b.data (.number (b.offset + front.length : Nat)) width signed
      (.ok order) = .ok (decode signed order bits) := by
    rw [getInt_eq signed order hfits, hnat]
    exact congrArg (fun bits => Except.ok (decode signed order bits)) (window_of_bits_eq h)
  refine ⟨?_, hread⟩
  show (b.locate (.number front.length) width.toInt >>= fun start =>
    Bits.getInt b.data (.number start) width signed (.ok order)) = _
  rw [← hwidth, locate_of_bits_eq h]
  exact hread

/-- A piece of whole bytes is read as those bytes. -/
lemma getBytes_of_bits_eq {content : Bytes} (h : b.bits = front ++ ofBytes content ++ back) :
    b.getBytes (.number front.length) (.number content.length) = .ok content ∧
      Bits.getBytes b.data (.number (b.offset + front.length : Nat)) (.number content.length) =
        .ok content := by
  have hlen : (content.length : Int) * 8 = ((ofBytes content).length : Int) := by
    rw [length_ofBytes]
    omega
  have hfits := fits_of_bits_eq h
  rw [← hlen] at hfits
  -- The window is the piece, wherever the view starts.
  have hread : Bits.getBytes b.data (.number (b.offset + front.length : Nat))
      (.number content.length) = .ok content := by
    rw [getBytes_eq hfits]
    have hwindow := window_of_bits_eq h
    rw [length_ofBytes] at hwindow
    refine congrArg Except.ok (ofBytes_injective ?_)
    show ofBytes (bytesOf content.length
      (Bits.value (window b.data (b.offset + front.length) (content.length * 8)))) = _
    rw [hwindow, ofBytes_bytesOf, ← length_ofBytes, ofNat_value]
  refine ⟨?_, hread⟩
  show (b.locate (.number front.length) (content.length * 8) >>= fun start =>
    Bits.getBytes b.data (.number start) (.number content.length)) = _
  rw [hlen, locate_of_bits_eq h]
  exact hread

end ReadBack

/-- What has been written by a step is read from a bitstring at an offset, by its methods and, if
the bitstring starts with its buffer, by the functions on buffers. -/
structure Step.ReadBack (s : Step) (bits : List Bool) (b : Bitstring) (offset : Nat) : Prop where
  /-- The piece is a part of the bitstring. -/
  sub_eq : ∃ part, b.sub (.number offset) (.number bits.length) = .ok part ∧
    Bitstring.view b.data (.number offset) (.number bits.length) = .ok part ∧ part.bits = bits
  /-- An integer is read in its width, sign and byte order. -/
  getInt_eq : ∀ v width signed order, s = .int v width signed order →
    b.getInt (.number offset) width signed order.toByteOrder = .ok v.toInt ∧
      Bits.getInt b.data (.number offset) width signed order.toByteOrder = .ok v.toInt
  /-- A byte string is read by the number of its bytes. -/
  getBytes_eq : ∀ data content, s = .bytes data → data.toBytes = .ok content →
    b.getBytes (.number offset) (.number content.length) = .ok content ∧
      Bits.getBytes b.data (.number offset) (.number content.length) = .ok content
  /-- A bitstring is equal to the part of its length. -/
  same : ∀ c, s = .bitstring c → ∃ part,
    b.sub (.number offset) (.number c.length) = .ok part ∧
      Bitstring.view b.data (.number offset) (.number c.length) = .ok part ∧ part.same c = true

/-- A step that writes a piece of a bitstring that starts with its buffer is read back. -/
lemma readBack_of_bits_eq {s : Step} {b : Bitstring} {front bits back : List Bool}
    (hs : s.Writes bits) (hoffset : b.offset = 0) (h : b.bits = front ++ bits ++ back) :
    s.ReadBack bits b front.length := by
  have hstart : b.offset + front.length = front.length := by omega
  -- The bitstring starts with its buffer, so offsets in the view and in the buffer are the same.
  obtain ⟨part, hsub, hview, hbits⟩ := sub_of_bits_eq h
  rw [hstart] at hview
  refine ⟨⟨part, hsub, hview, hbits⟩, ?_, ?_, ?_⟩
  · rintro v width signed order rfl
    cases hs with
    | int horder hpos hlen hread =>
        rename_i o
        obtain ⟨hmethod, hbuffer⟩ := getInt_of_bits_eq h signed o hlen
        rw [hstart, hread] at hbuffer
        rw [hread] at hmethod
        rw [horder]
        exact ⟨hmethod, hbuffer⟩
  · rintro data content rfl hcontent
    cases hs with
    | bytes h' =>
        rw [hcontent] at h'
        cases h'
        obtain ⟨hmethod, hbuffer⟩ := getBytes_of_bits_eq h
        rw [hstart] at hbuffer
        exact ⟨hmethod, hbuffer⟩
  · rintro c rfl
    cases hs with
    | bitstring =>
        rw [Bitstring.length_bits] at hsub hview
        exact ⟨part, hsub, hview, Bitstring.same_iff.mpr hbits⟩

/-! ## Faithfulness -/

/-- What holds of a writer after a history of steps. -/
structure Faithful (steps : List Step) : Prop where
  /-- The pieces are what the steps stand for. -/
  piece_iff : ∀ (s : Step) (bits : List Bool), s.piece? = some bits ↔ s.Writes bits
  /-- The number is below the bound of the length. -/
  value_lt : (after steps).value < bound (after steps).length
  /-- The length is the sum of the lengths of the pieces. -/
  length_eq : (after steps).length = (written steps).length
  /-- A step that writes a piece succeeds. -/
  next_ok : ∀ (s : Step) (bits : List Bool), s.Writes bits →
    s.perform (after steps) = (.ok (), after (steps ++ [s]))
  /-- Any other step raises a fault, and the number and the length stay as they are. -/
  next_error : ∀ s : Step, (¬∃ bits, s.Writes bits) →
    (∃ fault, (s.perform (after steps)).1 = .error fault) ∧ after (steps ++ [s]) = after steps
  /-- Building raises no fault. -/
  build_ok : (after steps).checkedBuild = .ok (after steps).build
  /-- The digits of what is built are those of the pieces in order. -/
  text_eq : (after steps).build.text = .ok (Bits.text (written steps))
  /-- The bytes of what is built end with fewer than eight zeros. -/
  toBytes_eq : ∃ pad < 8,
    ofBytes (after steps).build.toBytes = written steps ++ List.replicate pad false
  /-- Every piece is read back at the sum of the lengths of those before it. -/
  readBack : ∀ (before : List Step) (s : Step) (behind : List Step) (bits : List Bool),
    steps = before ++ s :: behind → s.Writes bits →
      s.ReadBack bits (after steps).build (written before).length

/-- **A writer concatenates.**  After all sequences of steps, whatever their kinds, widths, signs
and byte orders and whether they succeed or fail, the writer holds the pieces of the steps that have
succeeded one after the other: it can be built, what is built has their digits, and each of them is
read back where it was written. -/
theorem history_faithful (steps : List Step) : Faithful steps := by
  obtain ⟨hlt, hbits⟩ := after_holds steps
  have hbuild : (after steps).build.bits = written steps := by rw [build_bits, hbits]
  have hlength : (after steps).length = (written steps).length := by
    rw [← hbits, length_bits]
  refine ⟨fun s bits => piece?_eq_some, hlt, hlength, ?_, ?_, checkedBuild_eq hlt, ?_, ?_, ?_⟩
  · intro s bits hs
    rw [after_concat, perform_of_writes hs]
  · -- A step that stands for no bits fails on every writer.
    intro s hs
    have hnone : s.piece? = none := by
      cases hpiece : s.piece? with
      | none => rfl
      | some bits => exact absurd ⟨bits, piece?_eq_some.mp hpiece⟩ hs
    obtain ⟨fault, hfault⟩ := perform_of_piece?_eq_none hnone (after steps)
    rw [after_concat, hfault]
    exact ⟨⟨fault, rfl⟩, rfl⟩
  · show Except.ok (Bits.text (ofNat (after steps).build.length (after steps).build.value)) = _
    rw [Bitstring.value_eq, ← Bitstring.length_bits, ofNat_value, hbuild]
  · have hpad := ofBytes_toBytes (after steps).build
    rw [hbuild] at hpad
    refine ⟨_, ?_, hpad⟩
    rw [Bitstring.toBytes, length_bytesOf]
    omega
  · -- What is built is cut around the piece.
    rintro before s behind bits rfl hs
    refine @readBack_of_bits_eq s _ (written before) bits (written behind) hs rfl ?_
    rw [hbuild, written_append]
    have hcons : written (s :: behind) = bits ++ written behind := by
      rw [written, List.filterMap_cons_some (piece?_eq_some.mpr hs), List.flatten_cons]
      rfl
    rw [hcons, List.append_assoc]

end Writer

end BitPattern
