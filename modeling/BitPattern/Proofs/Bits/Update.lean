import BitPattern.Proofs.Bits.Integer

/-!
# Writing into a window

Writing takes the bytes that a window touches as one number, keeps what is above and below the
window and puts the new bits between.  The main lemma is `ofBytes_write`: at every alignment the
bits of the buffer afterwards are those before the window, the written ones, and those behind it.

Everything else is a statement about lists.  The written bits are the new window
(`window_write`), the bits outside stay (`getElem?_write`) and with them every window that has no
bit in common with the written one (`getInt_write_of_apart`), and writing the bits that are
there already changes nothing (`write_window`).  With the two directions of the encoding this makes
writing and reading an integer a lens with a frame, `setInt_getInt`.
-/

namespace BitPattern.Bits

variable {data : Bytes} {offset width raw : Nat}

/-! ## The bits after writing -/

/-- The bytes that a window touches end with the bits behind it, and start with those before it. -/
lemma ofBytes_around (h : offset + width ≤ data.length * 8) :
    ∃ front back : List Bool,
      ofBytes ((data.take ((offset + width + 7) / 8)).drop (offset / 8)) =
        front ++ window data offset width ++ back ∧
      back.length = slack offset width ∧
      ofBytes (data.take (offset / 8)) ++ front = (ofBytes data).take offset ∧
      back ++ ofBytes (data.drop ((offset + width + 7) / 8)) =
        (ofBytes data).drop (offset + width) := by
  obtain ⟨front, back, hbits, hback⟩ := ofBytes_touched h
  refine ⟨front, back, hbits, hback, ?_⟩
  set start := offset / 8 with hstart
  set stop := (offset + width + 7) / 8 with hstop
  have hwindow := length_window h
  have hle : start ≤ stop := by omega
  have hdata : data = data.take start ++ (data.take stop).drop start ++ data.drop stop := by
    have htake : (data.take stop).take start = data.take start := by
      rw [List.take_take, Nat.min_eq_left hle]
    rw [← htake, List.take_append_drop, List.take_append_drop]
  -- The bits of all three parts, the one in the middle cut by the window.
  have hwhole : ofBytes data =
      (ofBytes (data.take start) ++ front) ++ window data offset width ++
        (back ++ ofBytes (data.drop stop)) := by
    conv_lhs => rw [hdata]
    rw [ofBytes, List.flatMap_append, List.flatMap_append]
    show ofBytes _ ++ ofBytes _ ++ ofBytes _ = _
    rw [hbits]
    simp only [List.append_assoc]
  -- So the window begins where it should, and the rest are the bits in front and behind.
  have hfront : (ofBytes (data.take start) ++ front).length = offset := by
    have htouched := congrArg List.length hbits
    simp only [List.length_append, length_ofBytes, List.length_drop, List.length_take, hwindow,
      hback, slack] at htouched ⊢
    omega
  constructor
  · rw [hwhole, List.append_assoc, List.take_left' hfront]
  · have hboth : (ofBytes (data.take start) ++ front ++ window data offset width).length =
        offset + width := by
      rw [List.length_append, hfront, hwindow]
    rw [hwhole, List.drop_left' hboth]

/-- The number that is written back is that of the kept bits with the new ones between. -/
lemma value_around (front window back : List Bool) (hraw : raw < bound width)
    (hwidth : window.length = width) :
    value (front ++ window ++ back) >>> (back.length + width) <<< (back.length + width) +
        raw * bound back.length + value (front ++ window ++ back) % bound back.length =
      value (front ++ ofNat width raw ++ back) := by
  have hlow : back.length + width = (window ++ back).length := by
    rw [List.length_append, hwidth, Nat.add_comm]
  have habove : value (front ++ window ++ back) >>> (back.length + width) = value front := by
    rw [hlow, List.append_assoc, value_shiftRight]
  rw [habove, value_mod, value_append, value_append, value_ofNat, Nat.mod_eq_of_lt hraw,
    length_ofNat, Nat.shiftLeft_eq, ← bound_eq, Nat.add_comm back.length, bound_add]
  ring

/-- **Writing.**  At every alignment the bits before the window and behind it stay, and the bits
between are the written ones.  -/
lemma ofBytes_write (h : offset + width ≤ data.length * 8) (hraw : raw < bound width) :
    ofBytes (write data offset width raw) =
      (ofBytes data).take offset ++ ofNat width raw ++ (ofBytes data).drop (offset + width) := by
  obtain ⟨front, back, hbits, hback, hbefore, hbehind⟩ := ofBytes_around h
  have hwindow := length_window h
  have hlength : ((offset + width + 7) / 8 - offset / 8) * 8 =
      (front ++ ofNat width raw ++ back).length := by
    have htouched := congrArg List.length hbits
    simp only [List.length_append, length_ofBytes, List.length_drop, List.length_take, hwindow,
      length_ofNat] at htouched ⊢
    omega
  -- The bytes that the window touches, with the raw value between what was around it.
  have hmiddle : ofBytes (bytesOf ((offset + width + 7) / 8 - offset / 8)
      (touched data offset width >>> (slack offset width + width) <<<
          (slack offset width + width) +
        raw * bound (slack offset width) +
        touched data offset width % bound (slack offset width))) =
      front ++ ofNat width raw ++ back := by
    rw [touched, bytesValue_eq_value, hbits, ← hback, value_around _ _ _ hraw hwindow,
      ofBytes_bytesOf, hlength, ofNat_value]
  unfold write
  rw [ofBytes, List.flatMap_append, List.flatMap_append]
  show ofBytes _ ++ ofBytes _ ++ ofBytes _ = _
  rw [hmiddle, ← hbefore, ← hbehind]
  simp only [List.append_assoc]

lemma length_write (h : offset + width ≤ data.length * 8) :
    (write data offset width raw).length = data.length := by
  unfold write
  simp only [List.length_append, List.length_take, List.length_drop, length_bytesOf]
  omega

/-! ## Windows after writing -/

/-- The written bits are the window. -/
lemma window_write (h : offset + width ≤ data.length * 8) (hraw : raw < bound width) :
    window (write data offset width raw) offset width = ofNat width raw := by
  have hbefore : ((ofBytes data).take offset).length = offset := by
    rw [List.length_take, length_ofBytes]
    omega
  rw [window, ofBytes_write h hraw, List.append_assoc, List.drop_left' hbefore,
    List.take_left' (length_ofNat width raw)]

/-- A bit outside the window stays. -/
lemma getElem?_write (h : offset + width ≤ data.length * 8) (hraw : raw < bound width) {i : Nat}
    (hi : i < offset ∨ offset + width ≤ i) :
    (ofBytes (write data offset width raw))[i]? = (ofBytes data)[i]? := by
  have hbefore : ((ofBytes data).take offset).length = offset := by
    rw [List.length_take, length_ofBytes]
    omega
  rw [ofBytes_write h hraw, List.append_assoc]
  rcases hi with hlow | hhigh
  · rw [List.getElem?_append_left (by omega), List.getElem?_take_of_lt hlow]
  · rw [List.getElem?_append_right (by omega), List.getElem?_append_right (by simp; omega),
      List.getElem?_drop, hbefore, length_ofNat]
    congr 1
    omega

/-- Buffers that do not differ in a window have the same bits there. -/
lemma window_congr {a b : Bytes} {offset width : Nat}
    (h : ∀ i, offset ≤ i → i < offset + width → (ofBytes a)[i]? = (ofBytes b)[i]?) :
    window a offset width = window b offset width := by
  refine List.ext_getElem? fun i => ?_
  rw [window, window, List.getElem?_take, List.getElem?_take, List.getElem?_drop,
    List.getElem?_drop]
  split
  · exact h _ (by omega) (by omega)
  · rfl

/-- Writing the bits that are there changes nothing. -/
lemma write_window (h : offset + width ≤ data.length * 8) :
    write data offset width (value (window data offset width)) = data := by
  have hlt : value (window data offset width) < bound width := by
    have := value_lt (window data offset width)
    rwa [length_window h] at this
  refine ofBytes_injective ?_
  rw [ofBytes_write h hlt, ofNat_window h, window, List.append_assoc, ← List.drop_drop,
    List.take_append_drop, List.take_append_drop]

/-! ## Integers -/

/-- Two windows without a bit in common. -/
def Apart (offset width offset' width' : Int) : Prop :=
  ∀ i, ¬((offset ≤ i ∧ i < offset + width) ∧ offset' ≤ i ∧ i < offset' + width')

/-- A reading that fails, or reads the same window of a buffer of the same length, is the same. -/
lemma getInt_congr {a b : Bytes} {offset width : Scalar} (hlen : a.length = b.length)
    (h : Fits a offset.toInt width.toInt →
      window a offset.toNat width.toNat = window b offset.toNat width.toNat)
    (signed : Bool) (order : Except Fault ByteOrder) :
    getInt a offset width signed order = getInt b offset width signed order := by
  have hcheck : checkWindow b offset width.toInt = checkWindow a offset width.toInt := by
    unfold checkWindow
    rw [hlen]
  unfold getInt
  rw [hcheck]
  cases hfits : checkWindow a offset width.toInt with
  | error fault => rfl
  | ok =>
      have hfits := checkWindow_eq_ok.mp hfits
      have hread : read a offset.toNat width.toNat = read b offset.toNat width.toNat := by
        have hle : offset.toNat + width.toNat ≤ a.length * 8 := hfits.toNat_le
        have hle' : offset.toNat + width.toNat ≤ b.length * 8 := by
          rw [← hlen]
          exact hle
        rw [read_eq_value hle, read_eq_value hle', h hfits]
      rw [hread]

/-- An integer that the width has is written, as the number that encodes it. -/
lemma setInt_eq {offset width v : Scalar} {signed : Bool} {order : ByteOrder} {raw : Nat}
    (hfits : Fits data offset.toInt width.toInt)
    (h : encode v width signed (.ok order) = .ok raw) :
    setInt data offset width v signed (.ok order) =
      .ok (write data offset.toNat width.toNat raw) := by
  unfold setInt
  rw [checkWindow_eq_ok.mpr hfits, h]
  rfl

/-- Whatever is written into a window stays out of the windows that have no bit in common with
it. -/
lemma getInt_write_of_apart {offset width offset' width' : Scalar}
    (hfits : Fits data offset.toInt width.toInt) (hraw : raw < bound width.toNat)
    (h : Apart offset.toInt width.toInt offset'.toInt width'.toInt) (signed : Bool)
    (order : Except Fault ByteOrder) :
    getInt (write data offset.toNat width.toNat raw) offset' width' signed order =
      getInt data offset' width' signed order := by
  have hle : offset.toNat + width.toNat ≤ data.length * 8 := hfits.toNat_le
  refine getInt_congr (length_write hle) ?_ signed order
  rintro ⟨hoffset', hwidth', -⟩
  obtain ⟨hoffset, hwidth, -⟩ := hfits
  refine window_congr ?_
  intro i hlow hhigh
  refine getElem?_write hle hraw ?_
  have hi := h i
  simp only [Scalar.toNat] at hlow hhigh ⊢
  omega

/-- What writing an integer into a window of a buffer does, as seen by reading: the integer is read
back, and the rest of the buffer is as it was. -/
structure Updates (data data' : Bytes) (offset width v : Scalar) (signed : Bool)
    (order : ByteOrder) : Prop where
  /-- What was written is read. -/
  getInt_same : getInt data' offset width signed (.ok order) = .ok v.toInt
  /-- The buffer keeps its length. -/
  length_eq : data'.length = data.length
  /-- The bits outside the window stay. -/
  bit_eq : ∀ i : Nat, (i : Int) < offset.toInt ∨ offset.toInt + width.toInt ≤ i →
    (ofBytes data')[i]? = (ofBytes data)[i]?
  /-- What is read without a bit of the window stays, a fault included. -/
  getInt_other : ∀ (offset' width' : Scalar) (signed' : Bool) (order' : Except Fault ByteOrder),
    Apart offset.toInt width.toInt offset'.toInt width'.toInt →
      getInt data' offset' width' signed' order' = getInt data offset' width' signed' order'

/-- Writing an integer that the width has succeeds and updates the window alone. -/
lemma setInt_updates {offset width v : Scalar} {signed : Bool} {order : ByteOrder}
    (hfits : Fits data offset.toInt width.toInt) (hwidth : 1 ≤ width.toInt)
    (hv : InRange signed width.toNat v.toInt) :
    ∃ data', setInt data offset width v signed (.ok order) = .ok data' ∧
      Updates data data' offset width v signed order := by
  obtain ⟨raw, hencode⟩ : ∃ raw, encode v width signed (.ok order) = .ok raw :=
    ⟨_, encode_eq_ok.mpr ⟨by omega, hv, rfl⟩⟩
  have hraw := lt_of_encode hencode
  have hle : offset.toNat + width.toNat ≤ data.length * 8 := hfits.toNat_le
  refine ⟨_, setInt_eq hfits hencode, ?_, length_write hle, ?_, ?_⟩
  · have hfits' : Fits (write data offset.toNat width.toNat raw) offset.toInt width.toInt :=
      ⟨hfits.offset_nonneg, hfits.width_nonneg, by rw [length_write hle]; exact hfits.stop_le⟩
    rw [getInt_eq signed order hfits', window_write hle hraw, decode_of_encode hencode]
  · intro i hi
    have hpos := hfits.offset_nonneg
    refine getElem?_write hle hraw ?_
    rw [Scalar.toNat, Scalar.toNat]
    omega
  · intro offset' width' signed' order' hapart
    exact getInt_write_of_apart hfits hraw hapart signed' order'

/-- Writing what was read leaves the buffer as it is. -/
lemma setInt_getInt_self {offset width : Scalar} (signed : Bool) (order : ByteOrder)
    (hfits : Fits data offset.toInt width.toInt) (hwidth : 1 ≤ width.toInt) :
    ∃ v : Int, getInt data offset width signed (.ok order) = .ok v ∧
      setInt data offset width v signed (.ok order) = .ok data := by
  have hle : offset.toNat + width.toNat ≤ data.length * 8 := hfits.toNat_le
  have hlen := length_window hle
  have hpos : 0 < (window data offset.toNat width.toNat).length := by
    rw [hlen, Scalar.toNat]
    omega
  have hencode : encode (decode signed order (window data offset.toNat width.toNat)) width signed
      (.ok order) = .ok (value (window data offset.toNat width.toNat)) := by
    obtain ⟨-, hrange, hraw⟩ := encode_eq_ok.mp (encode_decode signed order hpos)
    have hwidth' : (Scalar.number (window data offset.toNat width.toNat).length).toNat =
        width.toNat := by
      rw [hlen]
      rfl
    rw [hwidth'] at hrange hraw
    exact encode_eq_ok.mpr ⟨by omega, hrange, hraw⟩
  exact ⟨_, getInt_eq signed order hfits, by rw [setInt_eq hfits hencode, write_window hle]⟩

/-- **Writing and reading.**  In every window of at least one bit that fits a buffer, at every
alignment, in every byte order and with or without a sign: an integer that the width has is written
and read back, and nothing outside the window changes; and what is read can be written back, which
changes nothing at all. -/
theorem setInt_getInt (data : Bytes) (offset width : Scalar) (signed : Bool) (order : ByteOrder)
    (hfits : Fits data offset.toInt width.toInt) (hwidth : 1 ≤ width.toInt) :
    (∀ v : Scalar, InRange signed width.toNat v.toInt →
      ∃ data', setInt data offset width v signed (.ok order) = .ok data' ∧
        Updates data data' offset width v signed order) ∧
    ∃ v : Int, getInt data offset width signed (.ok order) = .ok v ∧
      setInt data offset width v signed (.ok order) = .ok data :=
  ⟨fun _ hv => setInt_updates hfits hwidth hv, setInt_getInt_self signed order hfits hwidth⟩

/-- Twelve bits with a sign, least significant byte first, behind the third bit of a buffer. -/
theorem setInt_getInt_unaligned :
    Fits [0x12, 0x34, 0x56] 3 12 ∧ (1 : Int) ≤ 12 ∧ InRange true 12 (-5) ∧
      (∃ data', setInt [0x12, 0x34, 0x56] (.number 3) (.number 12) (.number (-5)) true
          (.ok .little) = .ok data' ∧
        Updates [0x12, 0x34, 0x56] data' (.number 3) (.number 12) (.number (-5)) true .little) ∧
      ∃ v : Int, getInt [0x12, 0x34, 0x56] (.number 3) (.number 12) true (.ok .little) = .ok v ∧
        setInt [0x12, 0x34, 0x56] (.number 3) (.number 12) (.number v) true (.ok .little) =
          .ok [0x12, 0x34, 0x56] := by
  have hfits : Fits [0x12, 0x34, 0x56] 3 12 := ⟨by decide, by decide, by decide⟩
  have hv : InRange true 12 (-5) := ⟨by decide, by decide⟩
  obtain ⟨hset, hget⟩ :=
    setInt_getInt [0x12, 0x34, 0x56] (.number 3) (.number 12) true .little hfits (by decide)
  exact ⟨hfits, by decide, hv, hset (.number (-5)) hv, hget⟩

example : setInt [0x12, 0x34, 0x56] (.number 3) (.number 12) (.number (-5)) true (.ok .little) =
    .ok [0x1f, 0x7e, 0x56] := by
  decide

end BitPattern.Bits
