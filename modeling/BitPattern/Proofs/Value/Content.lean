import BitPattern.Proofs.Bits.Writer
import BitPattern.Proofs.Value.Faults

/-!
# The content of values

Two bitstrings with the same bits in view may lie at different offsets of different buffers.
`Bitstring.content` is one bitstring for all that have the same bits (`Bitstring.content_eq_iff`),
and `Value.content` puts it in the place of every bitstring in a value.  Two values with the same
content differ in nothing but where their bitstrings lie.

No operation on values can tell them apart.  An operation with an answer of another kind gives the
same one for a value and for its content; one that gives a value gives values with the same content
(`BinOp.apply_content`, `UnOp.apply_content`, `Builtin.apply_content`).  Only the text of a fault
can differ, where it shows a value, and such a fault is of the same kind (`toEndian_content`).
-/

namespace BitPattern

namespace Bitstring

/-- One bitstring for all that have the same bits in view. -/
def content (b : Bitstring) : Bitstring :=
  Writer.build ⟨b.value, b.length⟩

lemma content_bits (b : Bitstring) : b.content.bits = b.bits := by
  rw [content, Writer.build_bits, Writer.bits, b.value_eq, ← b.length_bits, Bits.ofNat_value]

@[simp] lemma content_length (b : Bitstring) : b.content.length = b.length := rfl

@[simp] lemma content_value (b : Bitstring) : b.content.value = b.value :=
  (bits_injective b.content_bits).2

/-- The bitstring of some bits, in a buffer of its own. -/
def ofBits (bits : List Bool) : Bitstring :=
  Writer.build ⟨Bits.value bits, bits.length⟩

lemma content_eq_ofBits (b : Bitstring) : b.content = .ofBits b.bits := by
  rw [content, ofBits, b.value_eq, b.length_bits]

lemma content_eq_iff {a b : Bitstring} : a.content = b.content ↔ a.bits = b.bits := by
  constructor
  · intro h
    rw [← a.content_bits, h, b.content_bits]
  · intro h
    obtain ⟨hlen, hvalue⟩ := bits_injective h
    rw [content, content, hlen, hvalue]

/-- A bitstring that was built of no more than its bits is its own content. -/
lemma content_build {w : Writer} (h : w.value < Bits.bound w.length) :
    w.build.content = w.build := by
  have hvalue : w.build.value = w.value := by
    rw [value_eq, Writer.build_bits, Writer.bits, Bits.value_ofNat, Nat.mod_eq_of_lt h]
  rw [content, hvalue]
  rfl

lemma content_append (a b : Bitstring) :
    a.content.append b.content = (a.append b).content := by
  have ha : a.value < Bits.bound a.length := Bits.read_lt
  have hb : b.value < Bits.bound b.length := Bits.read_lt
  have hbuilt : (a.append b).content = a.append b :=
    content_build (Writer.push_lt (Writer.push_lt (by decide) ha) hb)
  rw [hbuilt, append, append, Writer.appendBitstring, Writer.appendBitstring,
    Writer.appendBitstring, Writer.appendBitstring, content_value, content_value, content_length,
    content_length]

lemma content_toList (b : Bitstring) : b.content.toList = b.toList := by
  rw [toList_eq, toList_eq, content_bits]

lemma content_same (a b : Bitstring) : a.content.same b.content = a.same b := by
  simp [same]

end Bitstring

namespace Value

mutual

/-- A value with every bitstring in it replaced by its content. -/
def content : Value → Value
  | none => .none
  | int n => .int n
  | bool b => .bool b
  | text s => .text s
  | bytes kind b => .bytes kind b
  | bits b => .bits b.content
  | tuple items => .tuple (contents items)
  | list items => .list (contents items)
  | dict entries => .dict (contentEntries entries)
  | endian e => .endian e
  | builtin f => .builtin f
  | union types => .union types
  | probe name => .probe name
  | arm index => .arm index

/-- The contents of several values. -/
def contents : List Value → List Value
  | [] => []
  | v :: rest => v.content :: contents rest

/-- The entries of a dictionary with the contents of their values. -/
def contentEntries : List (String × Value) → List (String × Value)
  | [] => []
  | (key, v) :: rest => (key, v.content) :: contentEntries rest

end

lemma contents_eq_map (vs : List Value) : contents vs = vs.map content := by
  induction vs with
  | nil => rfl
  | cons v vs ih => rw [contents, ih, List.map_cons]

lemma contentEntries_eq_map (entries : List (String × Value)) :
    contentEntries entries = entries.map fun entry => (entry.1, entry.2.content) := by
  induction entries with
  | nil => rfl
  | cons entry entries ih =>
      obtain ⟨key, v⟩ := entry
      rw [contentEntries, ih, List.map_cons]

lemma contentEntries_lookup (entries : List (String × Value)) (key : String) :
    (contentEntries entries).lookup key = (entries.lookup key).map content := by
  induction entries with
  | nil => rfl
  | cons entry entries ih =>
      obtain ⟨other, v⟩ := entry
      rw [contentEntries, List.lookup_cons, List.lookup_cons, ih]
      cases key == other <;> rfl

/-! ## Answers of other kinds -/

@[simp] lemma content_int? (v : Value) : v.content.int? = v.int? := by
  cases v <;> rfl

@[simp] lemma content_toInt (v : Value) : v.content.toInt = v.toInt := by
  rw [toInt, toInt, content_int?]

@[simp] lemma content_toScalar (v : Value) : v.content.toScalar = v.toScalar := by
  cases v <;> rfl

@[simp] lemma content_truth (v : Value) : v.content.truth = v.truth := by
  cases v with
  | tuple items => cases items <;> rfl
  | list items => cases items <;> rfl
  | dict entries => cases entries <;> rfl
  | _ => rfl

@[simp] lemma content_size? (v : Value) : v.content.size? = v.size? := by
  cases v with
  | tuple items => simp [content, size?, contents_eq_map]
  | list items => simp [content, size?, contents_eq_map]
  | dict entries => simp [content, size?, contentEntries_eq_map]
  | _ => rfl

/-- The members of the content are the contents of the members. -/
lemma content_items? (v : Value) : v.content.items? = v.items?.map (List.map content) := by
  cases v with
  | text s => simp [content, items?]
  | bytes kind b => simp [content, items?]
  | bits b => simp [content, items?, Bitstring.content_toList]
  | tuple items => simp [content, items?, contents_eq_map]
  | list items => simp [content, items?, contents_eq_map]
  | dict entries => simp [content, items?, contentEntries_eq_map]
  | _ => rfl

mutual

lemma content_same (v w : Value) : v.content.same w.content = v.same w := by
  cases v with
  | tuple xs =>
      cases w with
      | tuple ys => exact contents_same xs ys
      | _ => rfl
  | list xs =>
      cases w with
      | list ys => exact contents_same xs ys
      | _ => rfl
  | dict xs =>
      cases w with
      | dict ys =>
          have hlength (entries : List (String × Value)) :
              (contentEntries entries).length = entries.length := by
            rw [contentEntries_eq_map, List.length_map]
          simp only [content, same, hlength, contentEntries_same xs ys]
      | _ => rfl
  | bits a =>
      cases w with
      | bits b => exact Bitstring.content_same a b
      | _ => rfl
  | _ => cases w <;> rfl

lemma contents_same : (vs ws : List Value) →
    sameAll (contents vs) (contents ws) = sameAll vs ws
  | [], [] => rfl
  | [], _ :: _ => rfl
  | _ :: _, [] => rfl
  | v :: vs, w :: ws => by
      simp only [contents, sameAll, content_same v w, contents_same vs ws]

lemma contentEntries_same : (vs ws : List (String × Value)) →
    sameEntries (contentEntries vs) (contentEntries ws) = sameEntries vs ws
  | [], _ => rfl
  | (key, v) :: vs, ws => by
      rw [contentEntries, sameEntries, sameEntries, contentEntries_lookup,
        contentEntries_same vs ws]
      cases ws.lookup key with
      | none => rfl
      | some w => simp only [Option.map_some, content_same v w]

end

mutual

lemma content_compare? (v w : Value) : compare? v.content w.content = compare? v w := by
  cases v with
  | tuple xs =>
      cases w with
      | tuple ys => exact contents_compareAll? xs ys
      | _ => rfl
  | list xs =>
      cases w with
      | list ys => exact contents_compareAll? xs ys
      | _ => rfl
  | _ => cases w <;> rfl

lemma contents_compareAll? : (vs ws : List Value) →
    compareAll? (contents vs) (contents ws) = compareAll? vs ws
  | [], [] => rfl
  | [], _ :: _ => rfl
  | _ :: _, [] => rfl
  | v :: vs, w :: ws => by
      simp only [contents, compareAll?, content_same v w, content_compare? v w,
        contents_compareAll? vs ws]

end

lemma content_less (v w : Value) : less v.content w.content = less v w := by
  rw [less, less, content_compare?]

lemma content_unionTypes? (v : Value) : v.content.unionTypes? = v.unionTypes? := by
  cases v <;> rfl

/-! ## Conversions -/

lemma content_toByte (v : Value) : v.content.toByte = v.toByte := by
  rw [toByte, toByte, content_toInt]

lemma content_toBytes (v : Value) : v.content.toBytes = v.toBytes := by
  have hitems : ∀ items : List Value, (items.map content).mapM toByte = items.mapM toByte := by
    intro items
    rw [List.mapM_map]
    exact result_mapM_congr fun v _ => content_toByte v
  cases v with
  | bits b =>
      change ((Value.bits b.content).toBytes) = _
      simp only [toBytes, int?, items?, Bitstring.content_toList]
  | tuple items =>
      simp only [content, toBytes, int?, items?, contents_eq_map]
      exact hitems items
  | list items =>
      simp only [content, toBytes, int?, items?, contents_eq_map]
      exact hitems items
  | dict entries =>
      simp only [content, toBytes, int?, items?, contentEntries_eq_map, List.map_map]
      rfl
  | _ => rfl

lemma content_convertInt (v : Value) : v.content.convertInt = v.convertInt := by
  cases v <;> rfl

lemma content_numeralIn (radix : Int) (v : Value) :
    numeralIn radix v.content = numeralIn radix v := by
  cases v <;> rfl

lemma content_convertRadix (v radix : Value) :
    v.content.convertRadix radix.content = v.convertRadix radix := by
  simp only [convertRadix, content_toInt, content_numeralIn]

lemma content_toName (v : Value) : v.content.toName = v.toName := by
  cases v <;> rfl

lemma content_convertText (v encoding substitution : Value) :
    v.content.convertText encoding.content substitution.content =
      v.convertText encoding substitution := by
  simp only [convertText, content_toName]
  cases v <;> rfl

lemma content_of_convertText {v encoding substitution w : Value}
    (h : v.convertText encoding substitution = .ok w) : w.content = w := by
  unfold convertText at h
  obtain ⟨_, -, h⟩ := result_bind_eq_ok.mp h
  obtain ⟨_, -, h⟩ := result_bind_eq_ok.mp h
  split at h
  · obtain ⟨b, -, rfl⟩ := result_map_eq_ok.mp h
    rfl
  · cases h

/-! ## Operators -/

lemma content_arith (f : Int → Int → Int) (v w : Value) :
    arith f v.content w.content = content <$> arith f v w := by
  rw [arith, arith, content_toInt, content_toInt]
  cases v.toInt <;> cases w.toInt <;> rfl

lemma content_divide (f : Int → Int → Int) (v w : Value) :
    divide f v.content w.content = content <$> divide f v w := by
  rw [divide, divide, content_toInt, content_toInt]
  cases v.toInt with
  | error e => rfl
  | ok a =>
      cases w.toInt with
      | error e => rfl
      | ok b =>
          change (if b = 0 then _ else _) = content <$> (if b = 0 then _ else _)
          split <;> rfl

lemma content_shift (f : Int → Nat → Int) (v w : Value) :
    shift f v.content w.content = content <$> shift f v w := by
  rw [shift, shift, content_toInt, content_toInt]
  cases v.toInt with
  | error e => rfl
  | ok a =>
      cases w.toInt with
      | error e => rfl
      | ok b =>
          change (if b < 0 then _ else _) = content <$> (if b < 0 then _ else _)
          split <;> rfl

lemma content_bitwise (f : Int → Int → Int) (v w : Value) :
    bitwise f v.content w.content = content <$> bitwise f v w := by
  cases v <;> cases w <;> rfl

lemma content_ofTypes (types : List (Option Builtin)) :
    content <$> ofTypes types = ofTypes types := by
  unfold ofTypes
  split <;> rfl

lemma contentEntries_merge (xs ys : List (String × Value)) :
    mergeEntries (contentEntries xs) (contentEntries ys) =
      contentEntries (mergeEntries xs ys) := by
  have hvalue (entry : String × Value) : ((ys.lookup entry.1).map content).getD entry.2.content =
      ((ys.lookup entry.1).getD entry.2).content := by
    cases ys.lookup entry.1 <;> rfl
  simp only [mergeEntries, contentEntries_lookup]
  simp only [contentEntries_eq_map, List.map_append, List.map_map, List.filter_map,
    Option.isNone_map, Function.comp_def, hvalue]

lemma content_merge (v w : Value) : merge v.content w.content = content <$> merge v w := by
  have hbits := content_bitwise Integer.bitOr v w
  cases v with
  | dict xs =>
      cases w with
      | dict ys =>
          have hmerged := contentEntries_merge xs ys
          exact congrArg (fun entries => (.ok (dict entries) : Except Fault Value)) hmerged
      | _ => exact hbits
  | _ => exact hbits

lemma content_either (v w : Value) : either v.content w.content = content <$> either v w := by
  unfold either
  rw [content_unionTypes?, content_unionTypes?]
  split
  · exact (content_ofTypes _).symm
  · exact content_merge v w

lemma content_add (v w : Value) : add v.content w.content = content <$> add v w := by
  have harith := content_arith (· + ·) v w
  -- Sequences are only joined to their like; any other operand is a number or refused.
  cases v with
  | bytes kind a =>
      cases w with
      | bytes kind' b => cases kind <;> rfl
      | _ => cases kind <;> rfl
  | bits a =>
      cases w with
      | bits b =>
          exact congrArg (fun c => Except.ok (Value.bits c)) (Bitstring.content_append a b)
      | _ => exact harith
  | tuple xs =>
      cases w with
      | tuple ys =>
          change Except.ok (tuple (contents xs ++ contents ys)) =
            Except.ok (tuple (contents (xs ++ ys)))
          rw [contents_eq_map, contents_eq_map, contents_eq_map, List.map_append]
      | _ => exact harith
  | list xs =>
      cases w with
      | list ys =>
          change Except.ok (list (contents xs ++ contents ys)) =
            Except.ok (list (contents (xs ++ ys)))
          rw [contents_eq_map, contents_eq_map, contents_eq_map, List.map_append]
      | _ => exact harith
  | _ => cases w <;> rfl

lemma repeatChecked_map {α β : Type} (f : α → β) (xs : List α) (count : Int) (beyond : Fault) :
    repeatChecked (xs.map f) count beyond = List.map f <$> repeatChecked xs count beyond := by
  unfold repeatChecked repeatList
  rw [List.length_map]
  cases toIndex count with
  | error e => rfl
  | ok n =>
      change (checkSize _ beyond >>= _) = _ <$> (checkSize _ beyond >>= _)
      cases checkSize (xs.length * n) beyond with
      | error e => rfl
      | ok _ =>
          change Except.ok _ = Except.ok _
          rw [List.map_flatten, List.map_replicate]

lemma content_repeated (count : Int) (v : Value) :
    repeated count v.content = content <$> repeated count v := by
  -- The limit on the size depends on the kind, and a view is not repeated.
  cases v with
  | text s =>
      change (repeatChecked s.toList count .overflow >>= _) =
        content <$> (repeatChecked s.toList count .overflow >>= _)
      cases repeatChecked s.toList count .overflow <;> rfl
  | bytes kind b =>
      cases kind with
      | constant =>
          change (repeatChecked b count .overflow >>= _) =
            content <$> (repeatChecked b count .overflow >>= _)
          cases repeatChecked b count .overflow <;> rfl
      | mutable =>
          change (repeatChecked b count .memory >>= _) =
            content <$> (repeatChecked b count .memory >>= _)
          cases repeatChecked b count .memory <;> rfl
      | view => rfl
  | tuple xs =>
      change (repeatChecked (contents xs) count .memory >>= _) =
        content <$> (repeatChecked xs count .memory >>= _)
      rw [contents_eq_map, repeatChecked_map]
      cases repeatChecked xs count .memory with
      | error e => rfl
      | ok ys => exact congrArg (fun zs => Except.ok (tuple zs)) (contents_eq_map ys).symm
  | list xs =>
      change (repeatChecked (contents xs) count .memory >>= _) =
        content <$> (repeatChecked xs count .memory >>= _)
      rw [contents_eq_map, repeatChecked_map]
      cases repeatChecked xs count .memory with
      | error e => rfl
      | ok ys => exact congrArg (fun zs => Except.ok (list zs)) (contents_eq_map ys).symm
  | _ => rfl

lemma content_mul (v w : Value) : mul v.content w.content = content <$> mul v w := by
  unfold mul
  rw [content_int?, content_int?]
  cases v.int? with
  | none =>
      cases w.int? with
      | none => rfl
      | some b => exact content_repeated b v
  | some a =>
      cases w.int? with
      | none => exact content_repeated a w
      | some b => rfl

lemma content_compareBy (admits : Ordering → Bool) (v w : Value) :
    compareBy admits v.content w.content = content <$> compareBy admits v w := by
  unfold compareBy
  rw [content_compare?]
  cases compare? v w <;> rfl

end Value

/-- The value of an operator for two contents is the content of its value. -/
lemma BinOp.apply_content (op : BinOp) (v w : Value) :
    op.apply v.content w.content = Value.content <$> op.apply v w := by
  cases op with
  | or =>
      change Except.ok _ = Except.ok _
      rw [Value.content_truth]
      split <;> rfl
  | and =>
      change Except.ok _ = Except.ok _
      rw [Value.content_truth]
      split <;> rfl
  | eq => exact congrArg (fun b => Except.ok (Value.bool b)) (Value.content_same v w)
  | ne => exact congrArg (fun b => Except.ok (Value.bool !b)) (Value.content_same v w)
  | lt => exact Value.content_compareBy _ v w
  | le => exact Value.content_compareBy _ v w
  | gt => exact Value.content_compareBy _ v w
  | ge => exact Value.content_compareBy _ v w
  | bitOr => exact Value.content_either v w
  | bitXor => exact Value.content_bitwise _ v w
  | bitAnd => exact Value.content_bitwise _ v w
  | shiftLeft => exact Value.content_shift _ v w
  | logicalShiftRight => exact Value.content_shift _ v w
  | shiftRight => exact Value.content_shift _ v w
  | add => exact Value.content_add v w
  | sub => exact Value.content_arith _ v w
  | mul => exact Value.content_mul v w
  | div => exact Value.content_divide _ v w
  | mod => exact Value.content_divide _ v w

lemma UnOp.apply_content (op : UnOp) (v : Value) :
    op.apply v.content = Value.content <$> op.apply v := by
  cases op with
  | neg =>
      change (v.content.toInt >>= _) = _
      rw [Value.content_toInt]
      change _ = Value.content <$> (v.toInt >>= _)
      cases v.toInt <;> rfl
  | complement =>
      change (v.content.toInt >>= _) = _
      rw [Value.content_toInt]
      change _ = Value.content <$> (v.toInt >>= _)
      cases v.toInt <;> rfl
  | not => exact congrArg (fun b => Except.ok (Value.bool !b)) (Value.content_truth v)

/-! ## Calls -/

namespace Value

/-- A choice that cannot tell values with the same content apart. -/
def Blind (better : Value → Value → Except Fault Bool) : Prop :=
  ∀ v w, better v.content w.content = better v w

lemma content_bestFrom {better : Value → Value → Except Fault Bool} (h : Blind better)
    (best : Value) (vs : List Value) :
    bestFrom better best.content (vs.map content) = content <$> bestFrom better best vs := by
  induction vs generalizing best with
  | nil => rfl
  | cons v vs ih =>
      rw [List.map_cons, bestFrom, bestFrom, h v best]
      cases better v best with
      | error e => rfl
      | ok wins =>
          cases wins with
          | false => exact ih best
          | true => exact ih v

lemma content_best {better : Value → Value → Except Fault Bool} (h : Blind better)
    (vs : List Value) : best better (vs.map content) = content <$> best better vs := by
  cases vs with
  | nil => rfl
  | cons v vs => exact content_bestFrom h v vs

lemma content_extreme {better : Value → Value → Except Fault Bool} (h : Blind better)
    (vs : List Value) : extreme better (vs.map content) = content <$> extreme better vs := by
  match vs with
  | [] => rfl
  | [v] =>
      simp only [extreme, List.map_cons, List.map_nil, content_items?]
      cases v.items? with
      | none => rfl
      | some items => exact content_best h items
  | v :: w :: rest => exact content_best h (v :: w :: rest)

end Value

/-- A function of expressions gives the content of its value for the contents of its arguments. -/
lemma Builtin.apply_content (f : Builtin) (args : List Value) :
    f.apply (args.map Value.content) = Value.content <$> f.apply args := by
  -- A result that holds no bitstring is its own content.
  have hnumber : ∀ x : Except Fault Value, (∀ v, x = .ok v → v.content = v) →
      x = Value.content <$> x := by
    intro x hx
    cases x with
    | error e => rfl
    | ok v => exact congrArg Except.ok (hx v rfl).symm
  -- The arguments are split up to one more than the function takes; more are refused alike.
  cases f with
  | len =>
      rcases args with _ | ⟨v, _ | ⟨w, rest⟩⟩
      · rfl
      · simp only [List.map_cons, List.map_nil, apply, Value.content_size?]
        cases v.size? <;> rfl
      · rfl
  | abs =>
      rcases args with _ | ⟨v, _ | ⟨w, rest⟩⟩
      · rfl
      · simp only [List.map_cons, List.map_nil, apply, Value.content_toInt]
        cases v.toInt <;> rfl
      · rfl
  | min => exact Value.content_extreme Value.content_less args
  | max => exact Value.content_extreme (fun v w => Value.content_less w v) args
  | int =>
      rcases args with _ | ⟨v, _ | ⟨radix, _ | ⟨w, rest⟩⟩⟩
      · rfl
      · simp only [List.map_cons, List.map_nil, apply, Value.content_convertInt]
        refine hnumber _ fun w hw => ?_
        unfold Value.convertInt at hw
        split at hw
        · cases hw
          rfl
        · split at hw <;> cases hw
          rfl
      · simp only [List.map_cons, List.map_nil, apply, Value.content_convertRadix]
        refine hnumber _ fun w hw => ?_
        obtain ⟨n, -, hw⟩ := result_bind_eq_ok.mp hw
        unfold Value.numeralIn at hw
        split at hw
        · cases hw
        · split at hw
          · cases hw
          · split at hw <;> cases hw
            rfl
      · rfl
  | bool =>
      rcases args with _ | ⟨v, _ | ⟨w, rest⟩⟩
      · rfl
      · exact congrArg (fun b => Except.ok (Value.bool b)) v.content_truth
      · rfl
  | bytes =>
      rcases args with _ | ⟨v, _ | ⟨encoding, _ | ⟨substitution, _ | ⟨w, rest⟩⟩⟩⟩
      · rfl
      · simp only [List.map_cons, List.map_nil, apply, Value.content_toBytes]
        cases v.toBytes <;> rfl
      · change v.content.convertText encoding.content (Value.text "strict").content =
          Value.content <$> v.convertText encoding (.text "strict")
        rw [Value.content_convertText]
        exact hnumber _ fun w hw => Value.content_of_convertText hw
      · simp only [List.map_cons, List.map_nil, apply, Value.content_convertText]
        exact hnumber _ fun w hw => Value.content_of_convertText hw
      · rfl

end BitPattern
