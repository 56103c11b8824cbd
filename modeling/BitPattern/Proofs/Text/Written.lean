import BitPattern.Proofs.Text.Escape
import BitPattern.Text.Quoted
import Mathlib.Data.List.Basic

/-!
# Written values

Texts put together from written values can be taken apart again if it shows where each value ends.
`cut_inj` cuts at the end of a word, and `flatMap_append_inj` takes one value after the other until
a character that begins none of them; `flatMap_append_inj_of_read` does so with a way to read a
value back.  A quoted byte string shows its end by its quote, since it holds that quote with a
backslash before it only (`quotedBytes_append_inj`).
-/

namespace BitPattern.Text

/-! ## Taking texts apart -/

/-- A text is cut in one way only into characters of a kind and a rest that begins with none. -/
lemma cut_inj {p : Char → Bool} {cs ds s t : List Char} (hcs : ∀ c ∈ cs, p c = true)
    (hds : ∀ d ∈ ds, p d = true) (hs : ∀ c ∈ s.head?, p c = false)
    (ht : ∀ c ∈ t.head?, p c = false) (h : cs ++ s = ds ++ t) : cs = ds ∧ s = t := by
  induction cs generalizing ds with
  | nil =>
      cases ds with
      | nil => exact ⟨rfl, h⟩
      | cons d ds =>
          have hd := hds d List.mem_cons_self
          rw [hs d (by rw [← List.nil_append s, h]; rfl)] at hd
          cases hd
  | cons c cs ih =>
      cases ds with
      | nil =>
          have hc := hcs c List.mem_cons_self
          rw [ht c (by rw [← List.nil_append t, ← h]; rfl)] at hc
          cases hc
      | cons d ds =>
          obtain ⟨rfl, hrest⟩ := List.cons.inj h
          obtain ⟨rfl, rfl⟩ :=
            ih (fun c hc => hcs c (.tail _ hc)) (fun d hd => hds d (.tail _ hd)) hrest
          exact ⟨rfl, rfl⟩

/-- Values written one after the other up to a character that begins none of them.  `ends` is what
is known of the text behind a value. -/
lemma flatMap_append_inj {α : Type} {write : α → List Char} {ends : List Char → Prop} {q : Char}
    {xs ys : List α} {s t : List Char}
    (hends : ∀ x s, ends (write x ++ s)) (hq : ∀ s, ends (q :: s))
    (hne : ∀ x s t, write x ++ s ≠ q :: t)
    (hwrite : ∀ x ∈ xs, ∀ y ∈ ys, ∀ s t, ends s → ends t →
      write x ++ s = write y ++ t → x = y ∧ s = t)
    (h : xs.flatMap write ++ q :: s = ys.flatMap write ++ q :: t) : xs = ys ∧ s = t := by
  have hrest (zs : List α) (u : List Char) : ends (zs.flatMap write ++ q :: u) := by
    cases zs with
    | nil => exact hq u
    | cons z zs =>
        rw [List.flatMap_cons, List.append_assoc]
        exact hends z _
  -- On the values, which are read off the front one after the other.
  induction xs generalizing ys with
  | nil =>
      cases ys with
      | nil => exact ⟨rfl, (List.cons.inj h).2⟩
      | cons y ys =>
          rw [List.flatMap_cons, List.append_assoc] at h
          exact absurd h.symm (hne _ _ _)
  | cons x xs ih =>
      cases ys with
      | nil =>
          rw [List.flatMap_cons, List.append_assoc] at h
          exact absurd h (hne _ _ _)
      | cons y ys =>
          rw [List.flatMap_cons, List.flatMap_cons, List.append_assoc, List.append_assoc] at h
          obtain ⟨rfl, hbehind⟩ := hwrite x List.mem_cons_self y List.mem_cons_self _ _
            (hrest _ _) (hrest _ _) h
          obtain ⟨rfl, rfl⟩ :=
            ih (fun x hx y hy => hwrite x (.tail _ hx) y (.tail _ hy)) hbehind
          exact ⟨rfl, rfl⟩

/-- Values that can be read back one by one, written one after the other up to a character that
begins none of them. -/
lemma flatMap_append_inj_of_read {α : Type} {write : α → List Char}
    {read : List Char → Option (α × List Char)} {q : Char} {xs ys : List α} {s t : List Char}
    (hread : ∀ x, x ∈ xs ∨ x ∈ ys → ∀ s, read (write x ++ s) = some (x, s))
    (hne : ∀ x s t, write x ++ s ≠ q :: t)
    (h : xs.flatMap write ++ q :: s = ys.flatMap write ++ q :: t) : xs = ys ∧ s = t := by
  have hwrite : ∀ x ∈ xs, ∀ y ∈ ys, ∀ u v : List Char, True → True →
      write x ++ u = write y ++ v → x = y ∧ u = v := by
    intro x hx y hy u v _ _ heq
    have hback := hread x (.inl hx) u
    rw [heq, hread y (.inr hy) v] at hback
    cases hback
    exact ⟨rfl, rfl⟩
  exact @flatMap_append_inj α write (fun _ => True) q xs ys s t (fun _ _ => trivial)
    (fun _ => trivial) hne hwrite h

/-- Joined texts are the first one and the others, each with the separator before it. -/
lemma toList_intercalate_cons (sep text : String) (texts : List String) :
    (sep.intercalate (text :: texts)).toList =
      text.toList ++ texts.flatMap fun s => sep.toList ++ s.toList := by
  induction texts generalizing text with
  | nil => simp
  | cons s texts ih =>
      rw [String.intercalate_cons_cons, String.toList_append, String.toList_append, ih,
        List.flatMap_cons, List.append_assoc, List.append_assoc]

/-! ## Decimals -/

/-- A decimal is a minus sign, if the number is negative, and the digits of its absolute value. -/
lemma toList_decimal (n : Int) :
    (decimal n).toList = (if n < 0 then ['-'] else []) ++ Nat.toDigits 10 n.natAbs := by
  unfold decimal
  split
  · rw [String.toList_append, Nat.toList_repr]
    rfl
  · rw [Nat.toList_repr]
    rfl

lemma isDigit_of_mem_decimal {n : Int} {c : Char} (h : c ∈ (decimal n).toList) :
    c.isDigit = true ∨ c = '-' := by
  rw [toList_decimal, List.mem_append] at h
  rcases h with h | h
  · split at h
    · exact .inr (List.mem_singleton.mp h)
    · cases h
  · exact .inl (Nat.isDigit_of_mem_toDigits (by decide) (by decide) h)

lemma decimal_injective : Function.Injective decimal := by
  have hsign {n : Nat} {cs : List Char} : Nat.toDigits 10 n ≠ '-' :: cs := by
    intro h
    have hdigit : '-'.isDigit = true :=
      Nat.isDigit_of_mem_toDigits (by decide) (by decide) (h ▸ List.mem_cons_self)
    revert hdigit
    decide
  have hdigits {m n : Nat} (h : Nat.toDigits 10 m = Nat.toDigits 10 n) : m = n := by
    rw [← @Nat.ofDigitChars_ten_toDigits m, h, Nat.ofDigitChars_ten_toDigits]
  intro m n h
  have h := congrArg String.toList h
  rw [toList_decimal, toList_decimal] at h
  by_cases hm : m < 0 <;> by_cases hn : n < 0 <;>
    simp only [hm, hn, if_true, if_false, List.cons_append, List.nil_append] at h
  · have := hdigits (List.cons.inj h).2
    omega
  · exact absurd h.symm hsign
  · exact absurd h hsign
  · have := hdigits h
    omega

/-! ## Bytes as characters -/

lemma latinChar_injective : Function.Injective latinChar := by
  intro m n h
  exact UInt8.toNat_inj.mp (by rw [← toNat_latinChar, ← toNat_latinChar, h])

lemma latin_injective : Function.Injective latin := fun _ _ h =>
  List.map_injective_iff.mpr latinChar_injective (String.ofList_injective h)

/-! ## Quoted byte strings -/

/-- The character of an escape that begins after its backslash, and what is left. -/
def escapedAhead : List Char → Option (Char × List Char)
  | 'n' :: rest => some ('\n', rest)
  | 'r' :: rest => some ('\r', rest)
  | 't' :: rest => some ('\t', rest)
  | 'x' :: c :: d :: rest => do
    let high ← hexValue? c
    let low ← hexValue? d
    pure (Char.ofNat (high * 16 + low), rest)
  | c :: rest => some (c, rest)
  | [] => none

/-- The first character of the inside of a quoted text, and what is left. -/
def unquoteChar : List Char → Option (Char × List Char)
  | [] => none
  | c :: rest => if c == '\\' then escapedAhead rest else some (c, rest)

lemma hexValue?_hexDigit {n : Nat} (h : n < 16) : hexValue? (hexDigit n) = some n := by
  have hall : ∀ n < 16, hexValue? (hexDigit n) = some n := by decide
  exact hall n h

lemma isQuote_quoteOf (cs : List Char) : quoteOf cs = '\'' ∨ quoteOf cs = '"' := by
  unfold quoteOf
  split
  · exact .inr rfl
  · exact .inl rfl

variable {q c : Char} {s t : List Char}

/-- What is written for a character can be read back, whatever stands behind it. -/
lemma unquoteChar_quoteChar (hq : q = '\'' ∨ q = '"') (hc : c.toNat < 256) :
    unquoteChar (quoteChar q isPlainAscii c ++ s) = some (c, s) := by
  unfold quoteChar
  split_ifs with hsame hn hr ht hshown
  · rw [Bool.or_eq_true, beq_iff_eq, beq_iff_eq] at hsame
    rcases hsame with rfl | rfl
    · rcases hq with rfl | rfl <;> rfl
    · rfl
  · rw [eq_of_beq hn]
    rfl
  · rw [eq_of_beq hr]
    rfl
  · rw [eq_of_beq ht]
    rfl
  · rw [Bool.or_eq_true, not_or] at hsame
    rw [List.singleton_append, unquoteChar, if_neg hsame.2]
  · have hhigh := hexValue?_hexDigit (n := c.toNat / 16 % 16) (by omega)
    have hlow := hexValue?_hexDigit (n := c.toNat % 16) (by omega)
    have hcode : c.toNat / 16 % 16 * 16 + c.toNat % 16 = c.toNat := by omega
    rw [hexEscape, if_pos (by omega)]
    simp [hexDigits, unquoteChar, escapedAhead, hhigh, hlow, hcode, Char.ofNat_toNat]

lemma quoteChar_append_ne (hq : q = '\'' ∨ q = '"') :
    quoteChar q isPlainAscii c ++ s ≠ q :: t := by
  have hbackslash {u : List Char} : '\\' :: u ≠ q :: t := by
    intro h
    rcases hq with rfl | rfl <;> exact absurd (List.cons.inj h).1 (by decide)
  unfold quoteChar
  split_ifs with hsame
  any_goals exact hbackslash
  · intro h
    rw [(List.cons.inj h).1, beq_self_eq_true] at hsame
    exact hsame rfl
  · unfold hexEscape
    split_ifs <;> exact hbackslash

/-- A quoted byte string shows where it ends, and what it denotes. -/
theorem quotedBytes_append_inj {b b' : List UInt8}
    (h : (quotedBytes b).toList ++ s = (quotedBytes b').toList ++ t) : b = b' ∧ s = t := by
  have hbyte {b : List UInt8} {c : Char} (hc : c ∈ b.map latinChar) : c.toNat < 256 := by
    obtain ⟨byte, -, rfl⟩ := List.mem_map.mp hc
    rw [toNat_latinChar]
    exact byte.toNat_lt
  simp only [quotedBytes, String.toList_ofList, quoteChars, List.cons_append, List.append_assoc,
    List.nil_append, List.cons.injEq, true_and] at h
  obtain ⟨hquote, h⟩ := h
  have hq := isQuote_quoteOf (b.map latinChar)
  rw [← hquote] at h
  generalize quoteOf (b.map latinChar) = q at hq h
  have hread : ∀ c, c ∈ b.map latinChar ∨ c ∈ b'.map latinChar → ∀ u,
      unquoteChar (quoteChar q isPlainAscii c ++ u) = some (c, u) := by
    rintro c (hc | hc) u
    · exact unquoteChar_quoteChar hq (hbyte hc)
    · exact unquoteChar_quoteChar hq (hbyte hc)
  obtain ⟨hb, hs⟩ := flatMap_append_inj_of_read hread (fun _ _ _ => quoteChar_append_ne hq) h
  exact ⟨List.map_injective_iff.mpr latinChar_injective hb, hs⟩

end BitPattern.Text
