import BitPattern.Proofs.Text.Written
import BitPattern.Text.SExpr

/-!
# Reading S-expressions back

The written form of an S-expression shows the S-expression, and where it ends, provided that no
symbol in it is written like something else (`Legible`): a symbol may not be empty or a number, and
here it holds no character that needs a backslash.

An opening parenthesis and a double quote each begin one kind of S-expression only.  Numbers and
symbols go on to the next blank or closing parenthesis (`Stops`), and a list ends at a closing
parenthesis, which begins no item.  So two S-expressions whose written forms are the same up to some
place are the same (`Readable`), by induction over the first of them.
-/

namespace BitPattern.Text.SExpr

/-! ## Atoms -/

/-- A character that a symbol holds as it is. -/
def isAtomChar (c : Char) : Bool :=
  !symbolSpecials.contains c

/-- A symbol that is written as it is and cannot be taken for a number. -/
structure Plain (s : String) : Prop where
  ne_empty : s.toList ≠ []
  atom : ∀ c ∈ s.toList, isAtomChar c = true
  not_number : ∀ n, s ≠ decimal n

/-- The symbols of an S-expression are plain. -/
inductive Legible : SExpr → Prop where
  | int (n : Int) : Legible (.int n)
  | string (s : String) : Legible (.string s)
  | symbol {s : String} (h : Plain s) : Legible (.symbol s)
  | list {items : List SExpr} (h : ∀ t ∈ items, Legible t) : Legible (.list items)

lemma isAtomChar_of_isDigit {c : Char} (h : c.isDigit = true ∨ c = '-') : isAtomChar c = true := by
  have hspecials : symbolSpecials.all fun d => !d.isDigit && d != '-' := by decide
  by_contra hspecial
  have hmem : c ∈ symbolSpecials := by simpa [isAtomChar] using hspecial
  have hc := List.all_eq_true.mp hspecials c hmem
  rcases h with h | rfl
  · simp [h] at hc
  · simp at hc

lemma isDigit_mem_decimal (n : Int) : ∃ c ∈ (decimal n).toList, c.isDigit = true := by
  have hne : Nat.toDigits 10 n.natAbs ≠ [] := Nat.toDigits_ne_nil
  obtain ⟨c, hc⟩ := List.exists_mem_of_ne_nil _ hne
  rw [toList_decimal]
  exact ⟨c, List.mem_append_right _ hc,
    Nat.isDigit_of_mem_toDigits (by decide) (by decide) hc⟩

/-- A symbol without digits is plain unless it holds a character that needs a backslash. -/
lemma plain_of_no_digit {s : String} (hne : s.toList ≠ [])
    (h : s.toList.all fun c => isAtomChar c && !c.isDigit) : Plain s := by
  have hchars := List.all_eq_true.mp h
  refine ⟨hne, fun c hc => (Bool.and_eq_true_iff.mp (hchars c hc)).1, ?_⟩
  rintro n rfl
  obtain ⟨c, hc, hdigit⟩ := isDigit_mem_decimal n
  simpa [hdigit] using hchars c hc

/-! ## Written forms -/

/-- The characters of the written form. -/
def chars (t : SExpr) : List Char :=
  t.render.toList

/-- Items of a list, each with a blank before it. -/
def spaced (items : List SExpr) : List Char :=
  items.flatMap fun t => ' ' :: t.chars

lemma renderItems_eq_map (items : List SExpr) : renderItems items = items.map render := by
  induction items with
  | nil => rfl
  | cons t items ih => rw [renderItems, ih, List.map_cons]

@[simp] lemma chars_int (n : Int) : (int n).chars = (decimal n).toList := by
  rw [chars, render]

@[simp] lemma chars_string (s : String) :
    (string s).chars = '"' :: (s.toList.flatMap escapeChar ++ ['"']) := by
  rw [chars, render, String.toList_ofList]

lemma Plain.chars_symbol {s : String} (h : Plain s) : (symbol s).chars = s.toList := by
  have hescape : ∀ c ∈ s.toList, escapeSymbolChar c = [c] := by
    intro c hc
    have hatom := h.atom c hc
    rw [isAtomChar, Bool.not_eq_true'] at hatom
    rw [escapeSymbolChar, hatom]
    rfl
  rw [chars, render, String.toList_ofList, List.flatMap_congr hescape, List.flatMap_singleton']

@[simp] lemma chars_nil : (list []).chars = ['(', ')'] := rfl

@[simp] lemma chars_cons (t : SExpr) (items : List SExpr) :
    (list (t :: items)).chars = '(' :: (t.chars ++ (spaced items ++ [')'])) := by
  rw [chars, render, renderItems, renderItems_eq_map, String.toList_append, String.toList_append,
    toList_intercalate_cons, List.flatMap_map]
  simp [spaced, chars]

/-! ## Where written forms end -/

/-- What may stand behind the written form of an S-expression within that of another. -/
def Stops (s : List Char) : Prop :=
  ∀ c ∈ s.head?, c = ' ' ∨ c = ')'

@[simp] lemma stops_nil : Stops [] := by
  simp [Stops]

@[simp] lemma stops_cons {c : Char} {s : List Char} : Stops (c :: s) ↔ c = ' ' ∨ c = ')' := by
  simp [Stops]

lemma Stops.isAtomChar {s : List Char} (h : Stops s) : ∀ c ∈ s.head?, isAtomChar c = false := by
  intro c hc
  rcases h c hc with rfl | rfl <;> rfl

variable {t t' : SExpr} {s s' : List Char}

/-- The written forms of two S-expressions tell them apart, and show where they end. -/
def Readable (t t' : SExpr) : Prop :=
  ∀ s s', Stops s → Stops s' → t.chars ++ s = t'.chars ++ s' → t = t' ∧ s = s'

lemma Readable.symm (h : Readable t t') : Readable t' t := fun s s' hs hs' heq =>
  (h s' s hs' hs heq.symm).imp Eq.symm Eq.symm

lemma readable_of_ne (h : ∀ s s', t.chars ++ s ≠ t'.chars ++ s') : Readable t t' :=
  fun s s' _ _ heq => absurd heq (h s s')

/-! ## Numbers and symbols -/

/-- A number or a symbol, and the run of characters as which it is written. -/
inductive Atom : SExpr → List Char → Prop where
  | int (n : Int) : Atom (.int n) (decimal n).toList
  | symbol {s : String} (h : Plain s) : Atom (.symbol s) s.toList

namespace Atom

variable {w w' : List Char}

lemma chars_eq (h : Atom t w) : t.chars = w := by
  cases h with
  | int n => exact chars_int n
  | symbol h => exact h.chars_symbol

lemma ne_nil (h : Atom t w) : w ≠ [] := by
  cases h with
  | int n =>
      obtain ⟨c, hc, -⟩ := isDigit_mem_decimal n
      exact List.ne_nil_of_mem hc
  | symbol h => exact h.ne_empty

lemma atom (h : Atom t w) : ∀ c ∈ w, isAtomChar c = true := by
  cases h with
  | int n => exact fun c hc => isAtomChar_of_isDigit (isDigit_of_mem_decimal hc)
  | symbol h => exact h.atom

lemma inj (h : Atom t w) (h' : Atom t' w) : t = t' := by
  cases h with
  | int n =>
      generalize hw : (decimal n).toList = w at h'
      cases h' with
      | int m => rw [decimal_injective (String.toList_inj.mp hw)]
      | symbol h' => exact absurd (String.toList_inj.mp hw).symm (h'.not_number n)
  | @symbol a h =>
      generalize hw : a.toList = w at h'
      cases h' with
      | int m => exact absurd (String.toList_inj.mp hw) (h.not_number m)
      | symbol h' => rw [String.toList_inj.mp hw]

lemma append_ne {c : Char} (h : Atom t w) (hc : isAtomChar c = false) : t.chars ++ s ≠ c :: s' := by
  rw [h.chars_eq]
  intro heq
  obtain ⟨d, rest, rfl⟩ := List.exists_cons_of_ne_nil h.ne_nil
  have hd := h.atom d List.mem_cons_self
  rw [(List.cons.inj heq).1, hc] at hd
  cases hd

lemma readable (h : Atom t w) (h' : Atom t' w') : Readable t t' := by
  intro s s' hs hs' heq
  rw [h.chars_eq, h'.chars_eq] at heq
  obtain ⟨rfl, hrest⟩ := cut_inj h.atom h'.atom hs.isAtomChar hs'.isAtomChar heq
  exact ⟨h.inj h', hrest⟩

end Atom

/-! ## Strings -/

/-- The character of an escape that begins after its backslash, and what is left. -/
def escapedAhead : List Char → Option (Char × List Char)
  | 'b' :: rest => some (Char.ofNat 8, rest)
  | 'f' :: rest => some (Char.ofNat 12, rest)
  | 'n' :: rest => some ('\n', rest)
  | 'r' :: rest => some ('\r', rest)
  | 't' :: rest => some ('\t', rest)
  | c :: rest => some (c, rest)
  | [] => none

/-- The first character of the inside of a string, and what is left. -/
def unescapeChar : List Char → Option (Char × List Char)
  | [] => none
  | c :: rest => if c == '\\' then escapedAhead rest else some (c, rest)

/-- What is written for a character of a string can be read back, whatever stands behind it. -/
lemma unescapeChar_escapeChar (c : Char) (s : List Char) :
    unescapeChar (escapeChar c ++ s) = some (c, s) := by
  have hcode {n : Nat} (h : (c.toNat == n) = true) : Char.ofNat n = c := by
    rw [← eq_of_beq h, Char.ofNat_toNat]
  unfold escapeChar
  split_ifs with hsame hb hf hn hr ht
  · rw [Bool.or_eq_true, beq_iff_eq, beq_iff_eq] at hsame
    rcases hsame with rfl | rfl <;> rfl
  · rw [← hcode hb]
    rfl
  · rw [← hcode hf]
    rfl
  · rw [eq_of_beq hn]
    rfl
  · rw [eq_of_beq hr]
    rfl
  · rw [eq_of_beq ht]
    rfl
  · rw [Bool.or_eq_true, not_or] at hsame
    rw [List.singleton_append, unescapeChar, if_neg hsame.2]

lemma escapeChar_append_ne (c : Char) : escapeChar c ++ s ≠ '"' :: s' := by
  intro heq
  have hread := unescapeChar_escapeChar c s
  have hquote : unescapeChar ('"' :: s') = some ('"', s') := rfl
  rw [heq, hquote] at hread
  -- A double quote is written behind a backslash.
  cases hread
  exact absurd (List.cons.inj heq).1 (by decide)

lemma string_readable (a b : String) : Readable (.string a) (.string b) := by
  intro s s' _ _ heq
  simp only [chars_string, List.cons_append, List.append_assoc, List.nil_append, List.cons.injEq,
    true_and] at heq
  obtain ⟨hab, hrest⟩ := flatMap_append_inj_of_read (fun c _ => unescapeChar_escapeChar c)
    (fun c _ _ => escapeChar_append_ne c) heq
  rw [String.toList_inj.mp hab]
  exact ⟨rfl, hrest⟩

/-! ## Lists -/

/-- Atoms, strings and lists begin with characters of their own. -/
lemma Legible.cases_chars (h : t.Legible) : (∃ w, Atom t w) ∨ (∃ a, t = .string a) ∨
    ∃ items, t = .list items ∧ ∀ x ∈ items, x.Legible := by
  cases h with
  | int n => exact .inl ⟨_, .int n⟩
  | string a => exact .inr (.inl ⟨a, rfl⟩)
  | symbol h => exact .inl ⟨_, .symbol h⟩
  | list h => exact .inr (.inr ⟨_, rfl, h⟩)

lemma Legible.append_ne_close (h : t.Legible) : t.chars ++ s ≠ ')' :: s' := by
  rcases h.cases_chars with ⟨w, hatom⟩ | ⟨a, rfl⟩ | ⟨items, rfl, -⟩
  · exact hatom.append_ne rfl
  · intro heq
    rw [chars_string] at heq
    exact absurd (List.cons.inj heq).1 (by decide)
  · cases items <;> (intro heq; simp at heq)

lemma list_readable {items items' : List SExpr} (h : ∀ t ∈ items, t.Legible)
    (h' : ∀ t ∈ items', t.Legible) (hread : ∀ t ∈ items, ∀ t' ∈ items', Readable t t') :
    Readable (.list items) (.list items') := by
  intro s s' _ _ heq
  have hspaced (t : SExpr) (u : List Char) : Stops ((' ' :: t.chars) ++ u) :=
    stops_cons.mpr (.inl rfl)
  cases items with
  | nil =>
      cases items' with
      | nil => exact ⟨rfl, by simpa using heq⟩
      | cons t' items' =>
          simp only [chars_nil, chars_cons, List.cons_append, List.nil_append, List.append_assoc,
            List.cons.injEq, true_and] at heq
          exact absurd heq.symm (h' t' List.mem_cons_self).append_ne_close
  | cons t items =>
      cases items' with
      | nil =>
          simp only [chars_nil, chars_cons, List.cons_append, List.nil_append, List.append_assoc,
            List.cons.injEq, true_and] at heq
          exact absurd heq (h t List.mem_cons_self).append_ne_close
      | cons t' items' =>
          -- A blank before the first items makes them like the others.
          have hall : spaced (t :: items) ++ ')' :: s = spaced (t' :: items') ++ ')' :: s' := by
            simpa [spaced] using heq
          obtain ⟨hitems, hrest⟩ := @flatMap_append_inj SExpr _ Stops ')' _ _ s s' hspaced
            (fun _ => stops_cons.mpr (.inr rfl)) (fun _ _ _ => by simp)
            (fun x hx y hy u v hu hv hxy => hread x hx y hy u v hu hv (List.cons.inj hxy).2) hall
          exact ⟨congrArg _ hitems, hrest⟩

/-! ## S-expressions -/

lemma list_opening (items : List SExpr) : ∃ rest, (list items).chars = '(' :: rest := by
  cases items with
  | nil => exact ⟨_, chars_nil⟩
  | cons t items => exact ⟨_, chars_cons t items⟩

lemma string_readable_list (a : String) (items : List SExpr) :
    Readable (.string a) (.list items) := by
  obtain ⟨rest, hrest⟩ := list_opening items
  refine readable_of_ne fun s s' heq => ?_
  rw [chars_string, hrest] at heq
  exact absurd (List.cons.inj heq).1 (by decide)

lemma Atom.readable_of_legible {w : List Char} (h : Atom t w) (h' : t'.Legible) :
    Readable t t' := by
  rcases h'.cases_chars with ⟨w', hatom⟩ | ⟨a, rfl⟩ | ⟨items, rfl, -⟩
  · exact h.readable hatom
  · refine readable_of_ne fun s s' => ?_
    rw [chars_string]
    exact h.append_ne rfl
  · obtain ⟨rest, hrest⟩ := list_opening items
    refine readable_of_ne fun s s' => ?_
    rw [hrest]
    exact h.append_ne rfl

/-- **The written form of an S-expression shows the S-expression**, and where it ends, if its
symbols are plain. -/
theorem readable_of_legible (h : t.Legible) (h' : t'.Legible) : Readable t t' := by
  induction h generalizing t' with
  | int n => exact (Atom.int n).readable_of_legible h'
  | symbol h => exact (Atom.symbol h).readable_of_legible h'
  | string a =>
      rcases h'.cases_chars with ⟨w, hatom⟩ | ⟨b, rfl⟩ | ⟨items, rfl, -⟩
      · exact (hatom.readable_of_legible (.string a)).symm
      · exact string_readable a b
      · exact string_readable_list a items
  | list h ih =>
      rcases h'.cases_chars with ⟨w, hatom⟩ | ⟨b, rfl⟩ | ⟨items, rfl, hitems⟩
      · exact (hatom.readable_of_legible (.list h)).symm
      · exact (string_readable_list b _).symm
      · exact list_readable h hitems fun t ht t' ht' => ih t ht (hitems t' ht')

/-- S-expressions with plain symbols have distinct written forms. -/
theorem render_inj (h : t.Legible) (h' : t'.Legible) (heq : t.render = t'.render) : t = t' := by
  have hchars : t.chars ++ [] = t'.chars ++ [] := by rw [chars, chars, heq]
  exact (readable_of_legible h h' [] [] stops_nil stops_nil hchars).1

end BitPattern.Text.SExpr
