import BitPattern.Proofs.Plan.Loadable
import BitPattern.Proofs.Text.Name
import BitPattern.Proofs.Text.Written

/-!
# Reading the code of expressions

No two expressions have the same code, provided that the names in them are usable.  The code of an
expression has one of six forms (`Form`), and each begins with a word, which may be empty, and goes
on with a parenthesis or a quote, or ends.  Where the word ends can be seen, since whatever stands
behind a code within another one is a blank, a comma or a closing parenthesis (`Stops`).  So a code
shows its form, its parts, and where it ends: `Form.text_append_inj` is the step, and
`code_append_inj` the induction over the parts.

Within parentheses three forms meet.  A tuple shows by the comma after its first item, and an
operator between operands by the blank after the first of them.  A sign before an operand could only
be mistaken for the beginning of that operand: `-` for the sign of a number and `not` for a name.
The first stands before more than a number, and the second is a reserved word (`signed_ne`).
-/

namespace BitPattern

open BitPattern.Text

/-! ## Words -/

/-- A character of a word of a code: one of a name, or a minus sign. -/
def isCodeChar (c : Char) : Bool :=
  isNameRest c || c == '-'

/-- What may stand behind the code of an expression within that of another. -/
def Stops (s : List Char) : Prop :=
  ∀ c ∈ s.head?, c = ' ' ∨ c = ',' ∨ c = ')'

@[simp] lemma stops_nil : Stops [] := by
  simp [Stops]

@[simp] lemma stops_cons {c : Char} {s : List Char} :
    Stops (c :: s) ↔ c = ' ' ∨ c = ',' ∨ c = ')' := by
  simp [Stops]

lemma Stops.head_eq_false {s : List Char} (h : Stops s) : ∀ c ∈ s.head?, isCodeChar c = false := by
  intro c hc
  rcases h c hc with rfl | rfl | rfl <;> decide

lemma isNameRest_of_isNameStart {c : Char} (h : isNameStart c = true) : isNameRest c = true := by
  unfold isNameStart at h
  unfold isNameRest
  split at h
  · rename_i hcode
    rw [if_pos hcode, isWordChar_iff]
    rw [Bool.or_eq_true, beq_iff_eq] at h
    exact .inr h
  · rename_i hcode
    rw [if_neg hcode, h, Bool.true_or]

lemma isNameRest_of_isIdentifier {x : String} (h : isIdentifier x = true) :
    x.toList ≠ [] ∧ ∀ c ∈ x.toList, isNameRest c = true := by
  unfold isIdentifier at h
  split at h
  · cases h
  · rename_i c rest hx
    rw [Bool.and_eq_true] at h
    rw [hx]
    exact ⟨List.cons_ne_nil _ _,
      List.forall_mem_cons.mpr ⟨isNameRest_of_isNameStart h.1, List.all_eq_true.mp h.2⟩⟩

lemma isCodeChar_of_isDigit {c : Char} (h : c.isDigit = true) : isCodeChar c = true := by
  have hcode := (toNat_of_isDigit h).2
  rw [isCodeChar, isNameRest, if_pos (by omega), isWordChar_iff.mpr (.inl h), Bool.true_or]

/-! ## Signs -/

lemma BinOp.code_inj : Function.Injective BinOp.code := by
  intro op op' h
  cases op <;> cases op' <;> first | rfl | (simp [BinOp.code] at h)

lemma BinOp.blank_not_mem_code {op : BinOp} {sign : String} (h : op.code = .inl sign) :
    ∀ c ∈ sign.toList, (c != ' ') = true := by
  rw [← List.all_eq_true]
  cases op <;> cases h <;> decide

/-- A function that is called for an operator has a name that begins like a generated one. -/
lemma BinOp.isGenerated_of_code {op : BinOp} {function : String} (h : op.code = .inr function) :
    isGenerated function = true ∧ function.toList.all isNameRest = true := by
  cases op <;> cases h <;> decide

namespace Expr

open Plan

/-! ## Forms -/

/-- How the code of an expression is put together. -/
inductive Form where
  /-- A number, a truth value or a name. -/
  | word (w : String)
  | quoted (b : List UInt8)
  /-- A function, which may stand for an operator, with arguments. -/
  | applied (function : String) (args : List Expr)
  /-- An operator between its operands. -/
  | between (sign : String) (left right : Expr)
  | signed (op : UnOp) (operand : Expr)
  | tuple (items : List Expr)

/-- The form of the code of an expression. -/
def form : Expr → Form
  | int n => .word (decimal n)
  | bytes b => .quoted b
  | bool b => .word (dumpBool b)
  | name x => .word x
  | binary op left right =>
    match op.code with
    | .inl sign => .between sign left right
    | .inr function => .applied function [left, right]
  | unary op operand => .signed op operand
  | call function args => .applied function args
  | tuple items => .tuple items

/-- Codes of expressions, each with a comma before it. -/
def more (es : List Expr) : List Char :=
  es.flatMap fun e => ", ".toList ++ e.code.toList

/-- Codes of expressions with commas between them. -/
def listed : List Expr → List Char
  | [] => []
  | e :: es => e.code.toList ++ more es

/-- The items of a tuple behind the comma that follows the first one. -/
def others : List Expr → List Char
  | [] => []
  | e :: es => ' ' :: listed (e :: es)

/-- The items of a tuple. -/
def tupled : List Expr → List Char
  | [] => []
  | e :: es => e.code.toList ++ ',' :: others es

namespace Form

/-- The word with which a code of this form begins. -/
def opening : Form → List Char
  | word w => w.toList
  | quoted _ => ['b']
  | applied function _ => function.toList
  | between .. | signed .. | tuple _ => []

/-- What is behind that word. -/
def remainder : Form → List Char
  | word _ => []
  | quoted b => quoteChars isPlainAscii (b.map latinChar)
  | applied _ args => '(' :: (listed args ++ [')'])
  | between sign left right =>
    '(' :: (left.code.toList ++ ' ' :: (sign.toList ++ ' ' :: (right.code.toList ++ [')'])))
  | signed op operand => '(' :: (op.code.toList ++ (operand.code.toList ++ [')']))
  | tuple items => '(' :: (tupled items ++ [')'])

/-- The code of an expression of this form. -/
def text (f : Form) : List Char :=
  f.opening ++ f.remainder

/-- The expressions whose codes are parts of it. -/
def parts : Form → List Expr
  | word _ | quoted _ => []
  | applied _ args => args
  | between _ left right => [left, right]
  | signed _ operand => [operand]
  | tuple items => items

end Form

lemma toList_intercalate_codesOf (es : List Expr) :
    (", ".intercalate (codesOf es)).toList = listed es := by
  cases es with
  | nil => rfl
  | cons e es => rw [codesOf, toList_intercalate_cons, codesOf_eq_map, List.flatMap_map]; rfl

lemma toList_code (e : Expr) : e.code.toList = e.form.text := by
  cases e with
  | int n => simp [code, form, Form.text, Form.opening, Form.remainder]
  | bytes b => simp [code, form, Form.text, Form.opening, Form.remainder, quotedBytes]
  | bool b => simp [code, form, Form.text, Form.opening, Form.remainder]
  | name x => simp [code, form, Form.text, Form.opening, Form.remainder]
  | binary op left right =>
      cases hop : op.code with
      | inl sign => simp [code, hop, form, Form.text, Form.opening, Form.remainder]
      | inr function =>
          simp [code, hop, form, Form.text, Form.opening, Form.remainder, listed, more]
  | unary op operand => simp [code, form, Form.text, Form.opening, Form.remainder]
  | call function args =>
      simp only [code, form, Form.text, Form.opening, Form.remainder, String.toList_append,
        toList_intercalate_codesOf, List.append_assoc]
      rfl
  | tuple items =>
      have hcodes := toList_intercalate_codesOf items
      -- A tuple of one item is written with a comma of its own.
      rcases items with - | ⟨e, - | ⟨e', es⟩⟩ <;>
        simp only [code, codesOf, dumpTuple, form, Form.text, Form.opening, Form.remainder, tupled,
          others, String.toList_append] at hcodes ⊢
      · rfl
      · simp
      · rw [hcodes]
        simp [listed, more]

/-- Induction over the parts of codes. -/
theorem rec_parts {motive : Expr → Prop} (step : ∀ e, (∀ x ∈ e.form.parts, motive x) → motive e)
    (e : Expr) : motive e := by
  induction e with
  | int | bytes | bool | name => exact step _ (fun x hx => by cases hx)
  | binary op left right ihl ihr =>
      refine step _ fun x hx => ?_
      have hx : x ∈ [left, right] := by
        rw [form] at hx
        split at hx <;> exact hx
      rcases List.mem_pair.mp hx with rfl | rfl
      · exact ihl
      · exact ihr
  | unary op operand ih =>
      refine step _ fun x hx => ?_
      rw [List.mem_singleton.mp hx]
      exact ih
  | call function args ih => exact step _ ih
  | tuple items ih => exact step _ ih

/-! ## Sound forms -/

/-- A form whose words can be told from one another and from what stands behind them. -/
def Form.Sound : Form → Prop
  | word w => w.toList ≠ [] ∧ (∀ c ∈ w.toList, isCodeChar c = true) ∧ w ≠ "not"
  | applied function _ => function.toList ≠ [] ∧ ∀ c ∈ function.toList, isNameRest c = true
  | between sign _ _ => ∀ c ∈ sign.toList, (c != ' ') = true
  | quoted _ | signed .. | tuple _ => True

/-- The names of an expression can be used in a listing as they are. -/
def Usable (e : Expr) : Prop :=
  ∀ x ∈ e.freeNames, isUsable x = true

lemma Usable.of_mem_parts {e x : Expr} (h : e.Usable) (hx : x ∈ e.form.parts) : x.Usable := by
  intro y hy
  refine h y ?_
  cases e with
  | int | bytes | bool | name => cases hx
  | binary op left right =>
      have hx : x ∈ [left, right] := by
        rw [form] at hx
        split at hx <;> exact hx
      rcases List.mem_pair.mp hx with rfl | rfl
      · exact mem_freeNames_binary.mpr (.inl hy)
      · exact mem_freeNames_binary.mpr (.inr hy)
  | unary op operand =>
      rw [List.mem_singleton.mp hx] at hy
      exact mem_freeNames_unary.mpr hy
  | call function args => exact mem_freeNames_call.mpr (.inr ⟨x, hx, hy⟩)
  | tuple items => exact mem_freeNames_tuple.mpr ⟨x, hx, hy⟩

lemma sound_name {x : String} (h : isUsable x = true) : Form.Sound (.word x) := by
  simp only [isUsable, Bool.and_eq_true, Bool.not_eq_true'] at h
  obtain ⟨hne, hchars⟩ := isNameRest_of_isIdentifier h.1.1
  refine ⟨hne, fun c hc => ?_, ?_⟩
  · rw [isCodeChar, hchars c hc, Bool.true_or]
  · rintro rfl
    exact absurd h.1.2 (by decide)

lemma sound_int (n : Int) : Form.Sound (.word (decimal n)) := by
  have hdigits : Nat.toDigits 10 n.natAbs ≠ [] := Nat.toDigits_ne_nil
  have hchars : ∀ c ∈ (decimal n).toList, isCodeChar c = true := by
    intro c hc
    rcases isDigit_of_mem_decimal hc with hc | rfl
    · exact isCodeChar_of_isDigit hc
    · decide
  refine ⟨?_, hchars, fun heq => ?_⟩
  · rw [toList_decimal]
    exact List.append_ne_nil_of_right_ne_nil _ hdigits
  · have hn : 'n' ∈ (decimal n).toList := heq ▸ List.mem_cons_self
    rcases isDigit_of_mem_decimal hn with h | h <;> revert h <;> decide

lemma sound_bool (b : Bool) : Form.Sound (.word (dumpBool b)) := by
  have hchars : ∀ b, (dumpBool b).toList.all isCodeChar = true := by decide
  refine ⟨?_, List.all_eq_true.mp (hchars b), ?_⟩ <;> cases b <;> decide

lemma Usable.sound {e : Expr} (h : e.Usable) : e.form.Sound := by
  cases e with
  | int n => exact sound_int n
  | bytes b => trivial
  | bool b => exact sound_bool b
  | name x => exact sound_name (h x (mem_freeNames_name.mpr rfl))
  | binary op left right =>
      rw [form]
      split
      · rename_i sign hsign
        exact op.blank_not_mem_code hsign
      · rename_i function hfunction
        obtain ⟨hmark, hchars⟩ := op.isGenerated_of_code hfunction
        refine ⟨fun hnil => ?_, List.all_eq_true.mp hchars⟩
        rw [isGenerated, hnil] at hmark
        cases hmark
  | unary op operand => trivial
  | call function args =>
      have hfunction := h function (mem_freeNames_call.mpr (.inl rfl))
      simp only [isUsable, Bool.and_eq_true] at hfunction
      exact isNameRest_of_isIdentifier hfunction.1.1
  | tuple items => trivial

/-- A number is no identifier. -/
lemma isIdentifier_decimal (n : Int) : isIdentifier (decimal n) = false := by
  unfold isIdentifier
  split
  · rfl
  · rename_i c rest hdecimal
    have hstart : isNameStart c = false := by
      rw [← Bool.not_eq_true]
      intro hstart
      rcases isDigit_of_mem_decimal (hdecimal ▸ List.mem_cons_self) with hc | rfl
      · rw [not_isDigit_of_isNameStart hstart] at hc
        cases hc
      · revert hstart
        decide
    rw [hstart, Bool.false_and]

lemma form_eq_word {e : Expr} {w : String} (he : e.Usable) (h : e.form = .word w) :
    (∃ n, e = .int n ∧ w = decimal n) ∨ (∃ b, e = .bool b ∧ w = dumpBool b) ∨
      e = .name w ∧ isIdentifier w = true ∧ isReserved w = false := by
  cases e with
  | int n => exact .inl ⟨n, rfl, (Form.word.inj h).symm⟩
  | bool b => exact .inr (.inl ⟨b, rfl, (Form.word.inj h).symm⟩)
  | name x =>
      cases h
      have hw := he w (mem_freeNames_name.mpr rfl)
      simp only [isUsable, Bool.and_eq_true, Bool.not_eq_true'] at hw
      exact .inr (.inr ⟨rfl, hw.1⟩)
  | binary op left right =>
      rw [form] at h
      split at h <;> cases h
  | bytes | unary | call | tuple => cases h

lemma form_eq_applied {e : Expr} {function : String} {args : List Expr} (he : e.Usable)
    (h : e.form = .applied function args) :
    (e = .call function args ∧ isGenerated function = false) ∨
      ∃ op left right, e = .binary op left right ∧ op.code = .inr function ∧
        args = [left, right] := by
  cases e with
  | binary op left right =>
      rw [form] at h
      split at h
      · cases h
      · rename_i hop
        cases h
        exact .inr ⟨op, left, right, rfl, hop, rfl⟩
  | call function args =>
      cases h
      have hfunction := he function (mem_freeNames_call.mpr (.inl rfl))
      simp only [isUsable, Bool.and_eq_true, Bool.not_eq_true'] at hfunction
      exact .inl ⟨rfl, hfunction.2⟩
  | int | bytes | bool | name | unary | tuple => cases h

lemma form_eq_between {e left right : Expr} {sign : String}
    (h : e.form = .between sign left right) :
    ∃ op, e = .binary op left right ∧ op.code = .inl sign := by
  cases e with
  | binary op left right =>
      rw [form] at h
      split at h
      · rename_i hop
        cases h
        exact ⟨op, rfl, hop⟩
      · cases h
  | int | bytes | bool | name | unary | call | tuple => cases h

lemma form_eq_own {e : Expr} : (∀ b, e.form = .quoted b → e = .bytes b) ∧
    (∀ op operand, e.form = .signed op operand → e = .unary op operand) ∧
    ∀ items, e.form = .tuple items → e = .tuple items := by
  cases e with
  | binary op left right => cases hop : op.code <;> simp [form, hop]
  | int | bytes | bool | name | unary | call | tuple => simp [form]

/-- Expressions with usable names have the same form only if they are the same. -/
lemma form_inj {e e' : Expr} (he : e.Usable) (he' : e'.Usable) (h : e.form = e'.form) : e = e' := by
  cases hform : e.form with
  | word w =>
      have hword {n : Int} {b : Bool} : decimal n ≠ dumpBool b := by
        intro heq
        have hdecimal := isIdentifier_decimal n
        rw [heq] at hdecimal
        cases b <;> revert hdecimal <;> decide
      have hbool {b b' : Bool} (heq : dumpBool b = dumpBool b') : b = b' := by
        revert b b'
        decide
      have hreserved {b : Bool} : isReserved (dumpBool b) = true := by cases b <;> rfl
      -- No decimal is an identifier and the truth values are reserved, so a number, a truth value
      -- and a name never share a word.
      rcases form_eq_word he hform with ⟨n, rfl, rfl⟩ | ⟨b, rfl, rfl⟩ | ⟨rfl, hw, hw'⟩ <;>
        rcases form_eq_word he' (h ▸ hform) with ⟨m, rfl, heq⟩ | ⟨b', rfl, heq⟩ | ⟨rfl, hw, hw'⟩
      · rw [decimal_injective heq]
      · exact absurd heq hword
      · rw [isIdentifier_decimal] at hw
        cases hw
      · exact absurd heq.symm hword
      · rw [hbool heq]
      · rw [hreserved] at hw'
        cases hw'
      · rw [heq, isIdentifier_decimal] at hw
        cases hw
      · rw [heq, hreserved] at hw'
        cases hw'
      · rfl
  | quoted b => exact (form_eq_own.1 b hform).trans (form_eq_own.1 b (h ▸ hform)).symm
  | applied function args =>
      -- An operator that is written as a call has a generated name, and a usable function has none.
      have hmark {op : BinOp} (hop : op.code = .inr function) (hf : isGenerated function = false) :
          False := by
        rw [(op.isGenerated_of_code hop).1] at hf
        cases hf
      rcases form_eq_applied he hform with ⟨rfl, hf⟩ | ⟨op, left, right, rfl, hop, rfl⟩ <;>
        rcases form_eq_applied he' (h ▸ hform) with ⟨rfl, hf'⟩ | ⟨op', _, _, rfl, hop', hargs⟩
      · rfl
      · exact (hmark hop' hf).elim
      · exact (hmark hop hf').elim
      · cases hargs
        rw [BinOp.code_inj (hop.trans hop'.symm)]
  | between sign left right =>
      obtain ⟨op, rfl, hop⟩ := form_eq_between hform
      obtain ⟨op', rfl, hop'⟩ := form_eq_between (h ▸ hform)
      rw [BinOp.code_inj (hop.trans hop'.symm)]
  | signed op operand =>
      exact (form_eq_own.2.1 op operand hform).trans
        (form_eq_own.2.1 op operand (h ▸ hform)).symm
  | tuple items =>
      exact (form_eq_own.2.2 items hform).trans (form_eq_own.2.2 items (h ▸ hform)).symm

/-! ## Codes within codes -/

variable {s t : List Char}

namespace Form

variable {f g : Form}

lemma isCodeChar_of_mem_opening (hf : f.Sound) : ∀ c ∈ f.opening, isCodeChar c = true := by
  cases f with
  | word w => exact hf.2.1
  | quoted b => exact List.forall_mem_singleton.mpr (by decide)
  | applied function args =>
      intro c hc
      rw [isCodeChar, hf.2 c hc, Bool.true_or]
  | between | signed | tuple => exact fun c hc => by cases hc

/-- Behind its first word a code ends, or goes on with a parenthesis or a quote. -/
lemma remainder_cases (f : Form) :
    (∃ w, f = .word w) ∨ ∃ c cs, f.remainder = c :: cs ∧ (c = '(' ∨ c = '\'' ∨ c = '"') := by
  cases f with
  | word w => exact .inl ⟨w, rfl⟩
  | quoted b => exact .inr ⟨_, _, rfl, .inr (isQuote_quoteOf _)⟩
  | applied | between | signed | tuple => exact .inr ⟨_, _, rfl, .inl rfl⟩

lemma remainder_head_eq_false (f : Form) (hs : Stops s) :
    ∀ c ∈ (f.remainder ++ s).head?, isCodeChar c = false := by
  rcases f.remainder_cases with ⟨w, rfl⟩ | ⟨c, cs, hf, hc⟩
  · exact hs.head_eq_false
  · rw [hf]
    intro d hd
    cases hd
    rcases hc with rfl | rfl | rfl <;> decide

/-- A code shows its first word. -/
lemma opening_inj (hf : f.Sound) (hg : g.Sound) (hs : Stops s) (ht : Stops t)
    (h : f.text ++ s = g.text ++ t) :
    f.opening = g.opening ∧ f.remainder ++ s = g.remainder ++ t := by
  rw [text, text, List.append_assoc, List.append_assoc] at h
  exact cut_inj (isCodeChar_of_mem_opening hf) (isCodeChar_of_mem_opening hg)
    (f.remainder_head_eq_false hs) (g.remainder_head_eq_false ht) h

/-- A code begins with no closing parenthesis and no tilde. -/
lemma text_head (hf : f.Sound) : ∃ c cs, f.text = c :: cs ∧ c ≠ ')' ∧ c ≠ '~' := by
  have hmark {c : Char} (hc : isCodeChar c = true) : c ≠ ')' ∧ c ≠ '~' := by
    constructor <;> rintro rfl <;> revert hc <;> decide
  cases hopening : f.opening with
  | cons c cs =>
      refine ⟨c, cs ++ f.remainder, by rw [text, hopening, List.cons_append], hmark ?_⟩
      exact isCodeChar_of_mem_opening hf c (hopening ▸ List.mem_cons_self)
  | nil =>
      rcases f.remainder_cases with ⟨w, rfl⟩ | ⟨c, cs, hremainder, hc⟩
      · exact absurd hopening hf.1
      · refine ⟨c, cs, by rw [text, hopening, hremainder, List.nil_append], ?_⟩
        rcases hc with rfl | rfl | rfl <;> decide

/-- A sign with its operand is no first operand of an operator and no first item of a tuple. -/
lemma signed_ne {op : UnOp} {c : Char} (hf : f.Sound) (hg : g.Sound) (hc : c = ' ' ∨ c = ',') :
    op.code.toList ++ (f.text ++ ')' :: s) ≠ g.text ++ c :: t := by
  intro h
  have hstops : Stops (c :: t) := stops_cons.mpr (hc.imp_right .inl)
  have hclose : Stops (')' :: s) := stops_cons.mpr (.inr (.inr rfl))
  have hopening := isCodeChar_of_mem_opening hg
  have hremainder := g.remainder_head_eq_false hstops
  cases op with
  | neg =>
      rw [text, text, List.append_assoc, List.append_assoc] at h
      -- The sign can only be that of a number, and then nothing of the operand is left.
      obtain ⟨hword, h⟩ := @cut_inj isCodeChar ('-' :: f.opening) _ _ _
        (List.forall_mem_cons.mpr ⟨by decide, isCodeChar_of_mem_opening hf⟩) hopening
        (f.remainder_head_eq_false hclose) hremainder h
      have hg : g.remainder = [] := by
        cases g with
        | word w => rfl
        | applied function args =>
            have hmem : '-' ∈ (applied function args).opening := hword ▸ List.mem_cons_self
            have hminus : isNameRest '-' = true := hg.2 '-' hmem
            exact absurd hminus (by decide)
        | quoted b => exact absurd (List.cons.inj hword).1 (by decide)
        | between | signed | tuple => cases hword
      rw [hg, List.nil_append] at h
      rcases f.remainder_cases with ⟨w, rfl⟩ | ⟨d, ds, hd, hd'⟩
      · have h := (List.cons.inj h).1
        rcases hc with rfl | rfl <;> revert h <;> decide
      · rw [hd] at h
        have h := (List.cons.inj h).1
        rcases hc with rfl | rfl <;> rcases hd' with rfl | rfl | rfl <;> revert h <;> decide
  | complement =>
      -- No code begins with a tilde without parentheses around it.
      obtain ⟨d, ds, hd, -, hne⟩ := text_head hg
      rw [hd] at h
      exact hne (List.cons.inj h).1.symm
  | not =>
      -- The word would be the opening of the other code, which is no operator.
      have hblank : ∀ d ∈ (' ' :: (f.text ++ ')' :: s)).head?, isCodeChar d = false :=
        (stops_cons.mpr (.inl rfl)).head_eq_false
      have htext : g.text = g.opening ++ g.remainder := rfl
      rw [htext, List.append_assoc] at h
      obtain ⟨hword, h⟩ := @cut_inj isCodeChar ['n', 'o', 't'] _ (' ' :: _) _
        (List.all_eq_true.mp (by decide)) hopening
        hblank hremainder h
      rcases g.remainder_cases with ⟨w, rfl⟩ | ⟨d, ds, hd, hd'⟩
      · exact hg.2.2 (String.toList_inj.mp hword.symm)
      · rw [hd] at h
        have h := (List.cons.inj h).1
        rcases hd' with rfl | rfl | rfl <;> revert h <;> decide

end Form

/-! ## Lists of codes -/

/-- The codes of two expressions, with whatever may stand behind them, are the same only if the
expressions are. -/
def Readable (e e' : Expr) : Prop :=
  ∀ s t, Stops s → Stops t → e.code.toList ++ s = e'.code.toList ++ t → e = e' ∧ s = t

lemma Readable.symm {e e' : Expr} (h : Readable e e') : Readable e' e := by
  intro s t hs ht heq
  obtain ⟨he, hst⟩ := h t s ht hs heq.symm
  exact ⟨he.symm, hst.symm⟩

lemma stops_more (es : List Expr) : Stops (more es ++ ')' :: s) := by
  cases es with
  | nil => exact stops_cons.mpr (.inr (.inr rfl))
  | cons e es => exact stops_cons.mpr (.inr (.inl rfl))

lemma more_inj {es es' : List Expr} (h : ∀ e ∈ es, ∀ e' ∈ es', Readable e e')
    (heq : more es ++ ')' :: s = more es' ++ ')' :: t) : es = es' ∧ s = t := by
  refine @flatMap_append_inj Expr _ Stops ')' es es' s t ?_ ?_ ?_ ?_ heq
  · exact fun _ _ => stops_cons.mpr (.inr (.inl rfl))
  · exact fun _ => stops_cons.mpr (.inr (.inr rfl))
  · exact fun _ _ _ hne => absurd (List.cons.inj hne).1 (by decide)
  · intro e he e' he' u v hu hv huv
    refine h e he e' he' u v hu hv ?_
    simpa using huv

lemma code_append_ne_close {e : Expr} (he : e.form.Sound) : e.code.toList ++ s ≠ ')' :: t := by
  obtain ⟨c, cs, hc, hne, -⟩ := Form.text_head he
  rw [toList_code, hc]
  exact fun heq => hne (List.cons.inj heq).1

lemma listed_inj {es es' : List Expr} (hsound : ∀ e ∈ es ++ es', e.form.Sound)
    (h : ∀ e ∈ es, ∀ e' ∈ es', Readable e e')
    (heq : listed es ++ ')' :: s = listed es' ++ ')' :: t) : es = es' ∧ s = t := by
  cases es with
  | nil =>
      cases es' with
      | nil => exact ⟨rfl, (List.cons.inj heq).2⟩
      | cons e' es' =>
          rw [listed, listed, List.append_assoc] at heq
          exact absurd heq.symm (code_append_ne_close (hsound e' (by simp)))
  | cons e es =>
      cases es' with
      | nil =>
          rw [listed, listed, List.append_assoc] at heq
          exact absurd heq (code_append_ne_close (hsound e (by simp)))
      | cons e' es' =>
          rw [listed, listed, List.append_assoc, List.append_assoc] at heq
          obtain ⟨rfl, hmore⟩ := h e List.mem_cons_self e' List.mem_cons_self _ _ (stops_more es)
            (stops_more es') heq
          obtain ⟨rfl, rfl⟩ :=
            more_inj (fun e he e' he' => h e (.tail _ he) e' (.tail _ he')) hmore
          exact ⟨rfl, rfl⟩

lemma others_inj {es es' : List Expr} (hsound : ∀ e ∈ es ++ es', e.form.Sound)
    (h : ∀ e ∈ es, ∀ e' ∈ es', Readable e e')
    (heq : others es ++ ')' :: s = others es' ++ ')' :: t) : es = es' ∧ s = t := by
  have hblank {u v : List Char} : ')' :: u ≠ ' ' :: v := fun h =>
    absurd (List.cons.inj h).1 (by decide)
  cases es with
  | nil =>
      cases es' with
      | nil => exact ⟨rfl, (List.cons.inj heq).2⟩
      | cons e' es' => exact absurd heq hblank
  | cons e es =>
      cases es' with
      | nil => exact absurd heq.symm hblank
      | cons e' es' => exact listed_inj hsound h (List.cons.inj heq).2

lemma tupled_inj {es es' : List Expr} (hsound : ∀ e ∈ es ++ es', e.form.Sound)
    (h : ∀ e ∈ es, ∀ e' ∈ es', Readable e e')
    (heq : tupled es ++ ')' :: s = tupled es' ++ ')' :: t) : es = es' ∧ s = t := by
  have hcomma {u : List Char} : Stops (',' :: u) := stops_cons.mpr (.inr (.inl rfl))
  cases es with
  | nil =>
      cases es' with
      | nil => exact ⟨rfl, (List.cons.inj heq).2⟩
      | cons e' es' =>
          rw [tupled, tupled, List.append_assoc] at heq
          exact absurd heq.symm (code_append_ne_close (hsound e' (by simp)))
  | cons e es =>
      cases es' with
      | nil =>
          rw [tupled, tupled, List.append_assoc] at heq
          exact absurd heq (code_append_ne_close (hsound e (by simp)))
      | cons e' es' =>
          rw [tupled, tupled, List.append_assoc, List.append_assoc] at heq
          obtain ⟨rfl, hothers⟩ :=
            h e List.mem_cons_self e' List.mem_cons_self _ _ hcomma hcomma heq
          obtain ⟨rfl, rfl⟩ := others_inj
            (fun x hx => hsound x (by simp only [List.mem_append, List.mem_cons] at hx ⊢; tauto))
            (fun e he e' he' => h e (.tail _ he) e' (.tail _ he')) (List.cons.inj hothers).2
          exact ⟨rfl, rfl⟩

/-! ## Codes -/

namespace Form

variable {f g : Form}

lemma remainder_ne_of_stops (hs : Stops s) (hg : ∀ w, g ≠ .word w) : s ≠ g.remainder ++ t := by
  rintro rfl
  rcases g.remainder_cases with ⟨w, rfl⟩ | ⟨c, cs, hc, hc'⟩
  · exact hg w rfl
  · rw [hc, List.cons_append, stops_cons] at hs
    rcases hc' with rfl | rfl | rfl <;> revert hs <;> decide

lemma quoted_remainder_ne {b : List UInt8} : (quoted b).remainder ++ s ≠ '(' :: t := by
  intro h
  have h := (List.cons.inj h).1
  rcases isQuote_quoteOf (b.map latinChar) with hquote | hquote <;> rw [hquote] at h <;>
    revert h <;> decide

lemma between_inj {sign sign' : String} {left right left' right' : Expr}
    (hsign : (between sign left right).Sound) (hsign' : (between sign' left' right').Sound)
    (hleft : Readable left left') (hright : Readable right right')
    (h : (between sign left right).remainder ++ s = (between sign' left' right').remainder ++ t) :
    between sign left right = between sign' left' right' ∧ s = t := by
  have hblank {u : List Char} : Stops (' ' :: u) := stops_cons.mpr (.inl rfl)
  have hclose {u : List Char} : Stops (')' :: u) := stops_cons.mpr (.inr (.inr rfl))
  have hend {u : List Char} : ∀ c ∈ (' ' :: u).head?, (c != ' ') = false := by
    rintro c ⟨⟩
    rfl
  simp only [remainder, List.cons_append, List.append_assoc, List.nil_append] at h
  obtain ⟨rfl, h₁⟩ := hleft _ _ hblank hblank (List.cons.inj h).2
  obtain ⟨hop, h₂⟩ := cut_inj hsign hsign' hend hend (List.cons.inj h₁).2
  obtain ⟨rfl, h₃⟩ := hright _ _ hclose hclose (List.cons.inj h₂).2
  rw [String.toList_inj.mp hop]
  exact ⟨rfl, (List.cons.inj h₃).2⟩

lemma between_ne_tuple {sign : String} {left right : Expr} {items : List Expr}
    (hleft : left.form.Sound) (hread : ∀ e ∈ items, Readable left e) :
    (between sign left right).remainder ++ s ≠ (tuple items).remainder ++ t := by
  intro h
  simp only [remainder, List.cons_append, List.append_assoc, List.nil_append] at h
  have h := (List.cons.inj h).2
  cases items with
  | nil => exact code_append_ne_close hleft h
  | cons e es =>
      rw [tupled, List.append_assoc] at h
      obtain ⟨-, hrest⟩ := hread e List.mem_cons_self _ _ (stops_cons.mpr (.inl rfl))
        (stops_cons.mpr (.inr (.inl rfl))) h
      exact absurd (List.cons.inj hrest).1 (by decide)

lemma signed_ne_between {op : UnOp} {sign : String} {operand left right : Expr}
    (hoperand : operand.form.Sound) (hleft : left.form.Sound) :
    (signed op operand).remainder ++ s ≠ (between sign left right).remainder ++ t := by
  intro h
  simp only [remainder, List.cons_append, List.append_assoc, List.nil_append, toList_code] at h
  exact signed_ne hoperand hleft (.inl rfl) (List.cons.inj h).2

lemma signed_ne_tuple {op : UnOp} {operand : Expr} {items : List Expr}
    (hoperand : operand.form.Sound) (hitems : ∀ e ∈ items, e.form.Sound) :
    (signed op operand).remainder ++ s ≠ (tuple items).remainder ++ t := by
  intro h
  simp only [remainder, List.cons_append, List.append_assoc, List.nil_append] at h
  have h := (List.cons.inj h).2
  cases items with
  | nil => cases op <;> exact absurd (List.cons.inj h).1 (by decide)
  | cons e es =>
      rw [tupled, List.append_assoc, toList_code, toList_code] at h
      exact signed_ne hoperand (hitems e List.mem_cons_self) (.inr rfl) h

lemma signed_inj {op op' : UnOp} {operand operand' : Expr} (hread : Readable operand operand')
    (h : (signed op operand).remainder ++ s = (signed op' operand').remainder ++ t) :
    signed op operand = signed op' operand' ∧ s = t := by
  have hclose {u : List Char} : Stops (')' :: u) := stops_cons.mpr (.inr (.inr rfl))
  simp only [remainder, List.cons_append, List.append_assoc, List.nil_append] at h
  have h := (List.cons.inj h).2
  have hop : op = op' := by
    cases op <;> cases op' <;> first | rfl | exact absurd (List.cons.inj h).1 (by decide)
  subst hop
  obtain ⟨rfl, hrest⟩ := hread _ _ hclose hclose (List.append_cancel_left h)
  exact ⟨rfl, (List.cons.inj hrest).2⟩

/-- The form of a code shows, and with it the parts, and where the code ends. -/
theorem text_append_inj (hf : f.Sound) (hg : g.Sound)
    (hparts : ∀ e ∈ f.parts ++ g.parts, e.form.Sound)
    (hread : ∀ e ∈ f.parts, ∀ e' ∈ g.parts, Readable e e') (hs : Stops s) (ht : Stops t)
    (h : f.text ++ s = g.text ++ t) : f = g ∧ s = t := by
  obtain ⟨hopening, h⟩ := opening_inj hf hg hs ht h
  have hleft : ∀ e ∈ f.parts, e.form.Sound := fun e he => hparts e (List.mem_append_left _ he)
  have hright : ∀ e ∈ g.parts, e.form.Sound := fun e he => hparts e (List.mem_append_right _ he)
  have hbracket {u : List Char} (es : List Expr) : '(' :: (listed es ++ [')']) ++ u =
      '(' :: (listed es ++ ')' :: u) := by simp
  -- The openings are equal, so two different forms differ in what stands behind them; only equal
  -- forms go on to the parts.
  cases f with
  | word w =>
      cases g with
      | word w' =>
          rw [String.toList_inj.mp hopening]
          exact ⟨rfl, h⟩
      | quoted | applied | between | signed | tuple =>
          exact absurd h (remainder_ne_of_stops hs (by simp))
  | quoted b =>
      cases g with
      | word w => exact absurd h.symm (remainder_ne_of_stops ht (by simp))
      | quoted b' =>
          have hquoted : (quotedBytes b).toList ++ s = (quotedBytes b').toList ++ t := by
            simpa [quotedBytes, remainder] using h
          obtain ⟨rfl, hst⟩ := quotedBytes_append_inj hquoted
          exact ⟨rfl, hst⟩
      | applied | between | signed | tuple => exact absurd h quoted_remainder_ne
  | applied function args =>
      cases g with
      | word w => exact absurd h.symm (remainder_ne_of_stops ht (by simp))
      | quoted b => exact absurd h.symm quoted_remainder_ne
      | applied function' args' =>
          rw [remainder, remainder, hbracket, hbracket] at h
          obtain ⟨rfl, hst⟩ := listed_inj hparts hread (List.cons.inj h).2
          rw [String.toList_inj.mp hopening]
          exact ⟨rfl, hst⟩
      | between | signed | tuple => exact absurd hopening hf.1
  | between sign left right =>
      cases g with
      | word w => exact absurd h.symm (remainder_ne_of_stops ht (by simp))
      | quoted b => exact absurd h.symm quoted_remainder_ne
      | applied function args => exact absurd hopening.symm hg.1
      | between sign' left' right' =>
          exact between_inj hf hg (hread left (by simp [parts]) left' (by simp [parts]))
            (hread right (by simp [parts]) right' (by simp [parts])) h
      | signed op operand =>
          exact absurd h.symm (signed_ne_between (hright operand (by simp [parts]))
            (hleft left (by simp [parts])))
      | tuple items =>
          exact absurd h (between_ne_tuple (hleft left (by simp [parts]))
            (hread left (by simp [parts])))
  | signed op operand =>
      have hoperand := hleft operand (by simp [parts])
      cases g with
      | word w => exact absurd h.symm (remainder_ne_of_stops ht (by simp))
      | quoted b => exact absurd h.symm quoted_remainder_ne
      | applied function args => exact absurd hopening.symm hg.1
      | between sign left right =>
          exact absurd h (signed_ne_between hoperand (hright left (by simp [parts])))
      | signed op' operand' =>
          exact signed_inj (hread operand (by simp [parts]) operand' (by simp [parts])) h
      | tuple items => exact absurd h (signed_ne_tuple hoperand hright)
  | tuple items =>
      cases g with
      | word w => exact absurd h.symm (remainder_ne_of_stops ht (by simp))
      | quoted b => exact absurd h.symm quoted_remainder_ne
      | applied function args => exact absurd hopening.symm hg.1
      | between sign left right =>
          exact absurd h.symm (between_ne_tuple (hright left (by simp [parts]))
            fun e he => (hread e he left (by simp [parts])).symm)
      | signed op operand =>
          exact absurd h.symm (signed_ne_tuple (hright operand (by simp [parts])) hleft)
      | tuple items' =>
          simp only [remainder, List.cons_append, List.append_assoc, List.nil_append] at h
          obtain ⟨rfl, hst⟩ := tupled_inj hparts hread (List.cons.inj h).2
          exact ⟨rfl, hst⟩

end Form

/-- **A code shows its expression**, and where it ends, if the names are usable. -/
theorem code_append_inj {e e' : Expr} (he : e.Usable) (he' : e'.Usable) : Readable e e' := by
  induction e using rec_parts generalizing e' with
  | step e ih =>
      intro s t hs ht h
      rw [toList_code, toList_code] at h
      have hparts : ∀ x ∈ e.form.parts ++ e'.form.parts, x.form.Sound := by
        intro x hx
        rcases List.mem_append.mp hx with hx | hx
        · exact (he.of_mem_parts hx).sound
        · exact (he'.of_mem_parts hx).sound
      obtain ⟨hform, hst⟩ := Form.text_append_inj he.sound he'.sound hparts
        (fun x hx y hy => ih x hx (he.of_mem_parts hx) (he'.of_mem_parts hy)) hs ht h
      exact ⟨form_inj he he' hform, hst⟩

end Expr

end BitPattern
