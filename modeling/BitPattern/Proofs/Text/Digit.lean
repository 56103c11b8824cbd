import BitPattern.Proofs.Text.Name
import BitPattern.Text.Escape
import BitPattern.Text.Numeral

/-!
# Digits

The digits of a radix up to sixteen, each with the case of its letter.  `Digit.digitBelow?_char`
says that a digit is read as its value, and `exists_digit` that nothing else is read as one.
-/

namespace BitPattern.Text

/-- A digit of a radix.  Where it is written with a letter, the letter is a capital one or not. -/
structure Digit (radix : ℕ) where
  value : Fin radix
  capital : Bool
  deriving DecidableEq, Repr

/-- The character of a digit of sixteen. -/
def digitChar (n : ℕ) (capital : Bool) : Char :=
  if capital then n.digitChar.toUpper else n.digitChar

lemma digitValue?_digitChar {n : ℕ} (h : n < 16) (capital : Bool) :
    digitValue? (digitChar n capital) = some n := by
  have hall : ∀ n < 16, ∀ capital, digitValue? (digitChar n capital) = some n := by decide
  exact hall n h capital

lemma hexValue?_digitChar {n : ℕ} (h : n < 16) (capital : Bool) :
    hexValue? (digitChar n capital) = some n := by
  have hall : ∀ n < 16, ∀ capital, hexValue? (digitChar n capital) = some n := by decide
  exact hall n h capital

lemma octalValue?_digitChar {n : ℕ} (h : n < 8) (capital : Bool) :
    octalValue? (digitChar n capital) = some n := by
  have hall : ∀ n < 8, ∀ capital, octalValue? (digitChar n capital) = some n := by decide
  exact hall n h capital

lemma isAlphanum_digitChar {n : ℕ} (h : n < 16) (capital : Bool) :
    (digitChar n capital).isAlphanum = true := by
  have hall : ∀ n < 16, ∀ capital, (digitChar n capital).isAlphanum = true := by decide
  exact hall n h capital

/-- Letters and digits are characters of ASCII. -/
lemma toNat_lt_of_isAlphanum {c : Char} (h : c.isAlphanum = true) : c.toNat < 0x80 := by
  have hword : isWordChar c = true := by rw [isWordChar, h, Bool.true_or]
  exact Nat.lt_of_le_of_lt (toNat_le_of_isWordChar hword) (by decide)

/-- What is read as a digit below sixteen is the character of one. -/
lemma digitValue?_eq_some {c : Char} {n : ℕ} (h : digitValue? c = some n) (hn : n < 16) :
    ∃ capital, digitChar n capital = c := by
  have hchar (capital : Bool) (k : ℕ) (hle : k ≤ c.toNat) (hvalue : c.toNat - k = n)
      (hdigit : digitChar n capital = Char.ofNat (n + k)) : ∃ capital, digitChar n capital = c := by
    have hcode : n + k = c.toNat := by omega
    exact ⟨capital, by rw [hdigit, hcode, Char.ofNat_toNat]⟩
  have hdecimal : ∀ n < 10, digitChar n false = Char.ofNat (n + 48) := by decide
  have hsmall : ∀ n < 16, 10 ≤ n → digitChar n false = Char.ofNat (n + 87) := by decide
  have hcapital : ∀ n < 16, 10 ≤ n → digitChar n true = Char.ofNat (n + 55) := by decide
  simp only [digitValue?, Bool.and_eq_true, decide_eq_true_eq, Char.le_def,
    UInt32.le_iff_toNat_le, Char.toNat_val, Char.reduceToNat] at h
  split_ifs at h with h0 ha hA
  · have hvalue := Option.some.inj h
    exact hchar false 48 (by omega) hvalue (hdecimal n (by omega))
  · have hvalue := Option.some.inj h
    exact hchar false 87 (by omega) hvalue (hsmall n hn (by omega))
  · have hvalue := Option.some.inj h
    exact hchar true 55 (by omega) hvalue (hcapital n hn (by omega))

namespace Digit

variable {radix : ℕ}

/-- The character of a digit. -/
def char (d : Digit radix) : Char :=
  digitChar d.value d.capital

variable (d : Digit radix)

lemma lt_sixteen (h : radix ≤ 16) : (d.value : ℕ) < 16 :=
  Nat.lt_of_lt_of_le d.value.isLt h

lemma digitValue?_char (h : radix ≤ 16) : digitValue? d.char = some ↑d.value :=
  digitValue?_digitChar (d.lt_sixteen h) d.capital

/-- A digit is read as its value. -/
theorem digitBelow?_char (h : radix ≤ 16) : digitBelow? radix d.char = some ↑d.value := by
  rw [digitBelow?, d.digitValue?_char h, Option.bind_some, if_pos d.value.isLt]

lemma isAlphanum_char (h : radix ≤ 16) : d.char.isAlphanum = true :=
  isAlphanum_digitChar (d.lt_sixteen h) d.capital

/-- A digit is no underscore. -/
lemma char_ne_underscore (h : radix ≤ 16) : (d.char != '_') = true := by
  rw [bne_iff_ne]
  intro hchar
  have halphanum := d.isAlphanum_char h
  rw [hchar] at halphanum
  exact absurd halphanum (by decide)

end Digit

/-- What is read as a digit is one. -/
theorem exists_digit {radix n : ℕ} {c : Char} (hradix : radix ≤ 16)
    (h : digitBelow? radix c = some n) : ∃ d : Digit radix, d.char = c := by
  obtain ⟨m, hm, hlt⟩ := Option.bind_eq_some_iff.mp h
  split_ifs at hlt with hbelow
  obtain ⟨capital, hchar⟩ := digitValue?_eq_some hm (Nat.lt_of_lt_of_le hbelow hradix)
  exact ⟨⟨⟨m, hbelow⟩, capital⟩, hchar⟩

end BitPattern.Text
