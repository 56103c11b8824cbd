/-!
# Bits

A bit string is a list of truth values, first bit first.  `ofBytes` is the view of a buffer as
bits: bit zero is the most significant bit of the first byte.  `value` reads bits as a number with
the first bit most significant, and `ofNat` writes a number in a given width.  A number that is read
is below the power of two of its width (`value_lt`), and reading one run of bits after another is
shifting and adding (`value_append`).
-/

namespace BitPattern

/-- A buffer. -/
abbrev Bytes := List UInt8

namespace Bits

/-- The bits of a byte, most significant first. -/
def ofByte (b : UInt8) : List Bool :=
  (List.range 8).map fun i => b.toNat.testBit (7 - i)

/-- The bits of a buffer. -/
def ofBytes (data : Bytes) : List Bool :=
  data.flatMap ofByte

/-- The number that bits denote, the first one being most significant. -/
def value (bits : List Bool) : Nat :=
  bits.foldl (fun n b => 2 * n + b.toNat) 0

/-- The number of bit strings of a width, which the numbers of that width stay below. -/
def bound (width : Nat) : Nat :=
  Nat.pow 2 width

@[simp] theorem bound_zero : bound 0 = 1 := rfl

theorem bound_succ (width : Nat) : bound (width + 1) = bound width * 2 := rfl

/-- The low bits of a number in a width, most significant first. -/
def ofNat (width n : Nat) : List Bool :=
  (List.range width).map fun i => n.testBit (width - 1 - i)

@[simp] theorem length_ofByte (b : UInt8) : (ofByte b).length = 8 := by
  simp [ofByte]

@[simp] theorem length_ofBytes (data : Bytes) : (ofBytes data).length = data.length * 8 := by
  induction data with
  | nil => rfl
  | cons b data ih => simp_all [ofBytes]; omega

@[simp] theorem length_ofNat (width n : Nat) : (ofNat width n).length = width := by
  simp [ofNat]

theorem foldl_value (n : Nat) (bits : List Bool) :
    bits.foldl (fun n b => 2 * n + b.toNat) n = n * bound bits.length + value bits := by
  induction bits generalizing n with
  | nil => simp [value]
  | cons b bits ih =>
    rw [value, List.foldl_cons, List.foldl_cons, ih, ih (2 * 0 + b.toNat)]
    simp only [List.length_cons, bound_succ, Nat.add_mul]
    grind

/-- Bits that follow shift the number of those before them to the left. -/
theorem value_append (a b : List Bool) :
    value (a ++ b) = value a * bound b.length + value b := by
  rw [value, List.foldl_append, foldl_value]
  rfl

theorem value_lt (bits : List Bool) : value bits < bound bits.length := by
  induction bits with
  | nil => simp [value]
  | cons b bits ih =>
    rw [value, List.foldl_cons, foldl_value]
    have : (2 * 0 + b.toNat) * bound bits.length ≤ 1 * bound bits.length :=
      Nat.mul_le_mul_right _ (by have := Bool.toNat_le b; omega)
    simp only [List.length_cons, bound_succ]
    omega

/-- The digits of bits. -/
def text (bits : List Bool) : String :=
  String.ofList (bits.map fun b => if b then '1' else '0')

/-! ## Buffers as numbers -/

/-- The number that bytes denote, the first one being most significant. -/
def bytesValue (data : Bytes) : Nat :=
  data.foldl (fun n b => 256 * n + b.toNat) 0

/-- A number as bytes, most significant first. -/
def bytesOf : Nat → Nat → Bytes
  | 0, _ => []
  | count + 1, n => bytesOf count (n / 256) ++ [UInt8.ofNat (n % 256)]

@[simp] theorem length_bytesOf (count n : Nat) : (bytesOf count n).length = count := by
  induction count generalizing n with
  | zero => rfl
  | succ count ih => simp [bytesOf, ih]

end Bits

end BitPattern
