import BitPattern.Text.Blank
import BitPattern.Text.Quoted

/-!
# Integer numerals

Reading an integer in a given radix, from 2 to 36, or in the radix that its marker `0x`, `0o` or
`0b` announces, which is asked for by radix zero.  White space around the numeral, a sign, and
single underscores between digits are accepted.  Without a marker, radix zero reads decimal and
accepts a leading zero only in a numeral that is zero.

Between decimals and integers there is a limit in both directions: an integer whose decimal has more
than 4300 digits is not written, and a numeral with more digits is not read, unless its radix is a
power of two.
-/

namespace BitPattern.Text

/-! ## The limit of decimals -/

/-- The most digits of a numeral that is read or written in a radix other than a power of two. -/
def digitLimit : Nat := 4300

/-- Whether a numeral is short enough to be read in its radix.  Leading zeros count as digits, and
underscores do not. -/
def withinLimit (radix : Nat) (digits : List Char) : Bool :=
  radix &&& (radix - 1) == 0 || digits.countP (· != '_') ≤ digitLimit

/-- Whether the decimal of an integer is short enough to be written. -/
def isWritable (n : Int) : Bool :=
  (Nat.toDigits 10 n.natAbs).length ≤ digitLimit

/-! ## Digits -/

/-- The value of a digit or letter as a digit of the largest radix. -/
def digitValue? (c : Char) : Option Nat :=
  if '0' ≤ c && c ≤ '9' then some (c.toNat - 48)
  else if 'a' ≤ c && c ≤ 'z' then some (c.toNat - 87)
  else if 'A' ≤ c && c ≤ 'Z' then some (c.toNat - 55)
  else none

/-- The value of a digit below the radix. -/
def digitBelow? (radix : Nat) (c : Char) : Option Nat :=
  (digitValue? c).bind fun d => if d < radix then some d else none

/-- Digits with single underscores between them, read from left to right.  `pending` tells that an
underscore has just been passed, and `value` is what the digits so far amount to. -/
def digitsFrom (radix : Nat) (pending : Bool) (value : Nat) : List Char → Option Nat
  | [] => if pending then none else some value
  | c :: rest =>
    if c == '_' then
      if pending then none else digitsFrom radix true value rest
    else (digitBelow? radix c).bind fun d => digitsFrom radix false (value * radix + d) rest

/-- A numeral without sign and marker: it starts with a digit and is short enough. -/
def digits? (radix : Nat) : List Char → Option Nat
  | [] => none
  | c :: rest =>
    if withinLimit radix (c :: rest) then
      (digitBelow? radix c).bind fun d => digitsFrom radix false d rest
    else none

/-- The radix that the letter after a leading zero announces. -/
def markedRadix? (c : Char) : Option Nat :=
  if c == 'x' || c == 'X' then some 16
  else if c == 'o' || c == 'O' then some 8
  else if c == 'b' || c == 'B' then some 2
  else none

/-- The digits after a marker, which one underscore may precede. -/
def markedDigits? (radix : Nat) : List Char → Option Nat
  | '_' :: rest => digits? radix rest
  | cs => digits? radix cs

/-- A numeral without sign. -/
def magnitude? (radix : Nat) (cs : List Char) : Option Nat :=
  match cs with
  | '0' :: c :: rest =>
    match markedRadix? c with
    | some marked =>
      if radix == 0 || radix == marked then markedDigits? marked rest else digits? radix cs
    | none =>
      if radix == 0 then (digits? 10 cs).bind fun n => if n == 0 then some 0 else none
      else digits? radix cs
  | _ => digits? (if radix == 0 then 10 else radix) cs

/-- An integer numeral with its sign. -/
def signed? (radix : Nat) : List Char → Option Int
  | '-' :: rest => (magnitude? radix rest).map fun n => -(n : Int)
  | '+' :: rest => (magnitude? radix rest).map fun n => (n : Int)
  | cs => (magnitude? radix cs).map fun n => (n : Int)

/-- The characters without the ASCII white space at either end. -/
def trimAscii (cs : List Char) : List Char :=
  ((cs.dropWhile isAsciiWhite).reverse.dropWhile isAsciiWhite).reverse

/-- The integer that an ASCII numeral denotes in a radix of 2 to 36, or in radix zero. -/
def asciiInteger? (radix : Nat) (cs : List Char) : Option Int :=
  signed? radix (trimAscii cs)

/-- The ASCII form of a character in a numeral: beyond ASCII, decimal digits of any script become
the ten ASCII ones, and white space becomes spaces. -/
def plainDigit (c : Char) : Char :=
  if c.toNat < 0x80 then c
  else if isWhite c then ' '
  else match decimalValue? c with
    | some d => Char.ofNat (48 + d)
    | none => '?'

/-- The integer that a numeral denotes in a radix of 2 to 36, or in radix zero. -/
def integer? (radix : Nat) (text : String) : Option Int :=
  asciiInteger? radix (text.toList.map plainDigit)

/-! ## Pairs of hexadecimal digits -/

/-- The bytes written as pairs of hexadecimal digits, with ASCII white space between the pairs. -/
def hexBytes? : List Char → Option (List UInt8)
  | [] => some []
  | c :: rest =>
    if isAsciiWhite c then hexBytes? rest
    else match rest with
      | [] => none
      | d :: tail => do
        let high ← hexValue? c
        let low ← hexValue? d
        (UInt8.ofNat (high * 16 + low) :: ·) <$> hexBytes? tail

end BitPattern.Text
