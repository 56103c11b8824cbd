import BitPattern.Text.Ranges

/-!
# Quoted text

The quoted form in which texts and byte strings appear in messages, dumps and listings.  A single
quote encloses them unless they hold a single quote and no double quote.  The backslash, the
enclosing quote, line feed, carriage return and tab have two-character escapes; everything else
that is not shown as itself has a hexadecimal escape of two, four or eight digits.
-/

namespace BitPattern.Text

/-! ## Digits -/

/-- The digit of a value below sixteen, with small letters. -/
def hexDigit (n : Nat) : Char :=
  if n < 10 then Char.ofNat (48 + n) else Char.ofNat (87 + n)

/-- The last `width` hexadecimal digits of a number. -/
def hexDigits : Nat → Nat → List Char
  | 0, _ => []
  | width + 1, n => hexDigits width (n / 16) ++ [hexDigit (n % 16)]

/-- A number in decimal, with a minus sign if it is negative. -/
def decimal (n : Int) : String :=
  if n < 0 then "-" ++ Nat.repr n.natAbs else Nat.repr n.natAbs

/-! ## Texts -/

/-- A character that is shown as itself. -/
def isShown (c : Char) : Bool :=
  let n := c.toNat
  if n ≤ 0x7E then 0x20 ≤ n else !inRanges hiddenRanges n

/-- The enclosing quote: the single one, unless the text holds it and no double one. -/
def quoteOf (cs : List Char) : Char :=
  if cs.contains '\'' && !cs.contains '"' then '"' else '\''

/-- The hexadecimal escape of a character, as short as its code point allows. -/
def hexEscape (n : Nat) : List Char :=
  if n ≤ 0xFF then '\\' :: 'x' :: hexDigits 2 n
  else if n ≤ 0xFFFF then '\\' :: 'u' :: hexDigits 4 n
  else '\\' :: 'U' :: hexDigits 8 n

/-- The two-character escapes, and no escape for what `shown` admits. -/
def quoteChar (quote : Char) (shown : Char → Bool) (c : Char) : List Char :=
  if c == quote || c == '\\' then ['\\', c]
  else if c == '\n' then ['\\', 'n']
  else if c == '\r' then ['\\', 'r']
  else if c == '\t' then ['\\', 't']
  else if shown c then [c]
  else hexEscape c.toNat

/-- Characters between the quotes that suit them. -/
def quoteChars (shown : Char → Bool) (cs : List Char) : List Char :=
  let quote := quoteOf cs
  quote :: (cs.flatMap (quoteChar quote shown) ++ [quote])

/-- The quoted form of a text. -/
def quoted (text : String) : String :=
  String.ofList (quoteChars isShown text.toList)

/-! ## Byte strings -/

/-- The character whose code point is the byte. -/
def latinChar (b : UInt8) : Char :=
  Char.ofNat b.toNat

/-- Bytes read one character each. -/
def latin (bytes : List UInt8) : String :=
  String.ofList (bytes.map latinChar)

/-- A character of printable ASCII. -/
def isPlainAscii (c : Char) : Bool :=
  0x20 ≤ c.toNat && c.toNat ≤ 0x7E

/-- The quoted form of a byte string, which shows printable ASCII only. -/
def quotedBytes (bytes : List UInt8) : String :=
  String.ofList ('b' :: quoteChars isPlainAscii (bytes.map latinChar))

/-- The quoted form of a byte string that may be changed, in which single quotes always have an
escape. -/
def quotedMutable (bytes : List UInt8) : String :=
  let cs := bytes.map latinChar
  let quote := quoteOf cs
  let shown := cs.flatMap fun c =>
    if c == '\'' then ['\\', c] else quoteChar quote isPlainAscii c
  String.ofList ('b' :: quote :: (shown ++ [quote]))

/-! ## Bytes in hexadecimal -/

/-- Two digits for each byte. -/
def hexText (bytes : List UInt8) : String :=
  String.ofList (bytes.flatMap fun b => hexDigits 2 b.toNat)

/-- The value of a hexadecimal digit of either letter case. -/
def hexValue? (c : Char) : Option Nat :=
  if '0' ≤ c && c ≤ '9' then some (c.toNat - 48)
  else if 'a' ≤ c && c ≤ 'f' then some (c.toNat - 87)
  else if 'A' ≤ c && c ≤ 'F' then some (c.toNat - 55)
  else none

end BitPattern.Text
