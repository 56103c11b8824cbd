import BitPattern.Text.Blank
import BitPattern.Text.Escape

/-!
# Encodings of text

The encodings in which a text is written as bytes.  Those by units of eight, sixteen or thirty-two
bits have a form for every character; ASCII and Latin-1 have one for the characters below a limit,
and a `Substitution` says what is written in place of any other.  An encoding is known by several
names, in which letter case and the signs between words do not matter.
-/

namespace BitPattern.Text

/-- An encoding.  Units of more than one byte have their most significant byte first if they are
big, and a mark before the text tells which way they are. -/
inductive Encoding where
  | ascii
  | latin
  | utf8 (marked : Bool)
  | utf16 (big marked : Bool)
  | utf32 (big marked : Bool)
  deriving DecidableEq, Repr

/-- What is written in place of a character without a form. -/
inductive Substitution where
  /-- Nothing can be: the text as a whole has no form. -/
  | refuse
  | drop
  | questionMark
  | escape
  /-- The decimal number of the character, as markup refers to it. -/
  | reference
  deriving DecidableEq, Repr

namespace Substitution

/-- The names of substitutions. -/
def names : List (String × Substitution) := [
  ("strict", refuse), ("surrogateescape", refuse), ("surrogatepass", refuse), ("ignore", drop),
  ("replace", questionMark), ("backslashreplace", escape), ("xmlcharrefreplace", reference)]

/-- The substitution of a name. -/
def ofName? (name : String) : Option Substitution :=
  names.lookup name

/-- What is written in place of a character. -/
def replacement? (s : Substitution) (c : Char) : Option (List Char) :=
  match s with
  | refuse => none
  | drop => some []
  | questionMark => some ['?']
  | escape => some (hexEscape c.toNat)
  | reference => some ("&#" ++ Nat.repr c.toNat ++ ";").toList

end Substitution

namespace Encoding

/-! ## Names -/

/-- The plain form of a name: small letters, with one underscore for every run of signs in it. -/
def plainName (name : String) : String :=
  let isPart (c : Char) : Bool := c.isAlphanum || c == '.'
  let separated := name.toList.map fun c => if isPart c then c.toLower else ' '
  "_".intercalate (words (String.ofList separated))

/-- The names of encodings in plain form. -/
def names : List (String × Encoding) :=
  let all (encoding : Encoding) (names : List String) : List (String × Encoding) :=
    names.map fun name => (name, encoding)
  all .ascii [
      "ascii", "646", "ansi_x3.4_1968", "ansi_x3_4_1968", "ansi_x3.4_1986", "cp367", "csascii",
      "ibm367", "iso646_us", "iso_646.irv_1991", "iso_ir_6", "us", "us_ascii"]
    ++ all .latin [
      "latin_1", "8859", "cp819", "csisolatin1", "ibm819", "iso8859", "iso8859_1", "iso_8859_1",
      "iso_8859_1_1987", "iso_ir_100", "l1", "latin", "latin1"]
    ++ all (.utf8 false) ["utf_8", "cp65001", "u8", "utf", "utf8", "utf8_ucs2", "utf8_ucs4"]
    ++ all (.utf8 true) ["utf_8_sig"]
    ++ all (.utf16 false true) ["utf_16", "u16", "utf16"]
    ++ all (.utf16 false false) ["utf_16_le", "utf_16le", "unicodelittleunmarked"]
    ++ all (.utf16 true false) ["utf_16_be", "utf_16be", "unicodebigunmarked"]
    ++ all (.utf32 false true) ["utf_32", "u32", "utf32"]
    ++ all (.utf32 false false) ["utf_32_le", "utf_32le"]
    ++ all (.utf32 true false) ["utf_32_be", "utf_32be"]

/-- The encoding of a name. -/
def ofName? (name : String) : Option Encoding :=
  names.lookup (plainName name)

/-! ## Units -/

/-- The bytes of a unit, the most significant one first if it is big. -/
def unitBytes (big : Bool) (count n : Nat) : List UInt8 :=
  let bytes := (List.range count).map fun i => UInt8.ofNat (n >>> (8 * i) % 256)
  if big then bytes.reverse else bytes

/-- The units of sixteen bits of a character: itself, or two surrogates. -/
def units16 (c : Char) : List Nat :=
  if c.toNat < 0x10000 then [c.toNat]
  else
    let n := c.toNat - 0x10000
    [0xD800 + n / 0x400, 0xDC00 + n % 0x400]

/-- The form of a character, if the encoding has one. -/
def encodeChar? (e : Encoding) (c : Char) : Option (List UInt8) :=
  match e with
  | ascii => if c.toNat < 0x80 then some [UInt8.ofNat c.toNat] else none
  | latin => if c.toNat < 0x100 then some [UInt8.ofNat c.toNat] else none
  | utf8 _ => some (utf8Bytes [c])
  | utf16 big _ => some ((units16 c).flatMap (unitBytes big 2))
  | utf32 big _ => some (unitBytes big 4 c.toNat)

/-! ## Texts -/

/-- Whether a mark stands before every text. -/
def isMarked : Encoding → Bool
  | ascii | latin => false
  | utf8 marked | utf16 _ marked | utf32 _ marked => marked

/-- The character that serves as a mark. -/
def markChar : Char := Char.ofNat 0xFEFF

/-- The form of a character or of what is written in its place. -/
def encodeOr? (e : Encoding) (s : Substitution) (c : Char) : Option (List UInt8) :=
  match e.encodeChar? c with
  | some bytes => some bytes
  | none => do
    let forms ← (← s.replacement? c).mapM e.encodeChar?
    pure forms.flatten

/-- The form of a text. -/
def encode? (e : Encoding) (s : Substitution) (text : String) : Option (List UInt8) := do
  let forms ← text.toList.mapM (e.encodeOr? s)
  pure ((if e.isMarked then (e.encodeChar? markChar).getD [] else []) ++ forms.flatten)

end Encoding

end BitPattern.Text
