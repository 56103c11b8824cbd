import BitPattern.Text.Blank
import BitPattern.Text.Ranges

/-!
# Names

Which texts are identifiers, which of them the listing reserves, and the local name that a bound
name gets in a listing.  A local name consists of ASCII letters, digits and underscores, starts
with no digit, is no reserved word and does not begin with the mark of generated names, so it can
neither break a listing nor meet a generated name.
-/

namespace BitPattern.Text

/-! ## Identifiers -/

/-- A character with which an identifier may start. -/
def isNameStart (c : Char) : Bool :=
  if c.toNat ≤ 0x7E then c.isAlpha || c == '_' else inRanges nameStartRanges c.toNat

/-- A character with which an identifier may continue. -/
def isNameRest (c : Char) : Bool :=
  if c.toNat ≤ 0x7E then isWordChar c
  else inRanges nameStartRanges c.toNat || inRanges nameRestRanges c.toNat

/-- An identifier: a start character and characters that continue it. -/
def isIdentifier (name : String) : Bool :=
  match name.toList with
  | [] => false
  | c :: rest => isNameStart c && rest.all isNameRest

/-- The words that a listing reserves. -/
def reservedWords : List String := [
  "False", "None", "True", "and", "as", "assert", "async", "await", "break", "class", "continue",
  "def", "del", "elif", "else", "except", "finally", "for", "from", "global", "if", "import", "in",
  "is", "lambda", "nonlocal", "not", "or", "pass", "raise", "return", "try", "while", "with",
  "yield"]

/-- A word that a listing reserves. -/
def isReserved (name : String) : Bool :=
  reservedWords.contains name

/-! ## Local names -/

/-- The characters with which every generated name begins. -/
def generatedMark : List Char := ['_', 'b', 'm', '_']

/-- A name that begins like a generated one. -/
def isGenerated (name : String) : Bool :=
  generatedMark.isPrefixOf name.toList

/-- An underscore for every character that is no letter, digit or underscore of ASCII. -/
def wordChars (cs : List Char) : List Char :=
  cs.map fun c => if isWordChar c then c else '_'

/-- An underscore before a leading digit. -/
def shieldDigit : List Char → List Char
  | [] => []
  | c :: rest => if c.isDigit then '_' :: c :: rest else c :: rest

/-- The characters `_user` before a name that begins like a generated one. -/
def shieldGenerated (cs : List Char) : List Char :=
  if generatedMark.isPrefixOf cs then ['_', 'u', 's', 'e', 'r'] ++ cs else cs

/-- An underscore after a reserved word. -/
def shieldReserved (cs : List Char) : List Char :=
  if isReserved (String.ofList cs) then cs ++ ['_'] else cs

/-- The local name of a bound name. -/
def localName (name : String) : String :=
  let cs := shieldReserved (shieldGenerated (shieldDigit (wordChars name.toList)))
  if cs.isEmpty then "_unnamed" else String.ofList cs

end BitPattern.Text
