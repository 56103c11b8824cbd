import BitPattern.Expr.Basic
import BitPattern.Grammar.Reader
import BitPattern.Text.Blank
import BitPattern.Text.Escape
import BitPattern.Text.Numeral

/-!
# Tokens

Blanks and comments, words, numbers and string literals.  A word is a longest run of letters,
digits and underscores; keywords, identifiers, the wildcard and numbers are told apart by the whole
word, so a keyword is never a part of a longer name and a number never ends before a letter.

A token that is recognised may still denote nothing, such as a number with a radix marker and no
digit, or a decimal with more digits than are read.  Its value is then a `Misfit`, which the reading
carries along.
-/

namespace BitPattern.Grammar

open BitPattern.Text Reader

/-! ## Values that may be missing -/

/-- Why something that was recognised denotes nothing. -/
inductive Misfit where
  | integer (text : String)
  | string (text : String)
  | alternatives (text : String)
  deriving DecidableEq, Repr

/-- The reason of a misfit in messages. -/
def Misfit.reason : Misfit → String
  | integer _ => "Invalid integer literal"
  | string _ => "Invalid string literal"
  | alternatives _ => "Or-patterns may only combine constants"

/-- The text that a misfit is about. -/
def Misfit.text : Misfit → String
  | integer text | string text | alternatives text => text

/-- A value, or the misfit that is found first on the way to it. -/
abbrev Denoted (α : Type) := Except Misfit α

/-! ## Blanks -/

/-- The characters after white space and comments; a comment runs from a `#` to the end of its
line. -/
def skipBlank (inComment : Bool) : List Char → List Char
  | [] => []
  | c :: rest =>
    if inComment then skipBlank (c != '\n') rest
    else if isWhite c then skipBlank false rest
    else if c == '#' then skipBlank true rest
    else c :: rest

/-- White space and comments, which may be missing. -/
def blank : Reader Unit := fun cs => ⟨{}, some ((), skipBlank false cs)⟩

/-! ## Words -/

/-- The word at the front and what follows it. -/
def takeWord (cs : List Char) : List Char × List Char :=
  cs.span isWordChar

/-- The word at the front as a value, if it is one of those that `value?` admits. -/
def wordOf (value? : List Char → Option α) : Reader α :=
  token fun cs =>
    let (word, left) := takeWord cs
    (value? word).map (·, left)

/-- A keyword. -/
def keyword (s : String) : Reader Unit :=
  wordOf fun word => if word == s.toList then some () else none

/-- The words that are no identifiers. -/
def keywords : List String := [
  "as", "or", "and", "not", "mod", "land", "lor", "lxor", "lnot", "lsl", "lsr", "asr", "true",
  "false", "_"]

/-- The name that a word is, unless it starts with a digit or is a keyword. -/
def nameOf? : List Char → Option String
  | [] => none
  | c :: rest =>
    let name := String.ofList (c :: rest)
    if c.isDigit || keywords.contains name then none else some name

/-- An identifier. -/
def identifier : Reader String :=
  wordOf nameOf?

/-- The wildcard. -/
def wildcard : Reader Unit :=
  keyword "_"

/-- A truth value. -/
def boolean : Reader Bool :=
  wordOf fun word =>
    if word == "true".toList then some true
    else if word == "false".toList then some false
    else none

/-! ## Numbers -/

/-- A digit of the radix, or an underscore. -/
def isDigitOf (radix : Nat) (c : Char) : Bool :=
  c == '_' || (digitBelow? radix c).isSome

/-- The radix and the digits, underscores included, of a word that has the form of a number. -/
def numberParts? : List Char → Option (Nat × List Char)
  | '0' :: c :: rest =>
    match markedRadix? c with
    | some radix =>
      if !rest.isEmpty && rest.all (isDigitOf radix) then some (radix, rest) else none
    | none => if (c :: rest).all (isDigitOf 10) then some (10, '0' :: c :: rest) else none
  | c :: rest =>
    if c.isDigit && rest.all (isDigitOf 10) then some (10, c :: rest) else none
  | [] => none

/-- The value of digits, most significant first; underscores are passed over. -/
def digitsValue (radix : Nat) (digits : List Char) : Nat :=
  (digits.filterMap digitValue?).foldl (fun n d => n * radix + d) 0

/-- Whether digits denote a number: there has to be one, and not too many. -/
def isNumber (radix : Nat) (digits : List Char) : Bool :=
  digits.any (· != '_') && withinLimit radix digits

/-- The number that a word of that form denotes, if it denotes any. -/
def numberValue (word : List Char) (radix : Nat) (digits : List Char) : Denoted Int :=
  if isNumber radix digits then .ok (digitsValue radix digits)
  else .error (.integer (String.ofList word))

/-- A number without sign. -/
def integer : Reader (Denoted Int) :=
  wordOf fun word =>
    (numberParts? word).map fun (radix, digits) => numberValue word radix digits

/-- A number with a sign. -/
def negativeValue (word : List Char) (radix : Nat) (digits : List Char) : Denoted Int :=
  if isNumber radix digits then .ok (-(digitsValue radix digits : Int))
  else .error (.integer (String.ofList ('-' :: word)))

/-- A number before which a minus sign may stand. -/
def signedInteger : Reader (Denoted Int) :=
  token fun cs =>
    match cs with
    | '-' :: rest =>
      let (word, left) := takeWord rest
      (numberParts? word).map fun (radix, digits) => (negativeValue word radix digits, left)
    | _ =>
      let (word, left) := takeWord cs
      (numberParts? word).map fun (radix, digits) => (numberValue word radix digits, left)

/-! ## String literals -/

/-- The body of a string literal up to the double quote that ends it, and what follows.  A
backslash takes the next character along, which must not be a line feed. -/
def takeBody? : List Char → Option (List Char × List Char)
  | [] => none
  | '"' :: rest => some ([], rest)
  | '\\' :: rest =>
    match rest with
    | [] => none
    | c :: rest =>
      if c == '\n' then none
      else (takeBody? rest).map fun (body, left) => ('\\' :: c :: body, left)
  | c :: rest => (takeBody? rest).map fun (body, left) => (c :: body, left)

/-- The bytes that a body denotes. -/
def bodyValue (body : List Char) : Denoted (List UInt8) :=
  match literalBytes? body with
  | some bytes => .ok bytes
  | none => .error (.string (String.ofList ('"' :: (body ++ ['"']))))

/-- A string literal. -/
def stringLiteral : Reader (Denoted (List UInt8)) :=
  token fun cs =>
    match cs with
    | '"' :: rest => (takeBody? rest).map fun (body, left) => (bodyValue body, left)
    | _ => none

end BitPattern.Grammar
