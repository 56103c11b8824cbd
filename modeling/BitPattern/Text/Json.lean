import BitPattern.Text.Quoted

/-!
# JSON documents

The JSON values that reports and dumps consist of, and two ways to write them: on one line, with a
space after each comma and colon, and indented by two columns a level.  Both are pure ASCII, with
every other character as one or two escaped UTF-16 units.
-/

namespace BitPattern.Text

/-- A JSON value without fractions; an object keeps the order of its members. -/
inductive Json where
  | int (n : Int)
  | text (s : String)
  | array (items : List Json)
  | object (members : List (String × Json))

namespace Json

/-- The escape of one UTF-16 unit. -/
def unitEscape (n : Nat) : List Char :=
  '\\' :: 'u' :: hexDigits 4 n

/-- A character inside a JSON string. -/
def escapeChar (c : Char) : List Char :=
  if c == '"' || c == '\\' then ['\\', c]
  else if c == '\n' then ['\\', 'n']
  else if c == '\r' then ['\\', 'r']
  else if c == '\t' then ['\\', 't']
  else if c.toNat == 8 then ['\\', 'b']
  else if c.toNat == 12 then ['\\', 'f']
  else if 0x20 ≤ c.toNat && c.toNat ≤ 0x7E then [c]
  else if c.toNat ≤ 0xFFFF then unitEscape c.toNat
  else
    let n := c.toNat - 0x10000
    unitEscape (0xD800 + n / 0x400) ++ unitEscape (0xDC00 + n % 0x400)

/-- A JSON string. -/
def string (s : String) : String :=
  String.ofList ('"' :: (s.toList.flatMap escapeChar ++ ['"']))

mutual

/-- The value on one line. -/
def line : Json → String
  | int n => decimal n
  | text s => string s
  | array items => "[" ++ ", ".intercalate (lineItems items) ++ "]"
  | object members => "\x7b" ++ ", ".intercalate (lineMembers members) ++ "\x7d"

/-- The items of an array, each on one line. -/
def lineItems : List Json → List String
  | [] => []
  | item :: rest => line item :: lineItems rest

/-- The members of an object, each on one line. -/
def lineMembers : List (String × Json) → List String
  | [] => []
  | (key, value) :: rest => (string key ++ ": " ++ line value) :: lineMembers rest

end

/-- A line feed and the indentation of a level. -/
def newline (level : Nat) : String :=
  "\n" ++ String.ofList (List.replicate (2 * level) ' ')

/-- Pieces between brackets, one a line, or the bare brackets around none. -/
def block (level : Nat) (opening closing : String) (pieces : List String) : String :=
  if pieces.isEmpty then opening ++ closing
  else opening ++ newline (level + 1) ++ ("," ++ newline (level + 1)).intercalate pieces
    ++ newline level ++ closing

mutual

/-- The value with its parts on lines of their own, starting at a level of indentation. -/
def pretty (level : Nat) : Json → String
  | int n => decimal n
  | text s => string s
  | array items => block level "[" "]" (prettyItems (level + 1) items)
  | object members => block level "\x7b" "\x7d" (prettyMembers (level + 1) members)

/-- The items of an array at a level of indentation. -/
def prettyItems (level : Nat) : List Json → List String
  | [] => []
  | item :: rest => pretty level item :: prettyItems level rest

/-- The members of an object at a level of indentation. -/
def prettyMembers (level : Nat) : List (String × Json) → List String
  | [] => []
  | (key, value) :: rest => (string key ++ ": " ++ pretty level value) :: prettyMembers level rest

end

end Json

end BitPattern.Text
