import BitPattern.Text.Quoted

/-!
# S-expressions

The tree form of dumps: integers, strings and symbols as atoms, and lists of them.  A string is
enclosed in double quotes; a symbol has a backslash before each character that would end it or
start something else.
-/

namespace BitPattern.Text

/-- An S-expression. -/
inductive SExpr where
  | int (n : Int)
  | string (s : String)
  | symbol (s : String)
  | list (items : List SExpr)

namespace SExpr

/-- A list with a symbol at its head. -/
def node (head : String) (items : List SExpr) : SExpr :=
  .list (.symbol head :: items)

/-- A character inside a string. -/
def escapeChar (c : Char) : List Char :=
  if c == '"' || c == '\\' then ['\\', c]
  else if c.toNat == 8 then ['\\', 'b']
  else if c.toNat == 12 then ['\\', 'f']
  else if c == '\n' then ['\\', 'n']
  else if c == '\r' then ['\\', 'r']
  else if c == '\t' then ['\\', 't']
  else [c]

/-- The characters that a symbol holds behind a backslash only. -/
def symbolSpecials : List Char :=
  ['\\', '\'', Char.ofNat 96, '"', '(', ')', '[', ']', ' ', ',', '?', ';', '#']

/-- A character inside a symbol. -/
def escapeSymbolChar (c : Char) : List Char :=
  if symbolSpecials.contains c then ['\\', c] else [c]

mutual

/-- The written form. -/
def render : SExpr → String
  | int n => decimal n
  | string s => String.ofList ('"' :: (s.toList.flatMap escapeChar ++ ['"']))
  | symbol s => String.ofList (s.toList.flatMap escapeSymbolChar)
  | list items => "(" ++ " ".intercalate (renderItems items) ++ ")"

/-- The written forms of the items of a list. -/
def renderItems : List SExpr → List String
  | [] => []
  | item :: rest => render item :: renderItems rest

end

end SExpr

end BitPattern.Text
