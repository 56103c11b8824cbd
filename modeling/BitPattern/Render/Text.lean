import BitPattern.Field.Basic
import BitPattern.Text.Numeral

/-!
# Fields notation

Expressions and patterns written back in the notation they are read from, with parentheses around
every operator.  Messages use this form.  A caller who asks for it gets it only if every integer in
it is short enough to be written (`Expr.written`, `Pattern.written`).
-/

namespace BitPattern

open BitPattern.Text

/-- A string literal: a backslash stands before each double quote, and nothing else is escaped. -/
def literalText (b : List UInt8) : String :=
  String.ofList ('"' ::
    (b.flatMap (fun byte => if byte == 34 then ['\\', '"'] else [latinChar byte]) ++ ['"']))

namespace Expr

mutual

/-- An expression in the notation. -/
def toText : Expr → String
  | int n => decimal n
  | bytes b => literalText b
  | bool b => if b then "true" else "false"
  | name x => x
  | binary op left right =>
    "(" ++ left.toText ++ " " ++ op.spelling ++ " " ++ right.toText ++ ")"
  | unary .neg operand => "-" ++ operand.toText
  | unary op operand => op.spelling ++ " " ++ operand.toText
  | call function args => function ++ "(" ++ ", ".intercalate (textsOf args) ++ ")"
  | tuple [item] => "(" ++ item.toText ++ ",)"
  | tuple items => "(" ++ ", ".intercalate (textsOf items) ++ ")"

/-- Several expressions in the notation. -/
def textsOf : List Expr → List String
  | [] => []
  | e :: rest => e.toText :: textsOf rest

end

mutual

/-- Whether every integer in an expression is short enough to be written. -/
def isWritable : Expr → Bool
  | int n => Text.isWritable n
  | bytes _ | bool _ | name _ => true
  | binary _ left right => left.isWritable && right.isWritable
  | unary _ operand => operand.isWritable
  | call _ args => areWritable args
  | tuple items => areWritable items

/-- Whether every integer in several expressions is short enough to be written. -/
def areWritable : List Expr → Bool
  | [] => true
  | e :: rest => e.isWritable && areWritable rest

end

/-- The text of an expression in the notation, as callers ask for it. -/
def written (e : Expr) : Except Fault String :=
  if e.isWritable then .ok e.toText else .error .value

/-- A qualifier for display: a tuple of qualifiers is shown without its parentheses. -/
def qualifierText : Expr → String
  | tuple items => ", ".intercalate (qualifierTexts items)
  | e => e.toText
where
  /-- Several qualifiers for display. -/
  qualifierTexts : List Expr → List String
    | [] => []
    | e :: rest => qualifierText e :: qualifierTexts rest

end Expr

/-- A constant in the notation. -/
def Constant.toText : Constant → String
  | int n => decimal n
  | bytes b => literalText b

/-- A pattern in the notation. -/
def Pattern.toText : Pattern → String
  | wildcard => "_"
  | var x => x
  | constant c => c.toText
  | oneOf c d cs => " | ".intercalate ((c :: d :: cs).map Constant.toText)
  | named p x => "(" ++ p.toText ++ ") as " ++ x

/-- Whether a constant is short enough to be written. -/
def Constant.isWritable : Constant → Bool
  | int n => Text.isWritable n
  | bytes _ => true

/-- Whether every constant in a pattern is short enough to be written. -/
def Pattern.isWritable : Pattern → Bool
  | wildcard | var _ => true
  | constant c => c.isWritable
  | oneOf c d cs => (c :: d :: cs).all Constant.isWritable
  | named p _ => p.isWritable

/-- The text of a pattern in the notation, as callers ask for it. -/
def Pattern.written (p : Pattern) : Except Fault String :=
  if p.isWritable then .ok p.toText else .error .value

end BitPattern
