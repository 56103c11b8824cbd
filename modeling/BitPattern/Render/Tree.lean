import BitPattern.Field.Basic
import BitPattern.Text.SExpr

/-!
# Trees of descriptions

Expressions, patterns, specifications, fields and cases as S-expressions.  Byte strings appear with
one character a byte.
-/

namespace BitPattern

open BitPattern.Text

namespace Expr

mutual

/-- The tree of an expression. -/
def tree : Expr → SExpr
  | int n => .int n
  | bytes b => .string (latin b)
  | bool b => .symbol (if b then "true" else "false")
  | name x => .symbol x
  | binary op left right => .node op.spelling [left.tree, right.tree]
  | unary op operand => .node op.spelling [operand.tree]
  | call function args => .node function (treesOf args)
  | tuple items => .node "tuple" (treesOf items)

/-- The trees of several expressions. -/
def treesOf : List Expr → List SExpr
  | [] => []
  | e :: rest => e.tree :: treesOf rest

end

end Expr

/-- The tree of a constant. -/
def Constant.tree : Constant → SExpr
  | int n => .int n
  | bytes b => .string (latin b)

/-- The tree of a pattern. -/
def Pattern.tree : Pattern → SExpr
  | wildcard => .symbol "_"
  | var x => .symbol x
  | constant c => c.tree
  | oneOf c d cs => .node "|" ((c :: d :: cs).map Constant.tree)
  | named p x => .node "as" [p.tree, .symbol x]

/-- The tree of a byte order. -/
def Endianness.tree : Endianness → SExpr
  | fixed endian => .symbol endian.name
  | computed e => .node "endian" [e.tree]

/-- The tree of the value of an attribute, if it is set. -/
def Spec.attributeTree? (spec : Spec) : Attribute → Option SExpr
  | .valueType => spec.valueType.map fun type => .symbol type.name
  | .sign => spec.sign.map fun sign => .symbol sign.name
  | .endian => spec.endian.map Endianness.tree
  | .check => spec.check.map Expr.tree
  | .bind => spec.bind.map Expr.tree
  | .offset => spec.offset.map Expr.tree

/-- The tree of a specification: its attributes that are set. -/
def Spec.tree (spec : Spec) : SExpr :=
  .node "spec" (Attribute.all.filterMap fun a =>
    (spec.attributeTree? a).map fun value => .node a.name [value])

/-- The tree of a field. -/
def Field.tree (field : Field) : SExpr :=
  match field.length with
  | some length =>
    .node "field" ([field.pattern.tree, length.tree] ++ (field.spec.map Spec.tree).toList)
  | none => .node "rest" []

/-- The tree of a body. -/
def Body.tree : Body → SExpr
  | expr e => e.tree
  | callable _ => .symbol "<callable>"

/-- The tree of a case. -/
def Case.tree (c : Case) : SExpr :=
  .node "case" (.string c.fieldsText :: c.fields.map Field.tree ++ [.node "body" [c.body.tree]])

/-- The trees of several cases, one a line. -/
def treeText (cases : List Case) : String :=
  "\n".intercalate (cases.map fun c => c.tree.render)

end BitPattern
