import BitPattern.Field.Basic
import BitPattern.Text.Quoted

/-!
# Dumps

The full form of descriptions, with the kind of every node and the name of every part.
-/

namespace BitPattern

open BitPattern.Text

/-! ## Shapes -/

/-- A node: its kind and its named parts. -/
def dumpNode (kind : String) (parts : List (String × String)) : String :=
  kind ++ "(" ++ ", ".intercalate (parts.map fun part => part.1 ++ "=" ++ part.2) ++ ")"

/-- A member of an enumeration with the text it stands for. -/
def dumpMember (kind member text : String) : String :=
  "<" ++ kind ++ "." ++ member ++ ": " ++ quoted text ++ ">"

/-- A tuple; a single item has a comma after it. -/
def dumpTuple (items : List String) : String :=
  match items with
  | [item] => "(" ++ item ++ ",)"
  | _ => "(" ++ ", ".intercalate items ++ ")"

/-- A truth value. -/
def dumpBool (b : Bool) : String :=
  if b then "True" else "False"

/-- A part that may be missing. -/
def dumpOption (item : Option String) : String :=
  item.getD "None"

/-! ## Members -/

/-- The name of an operator as a member of its enumeration. -/
def BinOp.member : BinOp → String
  | or => "OR"
  | and => "AND"
  | eq => "EQ"
  | ne => "NE"
  | lt => "LT"
  | le => "LE"
  | gt => "GT"
  | ge => "GE"
  | bitOr => "LOR"
  | bitXor => "LXOR"
  | bitAnd => "LAND"
  | shiftLeft => "LSL"
  | logicalShiftRight => "LSR"
  | shiftRight => "ASR"
  | add => "ADD"
  | sub => "SUB"
  | mul => "MUL"
  | div => "DIV"
  | mod => "MOD"

/-- The dump of an operator. -/
def BinOp.dump (op : BinOp) : String :=
  dumpMember "BinOp" op.member op.spelling

/-- The dump of an operator. -/
def UnOp.dump (op : UnOp) : String :=
  dumpMember "UnaryOpKind" (match op with | neg => "NEG" | complement => "LNOT" | not => "NOT")
    op.spelling

/-- The dump of a value type. -/
def FieldType.dump (type : FieldType) : String :=
  dumpMember "FieldType"
    (match type with | int => "INT" | string => "STRING" | bitstring => "BITSTRING") type.name

/-- The dump of a signedness. -/
def Sign.dump (sign : Sign) : String :=
  dumpMember "Sign" (match sign with | signed => "SIGNED" | unsigned => "UNSIGNED") sign.name

/-- The name of a byte order as a member of its enumeration. -/
def Endian.member : Endian → String
  | little => "LITTLE"
  | big => "BIG"
  | native => "NATIVE"

/-- The dump of a byte order. -/
def Endian.dump (endian : Endian) : String :=
  dumpMember "Endian" endian.member endian.name

/-! ## Nodes -/

namespace Expr

mutual

/-- The dump of an expression. -/
def dump : Expr → String
  | int n => dumpNode "IntLit" [("value", decimal n)]
  | bytes b => dumpNode "StrLit" [("value", quotedBytes b)]
  | bool b => dumpNode "BoolLit" [("value", dumpBool b)]
  | name x => dumpNode "Name" [("name", quoted x)]
  | binary op left right =>
    dumpNode "BinaryOp" [("op", op.dump), ("left", left.dump), ("right", right.dump)]
  | unary op operand => dumpNode "UnaryOp" [("op", op.dump), ("operand", operand.dump)]
  | call function args =>
    dumpNode "Call" [("func", quoted function), ("args", dumpTuple (dumpsOf args))]
  | tuple items => dumpNode "TupleExpr" [("items", dumpTuple (dumpsOf items))]

/-- The dumps of several expressions. -/
def dumpsOf : List Expr → List String
  | [] => []
  | e :: rest => e.dump :: dumpsOf rest

end

end Expr

/-- The text of a constant in messages and listings. -/
def Constant.display : Constant → String
  | int n => decimal n
  | bytes b => quotedBytes b

/-- The dump of a pattern. -/
def Pattern.dump : Pattern → String
  | wildcard => dumpNode "WildcardPattern" []
  | var x => dumpNode "VarPattern" [("name", quoted x)]
  | constant c => dumpNode "LiteralPattern" [("value", c.display)]
  | oneOf c d cs =>
    let alternatives := (c :: d :: cs).map fun c => dumpNode "LiteralPattern" [("value", c.display)]
    dumpNode "OrPattern" [("alternatives", dumpTuple alternatives)]
  | named p x => dumpNode "AliasPattern" [("pattern", p.dump), ("name", quoted x)]

/-- The dump of a byte order. -/
def Endianness.dump : Endianness → String
  | fixed endian => endian.dump
  | computed e => dumpNode "ReferredEndian" [("expr", e.dump)]

/-- The dump of the value of an attribute. -/
def Spec.attributeDump (spec : Spec) : Attribute → String
  | .valueType => dumpOption (spec.valueType.map FieldType.dump)
  | .sign => dumpOption (spec.sign.map Sign.dump)
  | .endian => dumpOption (spec.endian.map Endianness.dump)
  | .check => dumpOption (spec.check.map Expr.dump)
  | .bind => dumpOption (spec.bind.map Expr.dump)
  | .offset => dumpOption (spec.offset.map Expr.dump)

/-- The dump of a specification. -/
def Spec.dump (spec : Spec) : String :=
  dumpNode "FieldSpec" (Attribute.all.map fun a =>
    (a.name, spec.attributeDump a))

/-- The dump of a field. -/
def Field.dump (field : Field) : String :=
  dumpNode "Field" [
    ("pattern", field.pattern.dump),
    ("length", dumpOption (field.length.map Expr.dump)),
    ("spec", dumpOption (field.spec.map Spec.dump)),
    ("text", quoted field.text)]

/-- The dump of a body. -/
def Body.dump : Body → String
  | expr e => e.dump
  | callable _ => "<callable>"

/-- The dump of a case. -/
def Case.dump (c : Case) : String :=
  dumpNode "Case" [
    ("fields_text", quoted c.fieldsText),
    ("fields", dumpTuple (c.fields.map Field.dump)),
    ("body", c.body.dump),
    ("index", decimal c.index)]

end BitPattern
