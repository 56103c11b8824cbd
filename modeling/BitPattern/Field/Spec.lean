import BitPattern.Expr.Basic

/-!
# Field specifications

What the qualifiers of a field say: value type, signedness, byte order, and the expressions that
check the value, replace it, or move on to another offset.  Every attribute may be unset, and an
attribute that is set stays as it is: `Spec.set?` refuses to write it again.
-/

namespace BitPattern

/-- How the bits of a field are read. -/
inductive FieldType where
  | int | string | bitstring
  deriving DecidableEq, Repr

/-- The name of a value type. -/
def FieldType.name : FieldType → String
  | int => "int"
  | string => "string"
  | bitstring => "bitstring"

/-- The value type of a name. -/
def FieldType.ofName? (name : String) : Option FieldType :=
  [FieldType.int, string, bitstring].find? fun type => type.name == name

/-- Whether an integer has a sign. -/
inductive Sign where
  | signed | unsigned
  deriving DecidableEq, Repr

/-- The name of a signedness. -/
def Sign.name : Sign → String
  | signed => "signed"
  | unsigned => "unsigned"

/-- The signedness of a name. -/
def Sign.ofName? (name : String) : Option Sign :=
  [Sign.signed, unsigned].find? fun sign => sign.name == name

/-- The byte orders that a description can name. -/
inductive Endian where
  | little | big | native
  deriving DecidableEq, Repr

/-- The name of a byte order. -/
def Endian.name : Endian → String
  | little => "little"
  | big => "big"
  | native => "native"

/-- The byte order of a name. -/
def Endian.ofName? (name : String) : Option Endian :=
  [Endian.little, big, native].find? fun endian => endian.name == name

/-- A byte order that is named, or that an expression decides at run time. -/
inductive Endianness where
  | fixed (endian : Endian)
  | computed (expr : Expr)
  deriving DecidableEq, Repr

/-- The attributes of a field. -/
inductive Attribute where
  | valueType | sign | endian | check | bind | offset
  deriving DecidableEq, Repr

namespace Attribute

/-- Every attribute, in the order of display. -/
def all : List Attribute := [valueType, sign, endian, check, bind, offset]

/-- The name of an attribute. -/
def name : Attribute → String
  | valueType => "value_type"
  | sign => "sign"
  | endian => "endian"
  | check => "check"
  | bind => "bind"
  | offset => "offset_override"

/-- The name of an attribute in messages. -/
def label : Attribute → String
  | valueType => "Value type"
  | sign => "Signedness"
  | endian => "Endianness"
  | check => "Check expression"
  | bind => "Bind expression"
  | offset => "Offset expression"

/-- The attribute of a name. -/
def ofName? (name : String) : Option Attribute :=
  all.find? fun a => a.name == name

end Attribute

/-- One attribute with its value. -/
inductive Setting where
  | valueType (type : FieldType)
  | sign (sign : Sign)
  | endian (endian : Endianness)
  | check (expr : Expr)
  | bind (expr : Expr)
  | offset (expr : Expr)
  deriving DecidableEq, Repr

/-- The attribute that a setting writes. -/
def Setting.attribute : Setting → Attribute
  | valueType _ => .valueType
  | sign _ => .sign
  | endian _ => .endian
  | check _ => .check
  | bind _ => .bind
  | offset _ => .offset

/-- The attributes of a field as far as they are set. -/
structure Spec where
  valueType : Option FieldType := none
  sign : Option Sign := none
  endian : Option Endianness := none
  check : Option Expr := none
  bind : Option Expr := none
  offset : Option Expr := none
  deriving DecidableEq, Repr

namespace Spec

/-- Nothing is set. -/
def empty : Spec := {}

/-- What a field without qualifiers is: an unsigned integer with the most significant byte first. -/
def default : Spec :=
  { valueType := some .int, sign := some .unsigned, endian := some (.fixed .big) }

/-- Whether an attribute is set. -/
def isSet (spec : Spec) : Attribute → Bool
  | .valueType => spec.valueType.isSome
  | .sign => spec.sign.isSome
  | .endian => spec.endian.isSome
  | .check => spec.check.isSome
  | .bind => spec.bind.isSome
  | .offset => spec.offset.isSome

/-- Writes an attribute, whether or not it is set. -/
def put (spec : Spec) : Setting → Spec
  | .valueType type => { spec with valueType := some type }
  | .sign sign => { spec with sign := some sign }
  | .endian endian => { spec with endian := some endian }
  | .check expr => { spec with check := some expr }
  | .bind expr => { spec with bind := some expr }
  | .offset expr => { spec with offset := some expr }

/-- Writes an attribute that is not set. -/
def set? (spec : Spec) (setting : Setting) : Option Spec :=
  if spec.isSet setting.attribute then none else some (spec.put setting)

/-- Takes type, sign and byte order from `defaults` where they are unset. -/
def withDefaults (spec defaults : Spec) : Spec :=
  { spec with
    valueType := spec.valueType <|> defaults.valueType
    sign := spec.sign <|> defaults.sign
    endian := spec.endian <|> defaults.endian }

/-- Whether integers are read with a sign. -/
def isSigned (spec : Spec) : Bool :=
  spec.sign == some .signed

end Spec

end BitPattern
