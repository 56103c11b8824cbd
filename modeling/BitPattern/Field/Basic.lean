import BitPattern.Callable
import BitPattern.Field.Spec

/-!
# Patterns, fields and cases

A pattern accepts a value read from the subject and may bind names to it.  A field is a pattern with
the length and the specification of the bits that it accepts.  A lone wildcard has neither and
leaves the rest of the subject unread.  A case is a list of fields and the body that gives its
value.
-/

namespace BitPattern

/-! ## Patterns -/

/-- A constant that a value is compared with. -/
inductive Constant where
  | int (n : Int)
  | bytes (b : List UInt8)
  deriving DecidableEq, Repr

/-- A pattern. -/
inductive Pattern where
  /-- Accepts anything and binds nothing. -/
  | wildcard
  /-- Accepts anything and binds it. -/
  | var (name : String)
  /-- Accepts the constant. -/
  | constant (c : Constant)
  /-- Accepts any of two or more constants. -/
  | oneOf (c d : Constant) (cs : List Constant)
  /-- Accepts what the pattern accepts and binds one more name to it. -/
  | named (pattern : Pattern) (name : String)
  deriving DecidableEq, Repr

/-- The names that a pattern binds, outermost last. -/
def Pattern.names : Pattern → List String
  | .var x => [x]
  | .named p x => p.names ++ [x]
  | .wildcard | .constant _ | .oneOf .. => []

/-! ## Fields -/

/-- A field of a case. -/
structure Field where
  pattern : Pattern
  length : Option Expr
  spec : Option Spec
  text : String
  deriving DecidableEq, Repr

/-- A lone wildcard: the rest of the subject is ignored. -/
def Field.isRest (field : Field) : Bool :=
  field.pattern == .wildcard && field.length.isNone

/-! ## Cases -/

/-- The body of a case. -/
inductive Body where
  | expr (e : Expr)
  | callable (c : Callable)

/-- A case: the text of its fields, the fields, the body, and its place in the list. -/
structure Case where
  fieldsText : String
  fields : List Field
  body : Body
  index : Int

end BitPattern
