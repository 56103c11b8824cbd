import BitPattern.Bits.Scalar

/-!
# Faults

What can go wrong when bits are read and written and when expressions are evaluated.  A fault of
the library's own checks has a message; one of the operations of values has none.  Every fault has a
kind.
-/

namespace BitPattern

open BitPattern.Text

/-- What a bit range lies outside of. -/
inductive Extent where
  | buffer | bitstring
  deriving DecidableEq, Repr

/-- The name of an extent in messages. -/
def Extent.name : Extent → String
  | buffer => "buffer"
  | bitstring => "bitstring"

/-- A fault. -/
inductive Fault where
  /-- A bit range from `low` up to `high` leaves an extent of `size` bits. -/
  | outside (low : Scalar) (high : Int) (size : Scalar) (extent : Extent)
  /-- The width of an integer is not positive. -/
  | width (width : Scalar)
  /-- An integer is out of the range of its width. -/
  | unfit (value width : Scalar) (signed : Bool)
  /-- A byte order of the caller's that is none. -/
  | unknownOrder (shown : String)
  /-- A computed byte order that is none. -/
  | noOrder (shown : String)
  /-- A text with other digits than binary ones. -/
  | notBits (shown : String)
  /-- An attribute that is already set. -/
  | attributeSet (name : String)
  /-- An assignment to a part of a bitstring. -/
  | immutable
  /-- A value that is no subject. -/
  | noSubject (typeName : String)
  /-- A value that is no node. -/
  | noNode (typeName : String)
  /-- A value that has no tree. -/
  | noTree (typeName : String)
  /-- A value that has no notation. -/
  | noNotation (typeName : String)
  /-- An operation on values of unsuitable types. -/
  | type
  /-- An operation on an unsuitable value. -/
  | value
  /-- A number that is no index, or a size beyond all indices. -/
  | overflow
  /-- More members than can be held. -/
  | memory
  /-- A division by zero. -/
  | zeroDivision
  /-- A local name that is read before it has a value. -/
  | unassigned (name : String)
  /-- An attribute that a value has not. -/
  | noAttribute
  /-- A name of an encoding, or of a substitution in one, that is none. -/
  | unknownName
  /-- A character that an encoding has no form for. -/
  | unencodable
  /-- A listing that cannot be loaded. -/
  | unloadable
  deriving DecidableEq, Repr

/-- The message of a fault of the library's own checks. -/
def Fault.message? : Fault → Option String
  | outside low high size extent =>
    some ("bit range [" ++ low.display ++ ", " ++ decimal high ++ ") outside a "
      ++ size.display ++ "-bit " ++ extent.name)
  | width w => some ("integer width must be positive, got " ++ w.display)
  | unfit n w signed =>
    some (n.display ++ " does not fit in " ++ w.display ++ " "
      ++ (if signed then "signed" else "unsigned") ++ " bits")
  | unknownOrder shown => some ("unknown byte order: " ++ shown)
  | noOrder shown => some ("not a byte order: " ++ shown)
  | notBits shown => some ("not a bit string: " ++ shown)
  | attributeSet name => some name
  | immutable => some "Bitstring is immutable"
  | noSubject typeName =>
    some ("cannot match on " ++ typeName
      ++ "; expected bytes, Bitstring or a (data, offset, length) tuple")
  | noNode typeName => some ("Unknown node type: " ++ typeName)
  | noTree typeName => some ("Cannot render " ++ typeName ++ " as an S-expression")
  | noNotation typeName => some ("Cannot render " ++ typeName ++ " as text")
  | type | value | overflow | memory | zeroDivision | unassigned _ | noAttribute | unknownName
  | unencodable | unloadable => none

/-- The kinds of faults that can be told apart without their messages. -/
inductive FaultKind where
  | index | value | key | attribute | type | zeroDivision | overflow | memory | unassigned | lookup
  | encoding | loading
  deriving DecidableEq, Repr

/-- The kind of a fault. -/
def Fault.kind : Fault → FaultKind
  | outside .. => .index
  | width _ | unfit .. | unknownOrder _ | noOrder _ | notBits _ | value => .value
  | attributeSet _ => .key
  | immutable | noAttribute => .attribute
  | noSubject _ | noNode _ | noTree _ | noNotation _ | type => .type
  | zeroDivision => .zeroDivision
  | overflow => .overflow
  | memory => .memory
  | unassigned _ => .unassigned
  | unknownName => .lookup
  | unencodable => .encoding
  | unloadable => .loading

end BitPattern
