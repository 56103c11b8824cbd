import BitPattern.Field.Spec
import BitPattern.Render.Text
import BitPattern.Report.Diagnostic

/-!
# Qualifiers

A qualifier expression writes attributes of a specification.  A name of the vocabulary writes the
attribute it belongs to, a function of the vocabulary applied to one argument writes the argument,
and a tuple writes what its items write, from left to right.  Nothing is written twice.
-/

namespace BitPattern.Qualifier

open BitPattern.Report

/-- What a name of the vocabulary writes. -/
def ofName? : String → Option Setting
  | "int" => some (.valueType .int)
  | "string" => some (.valueType .string)
  | "bitstring" => some (.valueType .bitstring)
  | "signed" => some (.sign .signed)
  | "unsigned" => some (.sign .unsigned)
  | "littleendian" => some (.endian (.fixed .little))
  | "bigendian" => some (.endian (.fixed .big))
  | "nativeendian" => some (.endian (.fixed .native))
  | _ => none

/-- What a function of the vocabulary writes. -/
def ofFunction? (function : String) (arg : Expr) : Option Setting :=
  match function with
  | "endian" => some (.endian (.computed arg))
  | "bind" => some (.bind arg)
  | "check" => some (.check arg)
  | "set_offset_at" => some (.offset arg)
  | _ => none

/-- What a single qualifier writes. -/
def setting? : Expr → Option Setting
  | .name x => ofName? x
  | .call function [arg] => ofFunction? function arg
  | _ => none

/-- Writes what a single qualifier says. -/
def write (spec : Spec) (qualifier : Expr) : Except Cause Spec :=
  match setting? qualifier with
  | none => .error (.unknownQualifier qualifier.qualifierText)
  | some setting =>
    match spec.set? setting with
    | none => .error (.duplicateAttribute setting.attribute.label qualifier.qualifierText)
    | some spec => .ok spec

mutual

/-- Writes what a qualifier expression says. -/
def resolve (spec : Spec) : Expr → Except Cause Spec
  | .tuple items => resolveAll spec items
  | qualifier => write spec qualifier

/-- Writes what several qualifier expressions say, one after the other. -/
def resolveAll (spec : Spec) : List Expr → Except Cause Spec
  | [] => .ok spec
  | e :: rest => do resolveAll (← resolve spec e) rest

end

end BitPattern.Qualifier
