import BitPattern.Expr.Fold
import BitPattern.Plan.Basic
import BitPattern.Plan.Scope
import BitPattern.Render.Dump
import BitPattern.Render.Text

/-!
# From cases to plans

Planning a case resolves its names field by field and refuses what can never run: a field without
type, a length that breaks its rule, a pattern that does not suit its type, a name that nothing
binds, a body that asks for more than the case binds.  The rule of lengths depends on the value
type; the length -1 of a string or a bitstring stands for the rest of the subject.  A field is
planned in the scope that the fields before it leave, and adds the names that its own pattern binds
before its other qualifiers are looked at.
-/

namespace BitPattern

open BitPattern.Report BitPattern.Text

/-! ## Lengths -/

namespace FieldType

/-- A length that a field of the type may have. -/
def admits (type : FieldType) (length : Int) : Bool :=
  match type with
  | int => 1 ≤ length && length ≤ 64
  | string => length == -1 || (0 < length && length % 8 == 0)
  | bitstring => -1 ≤ length

/-- The rule of a type in messages. -/
def lengthRule : FieldType → String
  | int => "length of int field must be [1..64]"
  | string => "length of string must be > 0 and multiple of 8, or the special value -1"
  | bitstring => "length of bitstring must be >= 0 or the special value -1"

end FieldType

/-- Refuses a field without value type, and a known length that breaks the rule of the type. -/
def checkLength (type : Option FieldType) (length : Option Scalar) (fieldText : Mention) :
    Except Cause Unit :=
  match type, length with
  | none, _ => .error (.missingType fieldText)
  | some _, none => .ok ()
  | some type, some n =>
    if type.admits n.toInt then .ok () else .error (.lengthRange type.lengthRule n fieldText)

namespace Plan

/-- What a case is planned with. -/
structure Context where
  config : Config
  /-- The names of the environment. -/
  env : List String

/-! ## Fields -/

/-- A pattern that suits a bitstring. -/
def bindsOnly : Pattern → Bool
  | .wildcard | .var _ => true
  | _ => false

/-- Refuses to compare or rename a bitstring, or a string that takes the rest of the subject. -/
def checkPattern (type : FieldType) (static : Option Int) (field : Field) : Except Cause Unit :=
  if (type == .bitstring || (type == .string && static == some (-1))) && !bindsOnly field.pattern
  then .error (.bitstringPattern field.pattern.toText)
  else .ok ()

/-- The length of a field. -/
def planLength (ctx : Context) (scope : Scope) (static : Option Int) (length : Expr)
    (fieldText : String) : Except Cause Length :=
  match static with
  | some n => .ok (if n = -1 then .rest else .fixed n)
  | none => do pure (.computed (← resolve scope ctx.env fieldText length))

/-- The byte order of a field, which only an integer is asked for. -/
def planOrder (ctx : Context) (scope : Scope) (type : FieldType) (endian : Option Endianness)
    (fieldText : String) : Except Cause Order :=
  match type, endian with
  | .int, some (.computed e) => do
    pure (.computed (← resolve scope ctx.env fieldText e) ctx.config.nativeEndian)
  | .int, some (.fixed .native) => .ok (.named ctx.config.nativeEndian)
  | .int, some (.fixed .little) => .ok (.named "little")
  | _, _ => .ok (.named "big")

/-- Refuses a constant of another type than the value it is compared with. -/
def checkConstant (type : FieldType) (fieldText : String) (c : Constant) : Except Cause Constant :=
  match type, c with
  | .string, .bytes _ | .int, .int _ | .bitstring, .int _ => .ok c
  | _, _ =>
    .error (.configuration ("Pattern constant " ++ c.display ++ " cannot match a " ++ type.name
      ++ " field " ++ quoted fieldText))

/-- The test that a pattern makes, if it makes any. -/
def planTest (type : FieldType) (fieldText : String) : Pattern → Except Cause (Option Test)
  | .wildcard | .var _ => .ok none
  | .constant c => do pure (some (.equal (← checkConstant type fieldText c)))
  | .oneOf c d cs => do
    let c ← checkConstant type fieldText c
    let d ← checkConstant type fieldText d
    pure (some (.among c d (← cs.mapM (checkConstant type fieldText))))
  | .named p _ => planTest type fieldText p

/-- Whether something reads the value of a field. -/
def isRead (field : Field) (spec : Spec) : Bool :=
  field.pattern != .wildcard || spec.bind.isSome || spec.check.isSome

/-- An expression with every name resolved, if there is one. -/
def resolveOption (scope : Scope) (env : List String) (fieldText : String) :
    Option Expr → Except Cause (Option Expr)
  | none => .ok none
  | some e => do pure (some (← resolve scope env fieldText e))

/-- The plan of a field with a length and a type, and the scope after it. -/
def planTyped (ctx : Context) (scope : Scope) (field : Field) (length : Expr) (spec : Spec)
    (type : FieldType) : Except Cause (FieldPlan × Scope) := do
  let static := length.fold?
  -- In the order in which faults are told: of several, the first one is the fault of the field.
  checkLength (some type) (static.map Scalar.number) field.text
  checkPattern type static field
  let planned ← planLength ctx scope static length field.text
  let order ← planOrder ctx scope type spec.endian field.text
  let inner := scope.bindAll field.pattern.names
  let rebind ← resolveOption inner ctx.env field.text spec.bind
  let test ← planTest type field.text field.pattern
  let check ← resolveOption inner ctx.env field.text spec.check
  let jump ← resolveOption inner ctx.env field.text spec.offset
  pure ({
    text := field.text
    type
    length := planned
    signed := spec.isSigned
    order
    kept := isRead field spec
    locals := field.pattern.names.map localName
    rebind
    test
    check
    jump }, inner)

/-- The plan of a field, and the scope after it. -/
def planField (ctx : Context) (scope : Scope) (field : Field) :
    Except Cause (FieldPlan × Scope) :=
  match field.length, field.spec.bind Spec.valueType with
  | some length, some type =>
    planTyped ctx scope field length (field.spec.getD .empty) type
  | _, _ => .error (.missingType field.text)

/-- The plans of several fields, and the scope after them. -/
def planFields (ctx : Context) (scope : Scope) : List Field →
    Except Cause (List FieldPlan × Scope)
  | [] => .ok ([], scope)
  | field :: rest => do
    let (plan, scope) ← planField ctx scope field
    let (plans, scope) ← planFields ctx scope rest
    pure (plan :: plans, scope)

/-! ## Bodies -/

/-- The bound names that a parameter takes by its name. -/
def acceptParameter (bound : List String) (caseText : String) (p : Parameter) :
    Except Cause (List String) :=
  if p.takesName && bound.contains p.name then .ok [p.name]
  else if p.isRequired then .error (.bodySignature p.name caseText)
  else .ok []

/-- The bound names that a callable is given: those of its parameters, or all of them if it takes
any name or its signature cannot be read. -/
def bodyArguments (signature : Option (List Parameter)) (bound : List String)
    (caseText : String) : Except Cause (List String) :=
  match signature with
  | none => .ok bound
  | some parameters =>
    if parameters.any (·.kind == .keywords) then .ok bound
    else do pure (← parameters.mapM (acceptParameter bound caseText)).flatten

/-- The plan of a body in the scope after the fields. -/
def planBody (ctx : Context) (scope : Scope) (caseText : String) : Body → Except Cause BodyPlan
  | .expr e => do pure (.value (← resolve scope ctx.env caseText e))
  | .callable callable => do
    let names ← bodyArguments callable.signature scope.names caseText
    pure (.call callable (names.map fun x => (x, (scope.lookup x).getD x)))

/-! ## Cases -/

/-- The fields before the first lone wildcard. -/
def effectiveFields (c : Case) : List Field :=
  c.fields.takeWhile fun field => !field.isRest

/-- Whether fields stand after a lone wildcard, where they have no effect. -/
def ignoresFields (c : Case) : Bool :=
  (effectiveFields c).length + 1 < c.fields.length

/-- The plan of a case. -/
def planCase (ctx : Context) (c : Case) : Except Cause CasePlan := do
  let (fields, scope) ← planFields ctx [] (effectiveFields c)
  let body ← planBody ctx scope c.fieldsText c.body
  pure ⟨c.index, c.fieldsText, fields, body⟩

/-! ## Environments -/

/-- A name that expressions can refer to in the environment. -/
def isUsable (x : String) : Bool :=
  isIdentifier x && !isReserved x && !isGenerated x

/-- Refuses an environment with a name that expressions cannot refer to. -/
def checkEnv (names : List String) : Except Cause Unit :=
  match names.find? fun x => !isUsable x with
  | some x => .error (.configuration ("Environment name " ++ quoted x
      ++ " is not usable in expressions"))
  | none => .ok ()

/-- The plans of a list of cases, which must not be empty. -/
def planCases (ctx : Context) (cases : List Case) : Except Cause (List CasePlan) := do
  checkEnv ctx.env
  if cases.isEmpty then throw (.configuration "Empty case list")
  cases.mapM (planCase ctx)

/-! ## Patterns in place of expressions -/

/-- The kind of a pattern in messages. -/
def patternKind : Pattern → String
  | .wildcard => "WildcardPattern"
  | .var _ => "VarPattern"
  | .constant _ => "LiteralPattern"
  | .oneOf .. => "OrPattern"
  | .named .. => "AliasPattern"

/-- A pattern has no value, so none can be planned for it. -/
def refusePattern (p : Pattern) : Cause :=
  .codegen ("Cannot compile expression of type " ++ patternKind p)

end Plan

end BitPattern
