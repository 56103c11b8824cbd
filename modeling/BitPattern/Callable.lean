import BitPattern.Value.Basic

/-!
# Callable bodies

The body of a case may be a callable, which is given the values of bound names by name.  Its
signature says which names it takes; a callable whose signature cannot be read takes any.
`bindArguments` is the rule for giving named arguments to parameters: a parameter that takes its
argument by name has it, or its default value; none may be missing, and none may be left over
unless some parameter collects the rest.
-/

namespace BitPattern

/-- How a parameter is given its argument. -/
inductive ParameterKind where
  | positionalOnly | ordinary | variadic | keywordOnly | keywords
  deriving DecidableEq, Repr

/-- A parameter, with the value that it has without an argument. -/
structure Parameter where
  name : String
  kind : ParameterKind
  default : Option Value

namespace Parameter

/-- Whether a parameter takes its argument by name. -/
def takesName (p : Parameter) : Bool :=
  p.kind == .ordinary || p.kind == .keywordOnly

/-- Whether a call without an argument for the parameter is refused. -/
def isRequired (p : Parameter) : Bool :=
  p.default.isNone && p.kind != .variadic && p.kind != .keywords

/-- The argument of a parameter among named ones, or its default value. -/
def argument (p : Parameter) (args : List (String × Value)) : Except Fault Value :=
  match args.lookup p.name <|> p.default with
  | some v => .ok v
  | none => .error .type

/-- The value of a parameter for named arguments, of which `extra` are those that no parameter takes
by name. -/
def value (p : Parameter) (args extra : List (String × Value)) : Except Fault Value :=
  match p.kind with
  | .ordinary | .keywordOnly => p.argument args
  | .positionalOnly => p.argument []
  | .variadic => .ok (.tuple [])
  | .keywords => .ok (.dict extra)

end Parameter

/-- The parameters of a signature with their values for named arguments. -/
def bindArguments (parameters : List Parameter) (args : List (String × Value)) :
    Except Fault (List (String × Value)) :=
  let extra := args.filter fun arg => !parameters.any fun p => p.takesName && p.name == arg.1
  if !extra.isEmpty && !parameters.any (·.kind == .keywords) then .error .type
  else parameters.mapM fun p => do pure (p.name, ← p.value args extra)

/-- A callable: its signature, if it can be read, and what it answers for named arguments. -/
structure Callable where
  signature : Option (List Parameter)
  answer : List (String × Value) → Except Fault Value

namespace Callable

/-- Answers with all parameters and their values. -/
def collect (parameters : List Parameter) : Callable :=
  ⟨some parameters, fun args => Value.dict <$> bindArguments parameters args⟩

/-- Answers with whatever it is given, and has no readable signature. -/
def collectAny : Callable :=
  ⟨none, fun args => .ok (.dict args)⟩

/-- Takes arguments without names only, and answers with the last of them: none if it is called by
name. -/
def last : Callable :=
  let parameters : List Parameter := [⟨"args", .variadic, none⟩]
  ⟨some parameters, fun args => do
    let _ ← bindArguments parameters args
    pure .none⟩

end Callable

end BitPattern
