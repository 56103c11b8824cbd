import BitPattern.Grammar.Parse
import BitPattern.Value.Display

/-!
# Cases from parts

A caller gives a case as a pair of fields and body.  The fields have to be a text; the body is a
text, an expression that has been parsed already, or a callable.  What comes of it later fails in
one of two ways (`Failure`): the description is refused with a diagnostic, or an operation on values
or bits has a fault.
-/

namespace BitPattern

open BitPattern.Report

/-- Why no matcher can be made, or why one cannot be applied. -/
inductive Failure where
  /-- The description is refused. -/
  | refused (d : Diagnostic)
  /-- An operation fails. -/
  | fault (f : Fault)

/-- A body as a caller gives it. -/
inductive BodyInput where
  | value (v : Value)
  | expr (e : Expr)
  | callable (c : Callable)

/-- A case as a caller gives it. -/
inductive CaseInput where
  | pair (fields : Value) (body : BodyInput)
  | value (v : Value)

/-- The body that a caller means. -/
def Body.ofInput : BodyInput → Except Diagnostic Body
  | .expr e => .ok (.expr e)
  | .callable c => .ok (.callable c)
  | .value (.text s) => do pure (.expr (← Expr.parse s))
  | .value (.probe _) => .ok (.callable .last)
  | .value v =>
    .error (.ofCause (.configuration
      ("Case body must be an expression or a callable, got " ++ v.typeName)))

namespace Case

/-- The case of two texts or of a text and another body. -/
def ofTexts (implicitInt : Bool) (index : Int) (fields : String) (body : BodyInput) :
    Except Diagnostic Case := do
  let body ← Body.ofInput body
  let parsed ← Field.parseList implicitInt (.alone fields) fields
  pure ⟨fields, parsed, body, index⟩

/-- The case of a pair. -/
def ofPair (implicitInt : Bool) (index : Int) (fields : Value) (body : BodyInput) :
    Except Failure Case :=
  match fields with
  | .text s => (ofTexts implicitInt index s body).mapError .refused
  | v =>
    match v.mention with
    | .ok mention => .error (.refused (.ofCause (.casePattern mention)))
    | .error f => .error (.fault f)

/-- The case that a caller means. -/
def ofInput (implicitInt : Bool) (index : Nat) : CaseInput → Except Failure Case
  | .pair fields body => ofPair implicitInt index fields body
  | .value (.tuple [fields, body]) => ofPair implicitInt index fields (.value body)
  | .value v =>
    .error (.refused (.ofCause (.configuration ("Case " ++ Nat.repr index
      ++ " must be a (fields, body) pair, got " ++ v.typeName))))

/-- The cases that a caller means, numbered on from an index. -/
def ofInputs (implicitInt : Bool) (index : Nat) : List CaseInput → Except Failure (List Case)
  | [] => .ok []
  | input :: rest => do
    let c ← ofInput implicitInt index input
    let cases ← ofInputs implicitInt (index + 1) rest
    pure (c :: cases)

end Case

end BitPattern
