import BitPattern.Report.Diagnostic
import BitPattern.Expr.Basic
import BitPattern.Text.Name
import BitPattern.Value.Builtin

/-!
# Scopes

A scope maps the names that the fields of a case have bound so far to their locals.  A name of an
expression is looked up there first, then among the names of the environment, and last among the
functions of expressions.
-/

namespace BitPattern.Plan

open BitPattern.Report BitPattern.Text

/-- Bound names with their locals, in the order in which they were first bound. -/
abbrev Scope := List (String × String)

namespace Scope

/-- Binds a name to a local; a name that is bound keeps its place. -/
def put : Scope → String → String → Scope
  | [], x, l => [(x, l)]
  | (y, k) :: rest, x, l => if y == x then (y, l) :: rest else (y, k) :: put rest x l

/-- Binds a name to its local. -/
def bind (scope : Scope) (x : String) : Scope :=
  scope.put x (localName x)

/-- Binds several names to their locals. -/
def bindAll (scope : Scope) (xs : List String) : Scope :=
  xs.foldl bind scope

/-- The bound names. -/
def names (scope : Scope) : List String :=
  scope.map Prod.fst

end Scope

/-- A function or byte order that every expression may name. -/
def isExpressionName (x : String) : Bool :=
  (expressionNames.map Prod.fst).contains x

/-- What a name stands for in a listing, if it is bound anywhere. -/
def resolveName? (scope : Scope) (env : List String) (x : String) : Option String :=
  match scope.lookup x with
  | some l => some l
  | none => if env.contains x || isExpressionName x then some x else none

/-- What a name stands for in a listing; nothing may be unbound. -/
def resolveName (scope : Scope) (env : List String) (fieldText x : String) :
    Except Cause String :=
  match resolveName? scope env x with
  | some y => .ok y
  | none => .error (.unboundName x fieldText (scope.names ++ env))

mutual

/-- An expression with every name resolved. -/
def resolve (scope : Scope) (env : List String) (fieldText : String) : Expr → Except Cause Expr
  | .int n => .ok (.int n)
  | .bytes b => .ok (.bytes b)
  | .bool b => .ok (.bool b)
  | .name x => do pure (.name (← resolveName scope env fieldText x))
  | .binary op left right => do
    let l ← resolve scope env fieldText left
    let r ← resolve scope env fieldText right
    pure (.binary op l r)
  | .unary op operand => do pure (.unary op (← resolve scope env fieldText operand))
  | .call function args => do
    let f ← resolveName scope env fieldText function
    let as ← resolveAll scope env fieldText args
    pure (.call f as)
  | .tuple items => do pure (.tuple (← resolveAll scope env fieldText items))

/-- Several expressions with every name resolved. -/
def resolveAll (scope : Scope) (env : List String) (fieldText : String) :
    List Expr → Except Cause (List Expr)
  | [] => .ok []
  | e :: rest => do
    let e ← resolve scope env fieldText e
    let rest ← resolveAll scope env fieldText rest
    pure (e :: rest)

end

end BitPattern.Plan
