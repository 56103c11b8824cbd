import BitPattern.Value.Arithmetic
import BitPattern.Value.Builtin

/-!
# Runs

A run computes a value or ends in a fault, and records the calls of the caller's functions that it
makes on the way, in order.  `Expr.eval` runs an expression whose names are looked up in a given
way.  Operands are evaluated from left to right; `or` and `and` evaluate the right one only if the
left one does not settle the value.
-/

namespace BitPattern

/-- A call of a caller's function. -/
structure Call where
  name : String
  args : List Value

/-- The calls made, and the value or the fault. -/
structure Run (α : Type) where
  calls : List Call
  result : Except Fault α

namespace Run

variable {α β : Type}

/-- A value without calls. -/
def ok (a : α) : Run α := ⟨[], .ok a⟩

/-- A result without calls. -/
def ofExcept (result : Except Fault α) : Run α := ⟨[], result⟩

/-- A fault without calls. -/
def fault (f : Fault) : Run α := ⟨[], .error f⟩

/-- A run and then another that depends on its value. -/
def andThen (r : Run α) (f : α → Run β) : Run β :=
  match r.result with
  | .error e => ⟨r.calls, .error e⟩
  | .ok a => ⟨r.calls ++ (f a).calls, (f a).result⟩

instance : Monad Run where
  pure := ok
  bind := andThen

instance : MonadLift (Except Fault) Run := ⟨ofExcept⟩

end Run

/-- The value of a function for its arguments. -/
def Value.apply (function : Value) (args : List Value) : Run Value :=
  match function with
  | .builtin f => .ofExcept (f.apply args)
  | .probe name => ⟨[⟨name, args⟩], .ok (args.getLast?.getD .none)⟩
  | _ => .fault .type

namespace Expr

mutual

/-- The value of an expression. -/
def eval (lookup : String → Except Fault Value) : Expr → Run Value
  | int n => .ok (.int n)
  | bytes b => .ok (.ofBytes b)
  | bool b => .ok (.bool b)
  | name x => .ofExcept (lookup x)
  -- The second operand is evaluated only if the first one leaves the value open.
  | binary .or left right => do
    let v ← left.eval lookup
    if v.truth then pure v else right.eval lookup
  | binary .and left right => do
    let v ← left.eval lookup
    if v.truth then right.eval lookup else pure v
  | binary op left right => do
    let v ← left.eval lookup
    let w ← right.eval lookup
    Run.ofExcept (op.apply v w)
  | unary op operand => do
    let v ← operand.eval lookup
    Run.ofExcept (op.apply v)
  | call function args => do
    let f ← Run.ofExcept (lookup function)
    let vs ← evalAll lookup args
    f.apply vs
  | tuple items => do
    let vs ← evalAll lookup items
    pure (.tuple vs)

/-- The values of several expressions, from left to right. -/
def evalAll (lookup : String → Except Fault Value) : List Expr → Run (List Value)
  | [] => .ok []
  | e :: rest => do
    let v ← e.eval lookup
    let vs ← evalAll lookup rest
    pure (v :: vs)

end

end Expr

end BitPattern
