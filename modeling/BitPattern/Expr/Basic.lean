/-!
# Expressions

Lengths, qualifier arguments and case bodies are expressions: integer, byte string and truth value
literals, names, operators, calls and tuples.  `Expr.freeNames` lists the names that an expression
refers to, called functions included, in the order in which they first appear.
-/

namespace BitPattern

/-- The operators between two operands. -/
inductive BinOp where
  | or | and
  | eq | ne | lt | le | gt | ge
  | bitOr | bitXor | bitAnd
  | shiftLeft | logicalShiftRight | shiftRight
  | add | sub | mul | div | mod
  deriving DecidableEq, Repr

/-- The spelling of an operator in the notation's own rendering. -/
def BinOp.spelling : BinOp → String
  | or => "or"
  | and => "and"
  | eq => "=="
  | ne => "!="
  | lt => "<"
  | le => "<="
  | gt => ">"
  | ge => ">="
  | bitOr => "lor"
  | bitXor => "lxor"
  | bitAnd => "land"
  | shiftLeft => "lsl"
  | logicalShiftRight => "lsr"
  | shiftRight => "asr"
  | add => "+"
  | sub => "-"
  | mul => "*"
  | div => "/"
  | mod => "mod"

/-- The operators before one operand. -/
inductive UnOp where
  | neg | complement | not
  deriving DecidableEq, Repr

/-- The spelling of an operator in the notation's own rendering. -/
def UnOp.spelling : UnOp → String
  | neg => "-"
  | complement => "lnot"
  | not => "not"

/-- An expression. -/
inductive Expr where
  | int (n : Int)
  | bytes (b : List UInt8)
  | bool (b : Bool)
  | name (x : String)
  | binary (op : BinOp) (left right : Expr)
  | unary (op : UnOp) (operand : Expr)
  | call (function : String) (args : List Expr)
  | tuple (items : List Expr)
  deriving Repr

namespace Expr

/-! ## Equality -/

mutual

/-- Whether two expressions are the same. -/
def same : Expr → Expr → Bool
  | int m, int n => m == n
  | bytes a, bytes b => a == b
  | bool a, bool b => a == b
  | name x, name y => x == y
  | binary op left right, binary op' left' right' =>
    op == op' && (left.same left' && right.same right')
  | unary op operand, unary op' operand' => op == op' && operand.same operand'
  | call function args, call function' args' => function == function' && sameAll args args'
  | tuple items, tuple items' => sameAll items items'
  | _, _ => false

/-- Whether two lists hold the same expressions. -/
def sameAll : List Expr → List Expr → Bool
  | [], [] => true
  | e :: es, f :: fs => e.same f && sameAll es fs
  | _, _ => false

end

mutual

theorem same_iff : (e f : Expr) → (e.same f = true ↔ e = f)
  | int _, f => by cases f <;> simp [same]
  | bytes _, f => by cases f <;> simp [same]
  | bool _, f => by cases f <;> simp [same]
  | name _, f => by cases f <;> simp [same]
  | binary _ left right, f => by cases f <;> simp [same, same_iff left, same_iff right]
  | unary _ operand, f => by cases f <;> simp [same, same_iff operand]
  | call _ args, f => by cases f <;> simp [same, sameAll_iff args]
  | tuple items, f => by cases f <;> simp [same, sameAll_iff items]

theorem sameAll_iff : (es fs : List Expr) → (sameAll es fs = true ↔ es = fs)
  | [], fs => by cases fs <;> simp [sameAll]
  | e :: es, fs => by cases fs <;> simp [sameAll, same_iff e, sameAll_iff es]

end

instance : DecidableEq Expr := fun e f => decidable_of_iff _ (same_iff e f)

/-! ## Names -/

/-- Adds a name at the end unless it is there. -/
def insertName (names : List String) (x : String) : List String :=
  if names.contains x then names else names ++ [x]

mutual

/-- The names of an expression after those already found. -/
def collectNames (found : List String) : Expr → List String
  | int _ | bytes _ | bool _ => found
  | name x => insertName found x
  | binary _ left right => collectNames (collectNames found left) right
  | unary _ operand => collectNames found operand
  | call function args => collectAll (insertName found function) args
  | tuple items => collectAll found items

/-- The names of several expressions after those already found. -/
def collectAll (found : List String) : List Expr → List String
  | [] => found
  | e :: rest => collectAll (collectNames found e) rest

end

/-- The names that an expression refers to, each once, in order of first appearance. -/
def freeNames (e : Expr) : List String :=
  collectNames [] e

end Expr

end BitPattern
