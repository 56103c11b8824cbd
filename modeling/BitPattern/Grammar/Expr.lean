import BitPattern.Grammar.Token

/-!
# The grammar of expressions

Ten levels of operators, from the loosest to the tightest: `or`, `and`, `not`, comparison, the
three bitwise ones, shifts, sums, products.  Comparison takes one operator at most; the other
levels between operands group to the left.  Most operators have two spellings.

A level is a function of the level below it, and the levels close into a circle at parentheses and
calls.  Every turn of the circle takes a character, so a text has no more turns than characters.
-/

namespace BitPattern.Grammar

open Reader

/-- Fails everywhere. -/
def nothing {α : Type} : Reader α :=
  part fun _ => none

/-- A fixed text that stands for a value. -/
def spelled {α : Type} (s : String) (a : α) : Reader α := do
  text s
  pure a

/-- A keyword that stands for a value. -/
def worded {α : Type} (s : String) (a : α) : Reader α := do
  keyword s
  pure a

/-- A text that the given one does not continue. -/
def spelledBut {α : Type} (s next : String) (a : α) : Reader α := do
  text s
  absent (text next)
  pure a

/-! ## Operators -/

/-- The operator of a disjunction. -/
def orOp : Reader BinOp :=
  rule (spelled "||" .or <|> worded "or" .or)

/-- The operator of a conjunction. -/
def andOp : Reader BinOp :=
  rule (spelled "&&" .and <|> worded "and" .and)

/-- The operator of a negation. -/
def notOp : Reader UnOp :=
  rule (worded "not" .not <|> spelledBut "!" "=" .not)

/-- The operator of a comparison. -/
def compareOp : Reader BinOp :=
  rule (spelled "==" .eq <|> spelled "!=" .ne <|> spelled "<>" .ne <|> spelled "<=" .le
    <|> spelled ">=" .ge <|> spelled "<" .lt <|> spelled ">" .gt <|> spelled "=" .eq)

/-- The head of an arm of a match source: the string literal of its fields and an arrow. -/
def armHead : Reader (Nat × Denoted (List UInt8)) := rule do
  let start ← left
  let fields ← stringLiteral
  blank
  text "->"
  pure (start, fields)

/-- The operator of a bitwise disjunction.  A bar before the head of an arm introduces the arm. -/
def bitOrOp : Reader BinOp :=
  rule (worded "lor" .bitOr <|> (do
    text "|"
    absent (text "|")
    absent (do blank; armHead)
    pure .bitOr))

/-- The operator of an exclusive disjunction. -/
def bitXorOp : Reader BinOp :=
  rule (spelled "^" .bitXor <|> worded "lxor" .bitXor)

/-- The operator of a bitwise conjunction. -/
def bitAndOp : Reader BinOp :=
  rule (worded "land" .bitAnd <|> spelledBut "&" "&" .bitAnd)

/-- The operator of a shift. -/
def shiftOp : Reader BinOp :=
  rule (spelled "<<" .shiftLeft <|> spelled ">>" .shiftRight <|> worded "lsl" .shiftLeft
    <|> worded "lsr" .logicalShiftRight <|> worded "asr" .shiftRight)

/-- The operator of a sum.  A minus sign that begins an arrow is none. -/
def addOp : Reader BinOp :=
  rule (spelled "+" .add <|> spelledBut "-" ">" .sub)

/-- The operator of a product. -/
def mulOp : Reader BinOp :=
  rule (spelled "*" .mul <|> spelled "/" .div <|> spelled "%" .mod <|> worded "mod" .mod)

/-- The sign before an operand. -/
def unaryOp : Reader UnOp :=
  rule (spelled "-" .neg <|> spelled "~" .complement <|> worded "lnot" .complement)

/-! ## Levels -/

/-- Puts an operator between two operands that denote something. -/
def joinOperands (left : Denoted Expr) (tail : BinOp × Denoted Expr) : Denoted Expr := do
  let a ← left
  let b ← tail.2
  pure (.binary tail.1 a b)

/-- An operator with the operand after it. -/
def operation (op : Reader BinOp) (operand : Reader (Denoted Expr)) :
    Reader (BinOp × Denoted Expr) := rule do
  blank
  let op ← op
  blank
  let e ← operand
  pure (op, e)

/-- Operands with operators between them, grouped to the left. -/
def chain (op : Reader BinOp) (operand : Reader (Denoted Expr)) : Reader (Denoted Expr) := rule do
  let first ← operand
  let tails ← many (operation op operand)
  pure (tails.foldl joinOperands first)

/-- Two operands with an operator between them, or a single one. -/
def comparison (operand : Reader (Denoted Expr)) : Reader (Denoted Expr) := rule do
  let first ← operand
  let tail ← optional (operation compareOp operand)
  pure (match tail with
    | some tail => joinOperands first tail
    | none => first)

/-- An operator before an operand.  A minus sign before an integer makes it negative. -/
def applyUnary : UnOp → Expr → Expr
  | .neg, .int n => .int (-n)
  | op, e => .unary op e

/-- An operand with at most `limit` operators before it. -/
def prefixedWithin (op : Reader UnOp) (apply : UnOp → Expr → Expr)
    (operand : Reader (Denoted Expr)) : Nat → Reader (Denoted Expr)
  | 0 => operand
  | limit + 1 => rule (rule (do
      let o ← op
      blank
      let e ← prefixedWithin op apply operand limit
      pure (apply o <$> e)) <|> operand)

/-- An operand with any number of operators before it. -/
def prefixed (op : Reader UnOp) (apply : UnOp → Expr → Expr) (operand : Reader (Denoted Expr)) :
    Reader (Denoted Expr) := fun cs =>
  prefixedWithin op apply operand (cs.length + 1) cs

/-- Expressions with commas between them, and whether a comma follows the last. -/
def items (expr : Reader (Denoted Expr)) : Reader (List (Denoted Expr) × Bool) := rule do
  let first ← expr
  let rest ← many (rule do
    blank
    text ","
    blank
    expr)
  let trailing ← optional (rule do
    blank
    text ",")
  pure (first :: rest, trailing.isSome)

/-- A function applied to arguments. -/
def call (expr : Reader (Denoted Expr)) : Reader (Denoted Expr) := rule do
  let function ← identifier
  blank
  text "("
  blank
  let args ← optional (items expr)
  blank
  text ")"
  pure ((.call function) <$> ((args.map Prod.fst).getD []).mapM id)

/-- What parentheses around expressions mean: a tuple, unless they hold a single expression and no
comma. -/
def grouped : Option (List (Denoted Expr) × Bool) → Denoted Expr
  | none => .ok (.tuple [])
  | some ([e], false) => e
  | some (es, _) => .tuple <$> es.mapM id

/-- Expressions in parentheses. -/
def parenthesized (expr : Reader (Denoted Expr)) : Reader (Denoted Expr) := rule do
  text "("
  blank
  let inner ← optional (items expr)
  blank
  text ")"
  pure (grouped inner)

/-- A literal. -/
def literal : Reader (Denoted Expr) :=
  rule ((do let n ← integer; pure (.int <$> n))
    <|> (do let b ← stringLiteral; pure (.bytes <$> b))
    <|> (do let b ← boolean; pure (.ok (.bool b))))

/-- An operand: parentheses, a literal or a name. -/
def primary (expr : Reader (Denoted Expr)) : Reader (Denoted Expr) :=
  rule (parenthesized expr <|> literal <|> (do let x ← identifier; pure (.ok (.name x))))

/-- A call or another operand. -/
def application (expr : Reader (Denoted Expr)) : Reader (Denoted Expr) :=
  rule (call expr <|> primary expr)

/-- An operand with signs before it. -/
def signedOperand (expr : Reader (Denoted Expr)) : Reader (Denoted Expr) :=
  prefixed unaryOp applyUnary (application expr)

/-- The levels of arithmetic, up to the bitwise disjunction. -/
def arithmetic (expr : Reader (Denoted Expr)) : Reader (Denoted Expr) :=
  chain bitOrOp (chain bitXorOp (chain bitAndOp (chain shiftOp (chain addOp (chain mulOp
    (signedOperand expr))))))

/-- The levels of truth values above arithmetic. -/
def disjunction (expr : Reader (Denoted Expr)) : Reader (Denoted Expr) :=
  chain orOp (chain andOp (prefixed notOp .unary (comparison (arithmetic expr))))

/-- An expression with at most `limit` turns through parentheses and calls. -/
def exprWithin : Nat → Reader (Denoted Expr)
  | 0 => nothing
  | limit + 1 => disjunction (exprWithin limit)

/-- An expression. -/
def expr : Reader (Denoted Expr) := fun cs =>
  exprWithin (cs.length + 1) cs

end BitPattern.Grammar
