import BitPattern.Field.Basic
import BitPattern.Grammar.Token

/-!
# The grammar of patterns

A pattern is a name, the wildcard, a constant, or constants with bars between them, and may be given
a further name with `as`.  Parentheses group.
-/

namespace BitPattern.Grammar

open Reader

/-- A constant. -/
def constant : Reader (Denoted Pattern) :=
  rule ((do let n ← signedInteger; pure ((fun n => .constant (.int n)) <$> n))
    <|> (do let b ← stringLiteral; pure ((fun b => .constant (.bytes b)) <$> b)))

/-- A pattern in parentheses. -/
def groupPattern (pattern : Reader (Denoted Pattern)) : Reader (Denoted Pattern) := rule do
  text "("
  blank
  let p ← pattern
  blank
  text ")"
  pure p

/-- A pattern without bars. -/
def atomPattern (pattern : Reader (Denoted Pattern)) : Reader (Denoted Pattern) :=
  rule ((do wildcard; pure (.ok .wildcard))
    <|> constant
    <|> (do let x ← identifier; pure (.ok (.var x)))
    <|> groupPattern pattern)

/-- The constant that a pattern is. -/
def constantOf? : Pattern → Option Constant
  | .constant c => some c
  | _ => none

/-- Alternatives as one pattern: several of them have to be constants. -/
def alternatives (text : List Char) (first : Denoted Pattern) (rest : List (Denoted Pattern)) :
    Denoted Pattern := do
  let first ← first
  let rest ← rest.mapM id
  if rest.isEmpty then pure first
  else match (first :: rest).mapM constantOf? with
    | some (c :: d :: constants) => pure (.oneOf c d constants)
    | _ => .error (.alternatives (String.ofList text))

/-- Patterns with bars between them. -/
def orPattern (pattern : Reader (Denoted Pattern)) : Reader (Denoted Pattern) := rule do
  let ((first, rest), text) ← withText do
    let first ← atomPattern pattern
    let rest ← many (rule do
      blank
      text "|"
      blank
      atomPattern pattern)
    pure (first, rest)
  pure (alternatives text first rest)

/-- The further name of a pattern. -/
def furtherName : Reader String := do
  blank
  keyword "as"
  blank
  identifier

/-- A pattern with at most `limit` groups inside each other. -/
def patternWithin : Nat → Reader (Denoted Pattern)
  | 0 => part fun _ => none
  | limit + 1 => rule do
    let p ← orPattern (patternWithin limit)
    (do let x ← furtherName; pure ((fun p => .named p x) <$> p)) <|> pure p

/-- A pattern. -/
def pattern : Reader (Denoted Pattern) := fun cs =>
  patternWithin (cs.length + 1) cs

end BitPattern.Grammar
