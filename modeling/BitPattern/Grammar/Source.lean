import BitPattern.Grammar.Expr

/-!
# The grammar of match sources

A match source is a list of arms.  An arm is the string literal of its fields, an arrow and a body;
a bar may introduce it and a semicolon may end it.
-/

namespace BitPattern.Grammar

open Reader

/-- An arm as it is written.  `left` is the number of characters of the source that are left at the
first one of the fields. -/
structure ArmForm where
  left : Nat
  fields : List UInt8
  body : Expr
  deriving DecidableEq

/-- An arm. -/
def arm : Reader (Denoted ArmForm) := rule do
  let _ ← optional (rule do
    text "|"
    blank)
  let (start, fields) ← armHead
  blank
  let body ← expr
  blank
  let _ ← optional (rule (text ";"))
  blank
  pure (do
    let fields ← fields
    let body ← body
    pure ⟨start - 1, fields, body⟩)

/-- A match source. -/
def source : Reader (Denoted (List ArmForm)) := rule do
  blank
  let arms ← many arm
  pure (arms.mapM id)

end BitPattern.Grammar
