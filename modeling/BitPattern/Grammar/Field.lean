import BitPattern.Grammar.Expr
import BitPattern.Grammar.Pattern

/-!
# The grammar of field lists

A field is a pattern, a length and qualifiers with colons between them, or a lone wildcard.  Fields
are separated by commas or semicolons.  A comma after qualifiers separates fields if what follows
has the shape of a field, and qualifiers otherwise.
-/

namespace BitPattern.Grammar

open Reader

/-- A field as it is written.  `left` is the number of characters of the list that are left at its
start; a lone wildcard has no description. -/
structure FieldForm where
  left : Nat
  text : String
  description : Option (Pattern × Expr × Option Expr)
  deriving DecidableEq

/-- The end of the text. -/
def endOfText : Reader Unit :=
  rule (absent (part fun
    | [] => none
    | c :: rest => some (c, rest)))

/-- A comma or a semicolon. -/
def separator : Reader Unit :=
  rule (text ";" <|> text ",")

/-- What only a field starts with: a pattern and a colon, or a lone wildcard. -/
def fieldStart : Reader Unit :=
  rule ((do let _ ← pattern; blank; text ":")
    <|> (do wildcard; blank; separator <|> endOfText))

/-- Qualifiers with commas between them; several are a tuple. -/
def qualifiers : Reader (Denoted Expr) := rule do
  let first ← expr
  let rest ← many (rule do
    blank
    text ","
    blank
    absent fieldStart
    expr)
  pure (do
    let first ← first
    let rest ← rest.mapM id
    pure (if rest.isEmpty then first else .tuple (first :: rest)))

/-- A field with a length. -/
def fullField : Reader (Denoted FieldForm) := rule do
  let start ← left
  -- The text goes into the comment of the listing and into messages.
  let ((p, length, quals), text) ← withText do
    let p ← pattern
    blank
    text ":"
    blank
    let length ← expr
    let quals ← optional (rule do
      blank
      text ":"
      blank
      qualifiers)
    pure (p, length, quals)
  pure (do
    let p ← p
    let length ← length
    let quals ← quals.mapM id
    pure ⟨start, String.ofList text, some (p, length, quals)⟩)

/-- A lone wildcard. -/
def restField : Reader (Denoted FieldForm) := rule do
  let start ← left
  wildcard
  absent (do blank; text ":")
  pure (.ok ⟨start, "_", none⟩)

/-- A field. -/
def field : Reader (Denoted FieldForm) :=
  rule (fullField <|> restField)

/-- A list of fields, after the last of which a separator may stand. -/
def fieldList : Reader (Denoted (List FieldForm)) := rule do
  blank
  let first ← field
  let rest ← many (rule do
    blank
    separator
    blank
    field)
  blank
  let _ ← optional separator
  blank
  pure ((first :: rest).mapM id)

end BitPattern.Grammar
