import BitPattern.Bits.Scalar
import BitPattern.Report.Code
import BitPattern.Report.Span
import BitPattern.Text.Json
import BitPattern.Text.Quoted

/-!
# Diagnostics

A diagnostic says why a match description cannot be used, or that nothing matched.  Its `Cause`
fixes the message, the code, the first notes and the hint; the place is added by whoever knows it,
and a place that is known is kept.  A diagnostic is written as a few lines of text or as JSON.
-/

namespace BitPattern.Report

open BitPattern.Text

/-! ## Causes -/

/-- What a message mentions: a text, which is quoted, or anything else as it is displayed. -/
inductive Mention where
  | text (s : String)
  | shown (s : String)
  deriving DecidableEq, Repr

namespace Mention

instance : Coe String Mention := ⟨text⟩

/-- A mention as it stands in a message. -/
def display : Mention → String
  | text s => quoted s
  | shown s => s

/-- Whether nothing is mentioned. -/
def isEmpty : Mention → Bool
  | text s | shown s => s.isEmpty

end Mention

/-- Why a match description is refused. -/
inductive Cause where
  /-- A fault that only its message describes. -/
  | general (message : String)
  /-- The description as a whole is unusable. -/
  | configuration (message : String)
  /-- A text has not the form that was asked for. -/
  | malformed (reason : String) (text : Mention)
  /-- Two qualifiers set the same attribute. -/
  | duplicateAttribute (label qualifier : String)
  /-- A qualifier outside the vocabulary. -/
  | unknownQualifier (qualifier : String)
  /-- A field has no value type. -/
  | missingType (fieldText : Mention)
  /-- A bitstring is compared or renamed. -/
  | bitstringPattern (pattern : Mention)
  /-- The fields of a case are no text. -/
  | casePattern (fields : Mention)
  /-- A name that nothing binds. -/
  | unboundName (name fieldText : Mention) (available : List String)
  /-- A body asks for an argument that its case does not bind. -/
  | bodySignature (parameter caseText : Mention)
  /-- A check before any run has failed. -/
  | staticCheck (message : String)
  /-- A length breaks the rule of its type. -/
  | lengthRange (rule : String) (length : Scalar) (fieldText : Mention)
  /-- A construct that has no code. -/
  | codegen (message : String)
  /-- No case accepts the subject. -/
  | noMatch (message : String)
  deriving DecidableEq, Repr

/-- A note below a message. -/
structure Note where
  message : String
  label : String
  deriving DecidableEq, Repr

/-- The note as a line. -/
def Note.display (note : Note) : String :=
  note.label ++ ": " ++ note.message

/-- The qualifiers that may stand in a field. -/
def vocabularyHint : String :=
  "expected one of int, string, bitstring, signed, unsigned, littleendian, bigendian, "
    ++ "nativeendian, endian(e), bind(e), check(e), set_offset_at(e)"

/-- How a name comes to be bound. -/
def bindingHint : String :=
  "bind it in an earlier field or pass it through env"

namespace Cause

/-- A phrase that names a field, or nothing for a field without text. -/
def inField (before : String) (fieldText : Mention) (after : String) : String :=
  if fieldText.isEmpty then "" else before ++ fieldText.display ++ after

/-- The message of a cause. -/
def message : Cause → String
  | general message | configuration message | staticCheck message | codegen message
  | noMatch message => message
  | malformed reason text => reason ++ ": " ++ text.display
  | duplicateAttribute label qualifier =>
    label ++ " can only be defined once (offending qualifier: " ++ qualifier ++ ")"
  | unknownQualifier qualifier => "Invalid qualifier: " ++ qualifier
  | missingType fieldText => "No type to check" ++ inField " in field " fieldText ""
  | bitstringPattern pattern =>
    "Bitstring can only be assigned to variables or skipped, got pattern " ++ pattern.display
  | casePattern fields => "Wrong pattern type in bitmatch case: " ++ fields.display
  | unboundName name fieldText _ =>
    "Unbound name " ++ name.display ++ inField " in field " fieldText ""
  | bodySignature parameter caseText =>
    "Case body requires " ++ parameter.display ++ " which case " ++ caseText.display
      ++ " does not bind"
  | lengthRange rule length fieldText =>
    rule ++ ", got " ++ length.display ++ inField " (field " fieldText ")"

/-- The code of a cause. -/
def code : Cause → Code
  | general _ | codegen _ => .codegenFailure
  | configuration _ => .invalidConfig
  | malformed .. => .invalidField
  | duplicateAttribute .. => .duplicateAttribute
  | unknownQualifier _ => .unknownQualifier
  | missingType _ => .missingType
  | bitstringPattern _ => .invalidBitstringPattern
  | casePattern _ => .invalidCasePattern
  | unboundName .. => .unboundName
  | bodySignature .. => .bodySignature
  | staticCheck _ | lengthRange .. => .lengthOutOfRange
  | noMatch _ => .noMatch

/-- The notes that belong to a cause: the names in scope of an unbound one. -/
def notes : Cause → List Note
  | unboundName _ _ (name :: rest) =>
    [⟨"names in scope: " ++ ", ".intercalate ((name :: rest).mergeSort (· ≤ ·)), "note"⟩]
  | _ => []

/-- The hint that belongs to a cause, if it has one. -/
def hint? : Cause → Option String
  | unknownQualifier _ => some vocabularyHint
  | unboundName .. => some bindingHint
  | _ => none

end Cause

/-! ## Diagnostics -/

/-- A cause with its place and all that has been added to it. -/
structure Diagnostic where
  cause : Cause
  code : Code
  span : Span
  notes : List Note
  hint : String
  deriving DecidableEq, Repr

namespace Diagnostic

/-- A cause without a place. -/
def ofCause (cause : Cause) : Diagnostic :=
  ⟨cause, cause.code, {}, cause.notes, cause.hint?.getD ""⟩

/-- The message of a diagnostic is that of its cause. -/
def message (d : Diagnostic) : String :=
  d.cause.message

/-- Puts a place on a diagnostic that has none. -/
def withSpan (d : Diagnostic) (span : Span) : Diagnostic :=
  if d.span.line == 0 then { d with span } else d

/-- Adds a note below the others. -/
def addNote (d : Diagnostic) (message label : String) : Diagnostic :=
  { d with notes := d.notes ++ [⟨message, label⟩] }

/-- Replaces the hint. -/
def withHint (d : Diagnostic) (hint : String) : Diagnostic :=
  { d with hint }

/-- The line of the source, with a caret below the column. -/
def excerpt (span : Span) : List String :=
  if span.text.isEmpty then []
  else ("    " ++ span.text) ::
    (if 0 < span.column then
      ["    " ++ String.ofList (List.replicate (span.column - 1).toNat ' ') ++ "^"]
    else [])

/-- The lines of a diagnostic: place and message, excerpt, notes and hint. -/
def lines (d : Diagnostic) : List String :=
  [d.span.display ++ ": error: " ++ d.message ++ " [" ++ d.code.text ++ "]"]
    ++ excerpt d.span ++ d.notes.map Note.display
    ++ (if d.hint.isEmpty then [] else ["hint: " ++ d.hint])

/-- A diagnostic as text. -/
def text (d : Diagnostic) : String :=
  "\n".intercalate d.lines

/-- A diagnostic as JSON. -/
def json (d : Diagnostic) : Json :=
  .object [
    ("code", .text d.code.text),
    ("message", .text d.message),
    ("location", .object [
      ("file", .text d.span.file),
      ("line", .int d.span.line),
      ("column", .int d.span.column),
      ("text", .text d.span.text)]),
    ("phase", .text d.code.phase.name),
    ("category", .text d.code.category.name),
    ("notes", .array (d.notes.map fun note =>
      .object [("message", .text note.message), ("label", .text note.label)])),
    ("hint", .text d.hint)]

end Diagnostic

end BitPattern.Report
