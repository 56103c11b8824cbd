import BitPattern.Field.Basic
import BitPattern.Field.Qualifier
import BitPattern.Grammar.Field
import BitPattern.Grammar.Source
import BitPattern.Report.Diagnostic

/-!
# Parsing

Texts become expressions, patterns, qualifiers, fields and the cases of a match source, or the
diagnostic that says what is wrong and where.  A text that has not the form asked for is reported
at the place where reading got stuck; a literal without value and an unusable alternative are
reported at the start of the text, and a qualifier at the start of its field.
-/

namespace BitPattern

open Grammar Report Text

/-! ## Where a text stands -/

/-- Where a text stands in a source: the file, the source and the offset of the text in it. -/
structure Origin where
  file : String
  source : String
  base : Int

namespace Origin

/-- A text that stands alone. -/
def alone (text : String) : Origin :=
  ⟨"", text, 0⟩

/-- A text with a source of its own unless one is given. -/
def within (file source : String) (base : Int) (text : String) : Origin :=
  ⟨file, if source.isEmpty then text else source, base⟩

/-- The place of an offset into the text. -/
def place (origin : Origin) (offset : Nat) : Span :=
  Span.ofOffset origin.file origin.source (origin.base + offset)

end Origin

/-- What a reader makes of a whole text. -/
def readText {α : Type} (reader : Reader (Denoted α)) (what : String) (code : Code)
    (origin : Origin) (text : String) : Except Diagnostic α :=
  match Reader.readAll reader text.toList with
  | .error offset =>
    .error { Diagnostic.ofCause (.malformed ("Format error in " ++ what) text) with
      code, span := origin.place offset }
  | .ok (.error misfit) =>
    .error ((Diagnostic.ofCause (.malformed misfit.reason misfit.text)).withSpan (origin.place 0))
  | .ok (.ok a) => .ok a

/-! ## Single texts -/

/-- Parses an expression. -/
def Expr.parse (text : String) : Except Diagnostic Expr :=
  let text := strip text
  readText Grammar.expr "expression" .invalidExpression (.alone text) text

/-- Parses a pattern. -/
def Pattern.parse (text : String) : Except Diagnostic Pattern :=
  let text := strip text
  readText Grammar.pattern "pattern" .invalidField (.alone text) text

/-- Parses qualifiers. -/
def Qualifier.parse (text : String) : Except Diagnostic Expr :=
  let text := strip text
  readText Grammar.qualifiers "qualifiers" .invalidField (.alone text) text

/-! ## Fields -/

/-- The specification that qualifiers make, completed from the default one if `implicitInt` asks
for it. -/
def Spec.ofQualifiers (implicitInt : Bool) : Option Expr → Except Cause Spec
  | none => .ok .default
  | some qualifiers => do
    let spec ← Qualifier.resolve .empty qualifiers
    pure (if implicitInt then spec.withDefaults .default else spec)

/-- The field that a written form describes.  `size` is the number of characters of the list. -/
def Field.ofForm (implicitInt : Bool) (origin : Origin) (size : Nat) (form : FieldForm) :
    Except Diagnostic Field :=
  match form.description with
  | none => .ok ⟨.wildcard, none, none, form.text⟩
  | some (pattern, length, qualifiers) =>
    match Spec.ofQualifiers implicitInt qualifiers with
    | .ok spec => .ok ⟨pattern, some length, some spec, form.text⟩
    | .error cause =>
      .error ((Diagnostic.ofCause cause).withSpan (origin.place (size - form.left)))

/-- Parses one field. -/
def Field.parse (implicitInt : Bool) (text : String) : Except Diagnostic Field := do
  let text := strip text
  let form ← readText Grammar.field "field" .invalidField (.alone text) text
  Field.ofForm implicitInt (.alone text) text.length form

/-- Parses a list of fields. -/
def Field.parseList (implicitInt : Bool) (origin : Origin) (text : String) :
    Except Diagnostic (List Field) := do
  let forms ← readText Grammar.fieldList "field list" .invalidField origin text
  forms.mapM (Field.ofForm implicitInt origin text.length)

/-! ## Match sources -/

/-- The case that an arm describes, as the one with the given index. -/
def Case.ofArm (implicitInt : Bool) (file source : String) (index : Nat) (arm : ArmForm) :
    Except Diagnostic Case := do
  let fieldsText := latin arm.fields
  let base := source.length - arm.left
  let fields ← Field.parseList implicitInt ⟨file, source, base⟩ fieldsText
  pure ⟨fieldsText, fields, .expr arm.body, index⟩

/-- The cases that arms describe, numbered on from an index. -/
def Case.ofArms (implicitInt : Bool) (file source : String) (index : Nat) :
    List ArmForm → Except Diagnostic (List Case)
  | [] => .ok []
  | arm :: rest => do
    let c ← Case.ofArm implicitInt file source index arm
    let cases ← Case.ofArms implicitInt file source (index + 1) rest
    pure (c :: cases)

/-- Parses a match source. -/
def Case.parseSource (implicitInt : Bool) (file text : String) : Except Diagnostic (List Case) := do
  let arms ← readText Grammar.source "match source" .invalidField ⟨file, text, 0⟩ text
  Case.ofArms implicitInt file text 0 arms

end BitPattern
