import BitPattern.Plan.Build
import BitPattern.Plan.Listing
import BitPattern.Grammar.Parse
import BitPattern.Expr.Basic

/-!
# Logs

What is worth saying while descriptions are parsed and planned: at level `debug` every text that is
parsed, every length that is accepted or left to the run, and the listing; at level `warning` the
fields that a lone wildcard leaves without effect.  A log goes as far as the work does, up to the
first fault.
-/

namespace BitPattern

open BitPattern.Report BitPattern.Text

/-- The importance of an entry. -/
inductive Level where
  | debug | info | warning | error
  deriving DecidableEq, Repr

namespace Level

/-- The rank of a level. -/
def rank : Level → Nat
  | debug => 0
  | info => 1
  | warning => 2
  | error => 3

/-- The name of a level, in five columns. -/
def tag : Level → String
  | debug => "DEBUG"
  | info => "INFO "
  | warning => "WARNI"
  | error => "ERROR"

end Level

/-- An entry of a log: its level, the part of the program it comes from, and the message. -/
structure Entry where
  level : Level
  channel : String
  message : String
  deriving DecidableEq, Repr

/-- The entry as a line. -/
def Entry.display (entry : Entry) : String :=
  "[" ++ entry.level.tag ++ "] " ++ entry.channel ++ ": " ++ entry.message

namespace Log

/-! ## Parsing -/

/-- The entry for a text that has been parsed. -/
def parsed (text rule : String) : Entry :=
  ⟨.debug, "bitmatch.grammar", "parsed " ++ quoted text ++ " as " ++ rule⟩

/-- The log of parsing a list of fields. -/
def fieldList (text : String) : List Entry :=
  match Grammar.Reader.readAll Grammar.fieldList text.toList with
  | .ok (.ok _) => [parsed text "field_list"]
  | _ => []

/-- The log of parsing the arms of a source, numbered on from an index. -/
def arms (implicitInt : Bool) (file source : String) (index : Nat) :
    List Grammar.ArmForm → List Entry
  | [] =>
    [⟨.debug, "bitmatch.parser", "parsed " ++ Nat.repr index ++ " case(s) from "
      ++ (if file.isEmpty then "<string>" else file)⟩]
  | arm :: rest =>
    fieldList (latin arm.fields) ++
      (match Case.ofArm implicitInt file source index arm with
      | .ok _ => arms implicitInt file source (index + 1) rest
      | .error _ => [])

/-- The log of parsing a match source. -/
def source (implicitInt : Bool) (file text : String) : List Entry :=
  match Grammar.Reader.readAll Grammar.source text.toList with
  | .ok (.ok forms) => parsed text "match_source" :: arms implicitInt file text 0 forms
  | _ => []

/-! ## Planning -/

open Plan

/-- The log of planning a field. -/
def field (f : Field) : List Entry :=
  match f.length, f.spec.bind Spec.valueType with
  | some length, some type =>
    match length.fold? with
    | some n =>
      if type.admits n then
        [⟨.debug, "bitmatch.semantic",
          type.name ++ " field length " ++ decimal n ++ " accepted"⟩]
      else []
    | none =>
      match checkPattern type none f with
      | .ok _ =>
        [⟨.debug, "bitmatch.codegen", quoted f.text ++ ": length depends on "
          ++ ", ".intercalate length.freeNames⟩]
      | .error _ => []
  | _, _ => []

/-- The log of planning fields. -/
def fields (ctx : Context) (scope : Scope) : List Field → List Entry
  | [] => []
  | f :: rest =>
    field f ++ (match planField ctx scope f with
      | .ok (_, scope) => fields ctx scope rest
      | .error _ => [])

/-- The warning about fields that have no effect. -/
def ignoredFields (c : Case) : List Entry :=
  if ignoresFields c then
    [⟨.warning, "bitmatch.codegen", "case " ++ decimal c.index ++ " " ++ quoted c.fieldsText
      ++ ": fields after '_' are ignored"⟩]
  else []

/-- The log of planning cases. -/
def cases (ctx : Context) : List Case → List Entry
  | [] => []
  | c :: rest =>
    ignoredFields c ++ fields ctx [] (effectiveFields c) ++
      (match planCase ctx c with
      | .ok _ => cases ctx rest
      | .error _ => [])

/-- The log of planning cases and writing their listing. -/
def planning (ctx : Context) (cs : List Case) : List Entry :=
  match checkEnv ctx.env with
  | .error _ => []
  | .ok _ =>
    cases ctx cs ++ (match planCases ctx cs with
      | .ok plans =>
        [⟨.debug, "bitmatch.codegen", "generated matcher:\n" ++ moduleText plans⟩]
      | .error _ => [])

end Log

end BitPattern
