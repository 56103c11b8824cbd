import BitPattern.Render.Dump
import BitPattern.Report.Diagnostic
import BitPattern.Text.SExpr
import BitPattern.Value.Basic

/-!
# Values for display

The text of a value in messages and as the result of a run.  A value that holds a bitstring without
digits has none.  A message quotes the texts that it mentions and displays all other values; where
it puts a value into a sentence, a text stands there as it is.

A value is no part of a description, so it is no expression and has no notation.  Of the values only
byte orders have a tree, and a sequence has the trees of its members.
-/

namespace BitPattern.Value

open BitPattern.Report BitPattern.Text

mutual

/-- The text of a value. -/
def display : Value → Except Fault String
  | none => .ok "None"
  | int n => .ok (decimal n)
  | bool b => .ok (dumpBool b)
  | text s => .ok (quoted s)
  | bytes .constant b => .ok (quotedBytes b)
  | bytes .mutable b => .ok ("bytearray(" ++ quotedMutable b ++ ")")
  | bytes .view _ => .ok "<memory>"
  | bits b => b.display
  | tuple items => do pure (dumpTuple (← displays items))
  | list items => do pure ("[" ++ ", ".intercalate (← displays items) ++ "]")
  | dict entries => do
    pure ("\x7b" ++ ", ".intercalate (← displayEntries entries) ++ "\x7d")
  | endian e => .ok e.dump
  | builtin f =>
    match f with
    | .int | .bool | .bytes => .ok ("<class '" ++ f.name ++ "'>")
    | _ => .ok ("<built-in function " ++ f.name ++ ">")
  | union types =>
    .ok (" | ".intercalate (types.map fun type => type.elim "None" Builtin.name))
  | probe name => .ok ("<function " ++ name ++ ">")
  | arm index => .ok ("<function _bm_case_" ++ decimal index ++ ">")

/-- The texts of several values. -/
def displays : List Value → Except Fault (List String)
  | [] => .ok []
  | v :: rest => do
    let s ← display v
    let rest ← displays rest
    pure (s :: rest)

/-- The texts of the entries of a dictionary. -/
def displayEntries : List (String × Value) → Except Fault (List String)
  | [] => .ok []
  | (key, v) :: rest => do
    let s ← display v
    let rest ← displayEntries rest
    pure ((quoted key ++ ": " ++ s) :: rest)

end

/-! ## Values in messages -/

/-- A value that a message mentions. -/
def mention (v : Value) : Except Fault Mention :=
  match v with
  | text s => .ok (.text s)
  | _ => Mention.shown <$> v.display

/-- A value in a sentence. -/
def plain (v : Value) : Except Fault String :=
  match v with
  | text s => .ok s
  | endian e => .ok ("Endian." ++ e.member)
  | _ => v.display

/-! ## Values in place of nodes -/

/-- The expression that a value is: there is none. -/
def toExpr (v : Value) : Except Fault Expr :=
  .error (.noNode v.typeName)

/-- The notation of a value: there is none. -/
def toText (v : Value) : Except Fault String :=
  .error (.noNotation v.typeName)

mutual

/-- The trees of a value, one a line. -/
def treeText : Value → Except Fault String
  | endian e => .ok (SExpr.symbol e.name).render
  | tuple items | list items => do pure ("\n".intercalate (← treeTexts items))
  | v => .error (.noTree v.typeName)

/-- The trees of several values. -/
def treeTexts : List Value → Except Fault (List String)
  | [] => .ok []
  | v :: rest => do
    let s ← treeText v
    let rest ← treeTexts rest
    pure (s :: rest)

end

end BitPattern.Value
