import BitPattern.Text.Blank

/-!
# Emitters

An emitter collects the lines of a listing at the current level of indentation.  A blank line is
never indented.
-/

namespace BitPattern.Plan

open BitPattern.Text

/-- The text so far, the indentation of a level, and the current level. -/
structure Emitter where
  unit : String := "    "
  level : Nat := 0
  text : String := ""
  deriving DecidableEq, Repr

namespace Emitter

/-- The indentation of the current level. -/
def indentation (e : Emitter) : String :=
  String.join (List.replicate e.level e.unit)

/-- Adds a line, which is left empty if the code is blank. -/
def emit (e : Emitter) (code : String) : Emitter :=
  { e with
    text := e.text ++ (if code.toList.all isBlank then "" else e.indentation ++ code) ++ "\n" }

/-- Adds several lines. -/
def emitAll (e : Emitter) (lines : List String) : Emitter :=
  lines.foldl emit e

/-- Adds empty lines. -/
def emitBlank (e : Emitter) (count : Nat) : Emitter :=
  { e with text := e.text ++ String.ofList (List.replicate count '\n') }

/-- Adds a comment, line by line. -/
def emitComment (e : Emitter) (comment : String) : Emitter :=
  e.emitAll ((splitLines comment).map ("# " ++ ·))

/-- Moves one level in. -/
def indent (e : Emitter) : Emitter :=
  { e with level := e.level + 1 }

/-- Moves one level out, if there is one. -/
def dedent (e : Emitter) : Emitter :=
  { e with level := e.level - 1 }

/-- Adds the header of a block and moves into it. -/
def openBlock (e : Emitter) (header : String) : Emitter :=
  (e.emit header).indent

end Emitter

end BitPattern.Plan
