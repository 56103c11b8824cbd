import BitPattern.Text.Blank

/-!
# Places in a source text

A place is a file, a line and a column, both counted from one, and the text of the line.  Line
zero means that nothing is known.  `Span.ofOffset` finds the place of a character offset; an offset
outside the text counts as the nearer end of it.
-/

namespace BitPattern.Report

/-- A place in a source text. -/
structure Span where
  file : String := ""
  line : Int := 0
  column : Int := 0
  text : String := ""
  deriving DecidableEq, Repr

namespace Span

/-- The line, the column and the text of the line of an offset.  The three running values are the
number of the current line, the offset of the place in it, and its characters backwards. -/
def locate (line : Nat) (run : List Char) : Nat → List Char → Nat × Nat × List Char
  | 0, rest => (line, run.length + 1, run.reverse ++ rest.takeWhile (· != '\n'))
  | _ + 1, [] => (line, run.length + 1, run.reverse)
  | n + 1, c :: rest =>
    if c == '\n' then locate (line + 1) [] n rest else locate line (c :: run) n rest

/-- The place of a character offset into a source. -/
def ofOffset (file source : String) (offset : Int) : Span :=
  let (line, column, text) := locate 1 [] offset.toNat source.toList
  ⟨file, line, column, String.ofList text⟩

/-- The place in a report: the parts that are known, joined by colons. -/
def display (span : Span) : String :=
  (if span.file.isEmpty then "<bitmatch>" else span.file)
    ++ (if 0 < span.line then
          ":" ++ toString span.line
            ++ (if 0 < span.column then ":" ++ toString span.column else "")
        else "")

end Span

end BitPattern.Report
