/-!
# Paths

A path is the list of its parts from the root on, and `follow` walks from one to another, `..` being
the way back.  The root has no way back.
-/

namespace BitPattern.Command

/-- The parts of a path from the root on. -/
abbrev Path := List String

namespace Path

/-- The pieces of a text between slashes; `run` holds the current piece backwards. -/
def piecesFrom (run : List Char) : List Char → List String
  | [] => [String.ofList run.reverse]
  | c :: rest =>
    if c == '/' then String.ofList run.reverse :: piecesFrom [] rest else piecesFrom (c :: run) rest

/-- The steps that a text asks for: its pieces between slashes without those that stay in place. -/
def steps (text : String) : List String :=
  (piecesFrom [] text.toList).filter fun piece => piece != "" && piece != "."

/-- Whether a text starts at the root. -/
def isRooted (text : String) : Bool :=
  "/".toList.isPrefixOf text.toList

/-- Where steps lead from a path. -/
def follow (path : Path) (steps : List String) : Path :=
  steps.foldl (fun path step => if step == ".." then path.dropLast else path ++ [step]) path

/-- The last part of a path. -/
def baseName (path : Path) : String :=
  path.getLastD ""

/-- A path written out from the root. -/
def absolute (path : Path) : String :=
  "/" ++ "/".intercalate path

/-- Whether one path leads into another. -/
def liesIn (path directory : Path) : Bool :=
  directory.isPrefixOf path && directory.length < path.length

/-- The most bytes of a part of a path. -/
def maxPartSize : Nat := 255

/-- The most bytes of a path. -/
def maxSize : Nat := 4095

end Path

end BitPattern.Command
