import BitPattern.Bits.Basic
import BitPattern.Command.Path

/-!
# Files

The files that a command can see, and the places that paths start from.  A directory is whatever a
file or the working directory lies in.  Paths are shown from the working directory on where they lie
in it.
-/

namespace BitPattern.Command

/-- Files with their contents, the working directory, and the home directories of users, of which
the nameless one is whoever gives the command. -/
structure Files where
  entries : List (Path × Bytes)
  directory : Path := []
  homes : List (String × Path) := []

/-- What is found at a path. -/
inductive Found where
  | file (contents : Bytes)
  | directory
  | nothing
  /-- The path is too long to be looked up. -/
  | unreachable

namespace Files

/-- The path that a text means: one from the working directory, from the root, or after a tilde from
the home directory of a user.  A user has to be known, and no path holds a NUL character. -/
def resolve? (files : Files) (text : String) : Option Path :=
  if text.toList.contains (Char.ofNat 0) then none
  else if Path.isRooted text then some (Path.follow [] (Path.steps text))
  else
    match Path.steps text with
    | [] => some files.directory
    | step :: rest =>
      match step.toList with
      | '~' :: user =>
        (files.homes.lookup (String.ofList user)).map fun home => Path.follow home rest
      | _ => some (Path.follow files.directory (step :: rest))

/-- A path for display. -/
def shown (files : Files) (path : Path) : String :=
  if files.directory.isPrefixOf path then "/".intercalate (path.drop files.directory.length)
  else Path.absolute path

/-- The contents of a file. -/
def read? (files : Files) (path : Path) : Option Bytes :=
  files.entries.lookup path

/-- Whether a file or the working directory lies in a path. -/
def isDirectory (files : Files) (path : Path) : Bool :=
  path.isPrefixOf files.directory || files.entries.any fun entry => Path.liesIn entry.1 path

/-- Whether a path cannot be looked up: it is too long as a whole, or the first part that no
directory has is. -/
def isTooLong (files : Files) (path : Path) : Bool :=
  Path.maxSize < (Path.absolute path).utf8ByteSize
    || (List.range path.length).any fun n =>
      files.isDirectory (path.take n) && Path.maxPartSize < (path.getD n "").utf8ByteSize

/-- What is found at a path. -/
def find (files : Files) (path : Path) : Found :=
  if files.isTooLong path then .unreachable
  else
    match files.read? path with
    | some contents => .file contents
    | none => if files.isDirectory path then .directory else .nothing

/-- Whether a file can be written at a path: no directory is there, and no file above it. -/
def canWrite (files : Files) (path : Path) : Bool :=
  !files.isTooLong path && !files.isDirectory path
    && !files.entries.any fun entry => Path.liesIn path entry.1

end Files

end BitPattern.Command
