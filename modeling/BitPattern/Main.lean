import BitPattern.Command.Execute

/-!
# The command line

Looks up the files that the arguments name, answers the command line, and writes what the answer
holds: both streams, the files, and the exit status.
-/

namespace BitPattern.Command

/-- What stands at the path that an argument may mean: a file with its contents, or a directory with
a nameless file in it. -/
def entriesAt (files : Files) (arg : String) : IO (List (Path × Bytes)) := do
  match files.resolve? arg with
  | none => pure []
  | some path =>
    try
      let data ← IO.FS.readBinFile path.absolute
      pure [(path, data.toList)]
    catch _ =>
      try
        let _ ← IO.FS.realPath path.absolute
        pure [(path ++ [""], [])]
      catch _ => pure []

/-- The working directory and the home directory of whoever gives the command, with nothing in
them. -/
def surroundings : IO Files := do
  let directory ← IO.currentDir
  let home ← IO.getEnv "HOME"
  pure {
    entries := []
    directory := Path.steps directory.toString
    homes := home.toList.map fun home => ("", Path.steps home) }

/-- Writes a file, and the directories above it. -/
def writeEntry (path : Path) (text : String) : IO Unit := do
  IO.FS.createDirAll (Path.absolute path.dropLast)
  IO.FS.writeFile path.absolute text

end BitPattern.Command

open BitPattern.Command in
/-- Answers the command line. -/
def main (args : List String) : IO UInt32 := do
  let files ← surroundings
  let entries ← args.mapM (entriesAt files)
  let (status, console) := answer { files with entries := entries.flatten } args
  IO.print console.out
  IO.eprint console.err
  try
    for (path, text) in console.written do
      writeEntry path text
    pure (UInt32.ofNat status.code)
  catch _ =>
    let failed : Console := { verbosity := 0 }
    IO.eprint failed.unexpected.2.err
    pure (UInt32.ofNat Status.unusable.code)
