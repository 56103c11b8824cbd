import BitPattern.Command.Arguments

/-!
# Requests

What a command line asks for: one of four commands on a match file, or the version.
-/

namespace BitPattern.Command

/-- How parsed cases are dumped. -/
inductive DumpFormat where
  | tree | json | full
  deriving DecidableEq, Repr

/-- How diagnostics are written. -/
inductive ReportFormat where
  | text | json
  deriving DecidableEq, Repr

/-- Where a result goes: to the output stream, or to the file that is named. -/
inductive Output where
  | stream
  | file (name : Operand)
  deriving DecidableEq, Repr

/-- What is done with a match file. -/
inductive Task where
  /-- Dumps the cases. -/
  | parse (format : DumpFormat) (output : Output)
  /-- Reports what is wrong with each case. -/
  | check (defines : List Operand) (format : ReportFormat)
  /-- Writes the listing. -/
  | compile (defines : List Operand) (output : Output)
  /-- Applies the cases to a subject, which is a file or hexadecimal digits. -/
  | run (defines : List Operand) (input : Operand) (hex : Bool)
  deriving DecidableEq, Repr

/-- A task with the match file and the settings that every task has. -/
structure Request where
  verbosity : Nat
  file : Operand
  nativeEndian : Option String
  implicitInt : Bool
  task : Task
  deriving DecidableEq, Repr

/-- What a command line amounts to. -/
inductive Intent where
  | usage
  | version
  | request (r : Request)
  deriving DecidableEq, Repr

/-! ## Switches -/

/-- Asks for help. -/
def helpSwitch : Switch := ⟨["-h", "--help"], false⟩

/-- Asks for the version. -/
def versionSwitch : Switch := ⟨["--version"], false⟩

/-- Asks for more of the log each time it is given. -/
def verboseSwitch : Switch := ⟨["-v", "--verbose"], false⟩

/-- Chooses the native byte order. -/
def nativeSwitch : Switch := ⟨["--native-endian"], true⟩

/-- Leaves qualifiers as they are written. -/
def explicitSwitch : Switch := ⟨["--no-implicit-int"], false⟩

/-- The switches before the command. -/
def mainSwitches : List Switch := [helpSwitch, versionSwitch, verboseSwitch]

/-- The switches of every command. -/
def fileSwitches : List Switch := [helpSwitch, nativeSwitch, explicitSwitch]

/-- Defines a constant. -/
def defineSwitch : Switch := ⟨["-D", "--define"], true⟩

/-- Names the file to write. -/
def outputSwitch : Switch := ⟨["-o", "--output"], true⟩

/-- Chooses a format. -/
def formatSwitch : Switch := ⟨["-f", "--format"], true⟩

/-- Gives the subject as hexadecimal digits. -/
def hexSwitch : Switch := ⟨["--hex"], false⟩

namespace Arguments

/-- The values of a switch, in order. -/
def values (a : Arguments) (s : Switch) : List Operand :=
  (a.given.filter fun g => g.key == s.key).map Given.value

/-- Whether a switch was given. -/
def has (a : Arguments) (s : Switch) : Bool :=
  a.given.any fun g => g.key == s.key

end Arguments

/-- The value that the last of the given choices stands for: `initial` if there is none, and nothing
if one of them is unknown. -/
def chosen? {α : Type} (choice? : Operand → Option α) (initial : α)
    (given : List Operand) : Option α := do
  let choices ← given.mapM choice?
  pure (choices.getLast?.getD initial)

/-- The dump that a format name asks for. -/
def DumpFormat.choice? : Operand → Option DumpFormat
  | some "sexp" => some .tree
  | some "json" => some .json
  | some "repr" | none => some .full
  | some _ => none

/-- The report that a format name asks for. -/
def ReportFormat.choice? : Operand → Option ReportFormat
  | some "gcc" | none => some .text
  | some "json" => some .json
  | some _ => none

/-- A byte order that may be chosen as the native one, or none. -/
def nativeChoice? : Operand → Option (Option String)
  | some "big" => some (some "big")
  | some "little" => some (some "little")
  | none => some none
  | some _ => none

/-- The output that the last of the given names chooses. -/
def Output.ofNames (names : List Operand) : Output :=
  match names.getLast? with
  | none | some (some "-") => .stream
  | some name => .file name

/-! ## Commands -/

/-- A command: its switches, the number of its arguments, and the task that they amount to. -/
structure CommandForm where
  switches : List Switch
  places : Nat
  task : Arguments → List Operand → Option Task

/-- The command of a name. -/
def commandForm? : String → Option CommandForm
  | "parse" => some {
      switches := fileSwitches ++ [formatSwitch, outputSwitch]
      places := 1
      task := fun a _ => do
        let format ← chosen? DumpFormat.choice? .tree (a.values formatSwitch)
        pure (.parse format (.ofNames (a.values outputSwitch))) }
  | "check" => some {
      switches := fileSwitches ++ [defineSwitch, formatSwitch]
      places := 1
      task := fun a _ => do
        let format ← chosen? ReportFormat.choice? .text (a.values formatSwitch)
        pure (.check (a.values defineSwitch) format) }
  | "compile" => some {
      switches := fileSwitches ++ [defineSwitch, outputSwitch]
      places := 1
      task := fun a _ =>
        some (.compile (a.values defineSwitch) (.ofNames (a.values outputSwitch))) }
  | "run" => some {
      switches := fileSwitches ++ [defineSwitch, hexSwitch]
      places := 2
      task := fun a plain => do
        pure (.run (a.values defineSwitch) (← plain[1]?) (a.has hexSwitch)) }
  | _ => none

/-- The request that the arguments of a command make. -/
def requestOf? (verbosity : Nat) (form : CommandForm) (args : List String) : Option Request := do
  let a ← readArguments form.switches [helpSwitch.key] form.places args
  if a.has helpSwitch || a.surplus then none
  let native ← chosen? nativeChoice? none (a.values nativeSwitch)
  let file ← a.plain[0]?
  pure {
    verbosity
    file
    nativeEndian := native
    implicitInt := !a.has explicitSwitch
    task := ← form.task a a.plain }

/-- Whether a token is a switch or looks like one. -/
def Token.isSwitch : Token → Bool
  | .switch .. | .unknown _ => true
  | .plain _ | .mark => false

/-- What a command line amounts to. -/
def Intent.ofArguments (args : List String) : Intent :=
  match tokensOf? mainSwitches args with
  | none => .usage
  | some tokens =>
    -- Switches in front of the name of the command are those of the program.
    let leading := tokens.takeWhile Token.isSwitch
    match readTokens mainSwitches [helpSwitch.key, versionSwitch.key] 0 false {} leading with
    | none => .usage
    | some a =>
      if a.given.getLast?.any (·.key == versionSwitch.key) then .version
      else if a.has helpSwitch || a.surplus then .usage
      else
        let verbosity := (a.values verboseSwitch).length
        match args.drop leading.length with
        | [] => .usage
        | name :: rest =>
          match (commandForm? name).bind fun form => requestOf? verbosity form rest with
          | some r => .request r
          | none => .usage

end BitPattern.Command
