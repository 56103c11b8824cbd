import BitPattern.Command.Files
import BitPattern.Command.Request
import BitPattern.Matcher
import BitPattern.Render.Tree
import BitPattern.Text.Numeral

/-!
# Executing requests

A request is executed on the files that there are.  The answer is an exit status, what goes to the
two output streams, and the files that are written.  Log entries go to the error stream, as many as
the verbosity asks for.
-/

namespace BitPattern.Command

open BitPattern.Report BitPattern.Text

/-! ## Answers -/

/-- The statuses with which a command ends. -/
inductive Status where
  | success
  /-- Diagnostics were written. -/
  | diagnosed
  /-- A file or an argument is unusable. -/
  | unusable
  /-- No case accepts the subject. -/
  | unmatched
  deriving DecidableEq, Repr

/-- The number of a status. -/
def Status.code : Status → Nat
  | success => 0
  | diagnosed => 1
  | unusable => 2
  | unmatched => 3

/-- What a command has written so far. -/
structure Console where
  verbosity : Nat
  out : String := ""
  err : String := ""
  written : List (Path × String) := []
  deriving DecidableEq, Repr

namespace Console

/-- The least level that is logged. -/
def threshold (c : Console) : Level :=
  if c.verbosity = 0 then .warning else if c.verbosity = 1 then .info else .debug

/-- Adds an entry to the log if its level is high enough. -/
def log (c : Console) (entry : Entry) : Console :=
  if c.threshold.rank ≤ entry.level.rank then
    { c with err := c.err ++ entry.display ++ "\n" }
  else c

/-- Adds several entries to the log. -/
def logAll (c : Console) (entries : List Entry) : Console :=
  entries.foldl log c

/-- Adds an entry of the command itself. -/
def say (c : Console) (level : Level) (message : String) : Console :=
  c.log ⟨level, "bitmatch", message⟩

/-- Writes to the output stream. -/
def print (c : Console) (text : String) : Console :=
  { c with out := c.out ++ text }

/-- Writes to the error stream. -/
def warn (c : Console) (text : String) : Console :=
  { c with err := c.err ++ text }

/-- Writes a file. -/
def writeFile (c : Console) (path : Path) (text : String) : Console :=
  { c with written := c.written ++ [(path, text)] }

/-- Ends with an entry that says why the request cannot be met. -/
def refuse (c : Console) (message : String) : Status × Console :=
  (.unusable, c.say .error message)

/-- Ends with an entry that says that something went wrong. -/
def unexpected (c : Console) : Status × Console :=
  c.refuse "Unexpected error"

/-- Ends with a diagnostic on the error stream. -/
def diagnose (c : Console) (d : Diagnostic) : Status × Console :=
  (.diagnosed, c.warn (d.text ++ "\n"))

/-- Ends with the diagnostic of a refused description, or with whatever else went wrong. -/
def fail (c : Console) : Failure → Status × Console
  | .refused d => c.diagnose d
  | .fault _ => c.unexpected

end Console

/-! ## Inputs -/

/-- Why a request cannot be met: for a reason that is said, or because something went wrong. -/
inductive Refusal where
  | said (message : String)
  | unexpected
  deriving DecidableEq

/-- Ends with a refusal. -/
def Console.decline (c : Console) : Refusal → Status × Console
  | .said message => c.refuse message
  | .unexpected => c.unexpected

/-- The path of something that has to exist. -/
def existing (files : Files) (label : String) (name : Operand) : Except Refusal Path :=
  match name.bind files.resolve? with
  | none => .error .unexpected
  | some path =>
    match files.find path with
    | .file _ | .directory => .ok path
    | .nothing => .error (.said (label ++ " not found: " ++ files.shown path))
    | .unreachable => .error .unexpected

/-- The text of a match file, if it is a file and in UTF-8. -/
def sourceText? (files : Files) (path : Path) : Option String := do
  let bytes ← files.read? path
  let text ← String.fromUTF8? (ByteArray.mk bytes.toArray)
  pure (String.ofList (unifyNewlines text.toList))

/-- Sets a name in an environment; one that is set keeps its place. -/
def define (env : List (String × Value)) (name : String) (n : Int) : List (String × Value) :=
  if (env.lookup name).isSome then
    env.map fun entry => if entry.1 == name then (name, .int n) else entry
  else env ++ [(name, .int n)]

/-- Adds a definition `NAME=INT` to an environment, or says what is wrong with it. -/
def addDefine (env : List (String × Value)) (item : String) :
    Except Refusal (List (String × Value)) :=
  let (name, rest) := item.toList.span (· != '=')
  match name, rest with
  | _ :: _, _ :: value =>
    let value := String.ofList value
    match integer? 0 value with
    | some n => .ok (define env (String.ofList name) n)
    | none => .error (.said
        ("define " ++ String.ofList name ++ ": " ++ quoted value ++ " is not an integer"))
  | _, _ => .error (.said ("bad define " ++ quoted item ++ ", expected NAME=INT"))

/-- The environment of some definitions. -/
def defineAll (items : List Operand) : Except Refusal (List (String × Value)) :=
  items.foldlM (fun env item => item.elim (.error .unexpected) (addDefine env)) []

/-- The bytes of a subject: hexadecimal digits, or a file. -/
def readSubject (files : Files) (input : Operand) (hex : Bool) : Except Refusal Bytes :=
  match hex, input with
  | true, some digits =>
    match hexBytes? digits.toList with
    | some b => .ok b
    | none => .error (.said ("not hex input: " ++ quoted digits))
  | true, none => .error .unexpected
  | false, _ => do
    let path ← existing files "input" input
    match files.read? path with
    | some b => .ok b
    | none => .error .unexpected

/-! ## Tasks -/

/-- What a task works on: its match file and how it is compiled. -/
structure Job where
  files : Files
  path : Path
  config : Config

/-- The match file for display. -/
def Job.name (job : Job) : String :=
  job.files.shown job.path

/-- The log of parsing the match file. -/
def Job.parseLog (job : Job) (text : String) : List Entry :=
  Log.source job.config.implicitInt job.name text

/-- The cases of the match file. -/
def Job.cases (job : Job) (text : String) : Except Diagnostic (List Case) :=
  Case.parseSource job.config.implicitInt job.name text

/-- The member of a JSON dump for a case. -/
def caseJson (c : Case) : Json :=
  .object [
    ("index", .int c.index),
    ("fields", .text c.fieldsText),
    ("sexp", .text c.tree.render)]

/-- The dump of cases. -/
def dumpCases (cases : List Case) : DumpFormat → String
  | .tree => treeText cases ++ "\n"
  | .json => (Json.array (cases.map caseJson)).pretty 0 ++ "\n"
  | .full => String.join (cases.map fun c => c.dump ++ "\n")

/-- Writes a text to the output, if it can be written to. -/
def deliver (job : Job) (c : Console) (output : Output) (text : String) : Option Console :=
  match output with
  | .stream => some (c.print text)
  | .file name => do
    let path ← (← name) |> job.files.resolve?
    if job.files.canWrite path then some (c.writeFile path text) else none

/-- Dumps the cases of the match file. -/
def runParse (job : Job) (c : Console) (format : DumpFormat) (output : Output) :
    Status × Console :=
  match sourceText? job.files job.path with
  | none => c.unexpected
  | some text =>
    let c := c.logAll (job.parseLog text)
    match job.cases text with
    | .error d => c.diagnose d
    | .ok cases =>
      match deliver job c output (dumpCases cases format) with
      | some c => (.success, c)
      | none => c.unexpected

/-- A diagnostic in a format, as a line or several. -/
def reportText (d : Diagnostic) : ReportFormat → String
  | .text => d.text ++ "\n"
  | .json => d.json.line ++ "\n"

/-- The offset of the first place where one text stands in another. -/
def findFrom (offset : Nat) (needle : List Char) : List Char → Option Nat
  | [] => if needle.isEmpty then some offset else none
  | c :: rest =>
    if needle.isPrefixOf (c :: rest) then some offset else findFrom (offset + 1) needle rest

/-- Why a case cannot be compiled by itself, at the first place where the text of its fields stands
in the source. -/
def checkCase (job : Job) (ctx : Plan.Context) (text : String) (case : Case) :
    Option Diagnostic :=
  match Plan.planCases ctx [case] with
  | .ok _ => none
  | .error cause =>
    let offset := (findFrom 0 case.fieldsText.toList text.toList).getD 0
    some ((Diagnostic.ofCause cause).withSpan (Span.ofOffset job.name text offset))

/-- Reports what is wrong with each case of the match file. -/
def runCheck (job : Job) (c : Console) (defines : List Operand) (format : ReportFormat) :
    Status × Console :=
  match defineAll defines with
  | .error refusal => c.decline refusal
  | .ok env =>
    match sourceText? job.files job.path with
    | none => c.unexpected
    | some text =>
      let c := c.logAll (job.parseLog text)
      match job.cases text with
      | .error d => (.diagnosed, c.print (reportText d format))
      | .ok cases =>
        let ctx := Matcher.context job.config env
        -- Every case is compiled as a list of its own.
        let c := c.logAll (cases.flatMap fun case => Log.planning ctx [case])
        let found := cases.filterMap (checkCase job ctx text)
        let c := c.print (String.join (found.map fun d => reportText d format))
        let c := c.say .info (Path.baseName job.path ++ ": " ++ Nat.repr cases.length
          ++ " case(s), " ++ Nat.repr found.length ++ " error(s)")
        (if found.isEmpty then .success else .diagnosed, c)

/-- Writes the listing of the match file.  The environment is looked at before the match file. -/
def runCompile (job : Job) (c : Console) (defines : List Operand) (output : Output) :
    Status × Console :=
  match defineAll defines with
  | .error refusal => c.decline refusal
  | .ok env =>
    let ctx := Matcher.context job.config env
    match Plan.checkEnv ctx.env with
    | .error cause => c.diagnose (.ofCause cause)
    | .ok _ =>
      match sourceText? job.files job.path with
      | none => c.unexpected
      | some text =>
        let c := c.logAll (job.parseLog text)
        match job.cases text with
        | .error d => c.diagnose d
        | .ok cases =>
          let c := c.logAll (Log.planning ctx cases)
          match Plan.planCases ctx cases with
          | .error cause => c.diagnose (.ofCause cause)
          | .ok plans =>
            match deliver job c output (Plan.moduleText plans) with
            | none => c.unexpected
            | some c =>
              (.success, c.say .info ("Compiled " ++ job.name ++ " (" ++ Nat.repr plans.length
                ++ " case(s))"))

/-- Tries the cases of a matcher on bytes. -/
def applyTo (m : Matcher) (c : Console) (subject : Bytes) : Status × Console :=
  match (m.tryMatch (.ofBytes subject)).result with
  | .error _ => c.unexpected
  | .ok r =>
    match r.found with
    | none =>
      (.unmatched, c.say .warning ("no case matched " ++ Nat.repr subject.length
        ++ " byte(s) of input"))
    | some (index, v) =>
      let c := c.say .info ("case " ++ Nat.repr index ++ " matched")
      match v.display with
      | .ok shown => (.success, c.print (shown ++ "\n"))
      | .error _ => c.unexpected

/-- Applies the match file to a subject. -/
def runRun (job : Job) (c : Console) (defines : List Operand) (input : Operand) (hex : Bool) :
    Status × Console :=
  match defineAll defines with
  | .error refusal => c.decline refusal
  | .ok env =>
    -- The subject is read before the match file.
    match readSubject job.files input hex with
    | .error refusal => c.decline refusal
    | .ok subject =>
      match sourceText? job.files job.path with
      | none => c.unexpected
      | some text =>
        let c := c.logAll (job.parseLog text)
        match job.cases text with
        | .error d => c.diagnose d
        | .ok cases =>
          let c := c.logAll (Log.planning (Matcher.context job.config env) cases)
          match Matcher.ofCases job.config env cases with
          | .error failure => c.fail failure
          | .ok m =>
            let c := c.log ⟨.info, "bitmatch.matcher", "compiled " ++ Nat.repr m.size
              ++ " case(s)"⟩
            applyTo m c subject

/-! ## Command lines -/

/-- Executes a request. -/
def execute (files : Files) (r : Request) : Status × Console :=
  let c : Console := { verbosity := r.verbosity }
  match existing files "match file" r.file with
  | .error refusal => c.decline refusal
  | .ok path =>
    let base : Config := {}
    let job : Job := ⟨files, path, {
      nativeEndian := r.nativeEndian.getD base.nativeEndian
      implicitInt := r.implicitInt
      filename := files.shown path }⟩
    match r.task with
    | .parse format output => runParse job c format output
    | .check defines format => runCheck job c defines format
    | .compile defines output => runCompile job c defines output
    | .run defines input hex => runRun job c defines input hex

/-- The version of the program. -/
def version : String := "bitmatch 0.1.0"

/-- Answers a command line. -/
def answer (files : Files) (args : List String) : Status × Console :=
  match Intent.ofArguments args with
  | .usage => (.unusable, ({ verbosity := 0 } : Console).warn "usage")
  | .version => (.success, ({ verbosity := 0 } : Console).print (version ++ "\n"))
  | .request r => execute files r

end BitPattern.Command
