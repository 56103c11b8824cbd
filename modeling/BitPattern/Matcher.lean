import BitPattern.Case
import BitPattern.Dispatch
import BitPattern.Log
import BitPattern.Plan.Run

/-!
# Matchers

A matcher is made once from a list of cases, an environment and a configuration, and then applied to
any number of subjects.  Making it finds every fault of the description.  Applying it tries the
cases in order.
-/

namespace BitPattern

open BitPattern.Report BitPattern.Text Plan

/-- Cases with their plans and everything that running them needs. -/
structure Matcher where
  config : Config
  cases : List Case
  plans : List CasePlan
  globals : List (String × Value)

namespace Matcher

/-! ## Making a matcher -/

/-- Refuses a listing that cannot be loaded: one with a NUL character in it or in its name, and one
that assigns to a constant. -/
def checkLoadable (config : Config) (plans : List CasePlan) : Except Fault Unit :=
  if (config.filename ++ moduleText plans).toList.contains (Char.ofNat 0) then .error .value
  else if plans.any (·.locals.contains constantName) then .error .unloadable
  else .ok ()

/-- The name under which a listing keeps the tuple of its functions. -/
def casesName : String := "_BM_CASES"

/-- What names stand for that are no locals: the environment first, and last the functions of
expressions.  The listing itself names the tuple of its functions. -/
def globalsOf (plans : List CasePlan) (env : List (String × Value)) : List (String × Value) :=
  (casesName, .tuple (plans.map fun plan => .arm plan.index)) :: env ++ expressionNames

/-- Refuses a configuration with problems. -/
def checkConfig (config : Config) : Except Failure Unit :=
  if config.problems.isEmpty then .ok ()
  else .error (.refused (.ofCause (.configuration
    ("Invalid match config: " ++ "; ".intercalate config.problems))))

/-- A case as the one with the given index. -/
def renumber (index : Nat) : List Case → List Case
  | [] => []
  | c :: rest => { c with index } :: renumber (index + 1) rest

/-- The context in which cases are planned. -/
def context (config : Config) (env : List (String × Value)) : Context :=
  ⟨config, env.map Prod.fst⟩

/-- The matcher of cases that are numbered, under a configuration without problems. -/
def ofNumbered (config : Config) (env : List (String × Value)) (cases : List Case) :
    Except Failure Matcher :=
  match planCases (context config env) cases with
  | .error cause => .error (.refused (.ofCause cause))
  | .ok plans =>
    match checkLoadable config plans with
    | .error f => .error (.fault f)
    | .ok _ => .ok ⟨config, cases, plans, globalsOf plans env⟩

/-- The matcher of cases that are parsed. -/
def ofCases (config : Config) (env : List (String × Value)) (cases : List Case) :
    Except Failure Matcher := do
  checkConfig config
  ofNumbered config env (renumber 0 cases)

/-- The matcher of cases as a caller gives them. -/
def ofInputs (config : Config) (env : List (String × Value)) (inputs : List CaseInput) :
    Except Failure Matcher := do
  checkConfig config
  ofNumbered config env (← Case.ofInputs config.implicitInt 0 inputs)

/-- The cases of a match source. -/
def parseSource (config : Config) (file text : String) : Except Failure (List Case) :=
  match Case.parseSource config.implicitInt file text with
  | .error d => .error (.refused d)
  | .ok cases => .ok cases

/-- The matcher of a match source. -/
def ofSource (config : Config) (env : List (String × Value)) (file text : String) :
    Except Failure Matcher := do
  ofCases config env (← parseSource config file text)

/-! ## Views -/

/-- The listing of a matcher. -/
def listing (m : Matcher) : String :=
  moduleText m.plans

/-- The number of cases. -/
def size (m : Matcher) : Nat :=
  m.cases.length

/-- A matcher for display: the texts of the fields of its cases. -/
def display (m : Matcher) : String :=
  "Matcher([" ++ ", ".intercalate (m.cases.map fun c => quoted c.fieldsText) ++ "])"

/-- The warnings that came up while the matcher was made. -/
def warnings (m : Matcher) : List String :=
  (m.cases.flatMap Log.ignoredFields).map Entry.message

/-! ## Applying a matcher -/

/-- The functions of the cases. -/
def functions (m : Matcher) : List (Bitstring → Run (Option Value)) :=
  m.plans.map fun plan subject => plan.run m.globals subject

/-- Tries the cases on a subject. -/
def tryMatch (m : Matcher) (subject : Value) : Run (MatchResult Value) := do
  let bits ← Run.ofExcept subject.subject
  dispatch m.functions bits

/-- The diagnostic for a subject that no case accepts. -/
def noMatch : Diagnostic :=
  .ofCause (.noMatch "no case matched the subject")

/-- The value of the first case that accepts a subject. -/
def apply (m : Matcher) (subject : Value) : Run (Except Failure Value) := do
  let r ← m.tryMatch subject
  pure (match r.found with
    | some (_, v) => .ok v
    | none => .error (.refused noMatch))

end Matcher

end BitPattern
