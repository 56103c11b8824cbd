import BitPattern.Proofs.Command.Check
import BitPattern.Proofs.Field.Qualifier
import BitPattern.Proofs.Plan.Numbering

/-!
# What a check accepts and what can be compiled

A check plans each case of a file by itself and reports all that it finds; a compilation plans the
cases together and stops at the first fault.  Planning a list is planning each of its cases, so both
come to the same result where there is a case at all, and the fault of the compilation is the first
one that the check finds (`check_agrees_compile`).

They differ in two ways.  A file without cases passes every check, though it cannot be compiled.
And a compilation looks at the names of the environment before the file, a check behind it, so a
file that cannot be parsed under an unusable name is refused for one reason or the other.
-/

namespace BitPattern.Command

open BitPattern.Report BitPattern.Text Plan

/-! ## Outputs that can be written -/

/-- The output stream, or a file that can be written. -/
def Output.Writable (files : Files) : Output → Prop
  | .stream => True
  | .file name => ∃ path, name.bind files.resolve? = some path ∧ files.canWrite path = true

lemma Output.writable_stream (files : Files) : Output.stream.Writable files :=
  trivial

lemma exists_deliver {job : Job} {output : Output} (h : output.Writable job.files) (c : Console)
    (text : String) : ∃ c', deliver job c output text = some c' := by
  cases output with
  | stream => exact ⟨_, rfl⟩
  | file name =>
      obtain ⟨path, hpath, hwrite⟩ := h
      obtain ⟨name, rfl, hname⟩ := Option.bind_eq_some_iff.mp hpath
      simp [deliver, hname, hwrite]

/-! ## Reports and refusals -/

/-- Everything that a check reports about a file. -/
def Job.reports (job : Job) (env : List (String × Value)) (text : String) : List Diagnostic :=
  match job.cases text with
  | .error d => [d]
  | .ok cases => job.findings env text cases

/-- Why a file cannot be compiled. -/
def Job.refusal? (job : Job) (env : List (String × Value)) (text : String) : Option Diagnostic :=
  match checkEnv (Matcher.context job.config env).env with
  | .error cause => some (.ofCause cause)
  | .ok _ =>
    match job.cases text with
    | .error d => some d
    | .ok cases =>
      match planCases (Matcher.context job.config env) cases with
      | .error cause => some (.ofCause cause)
      | .ok _ => none

section Commands

variable {job : Job} {c : Console} {defines : List Operand} {env : List (String × Value)}
  {text : String} {output : Output}

/-- A check ends well if it has nothing to report, and writes the rest. -/
lemma runCheck_eq (henv : defineAll defines = .ok env)
    (htext : sourceText? job.files job.path = some text) (format : ReportFormat) :
    ((runCheck job c defines format).1 = .success ↔ job.reports env text = []) ∧
      (runCheck job c defines format).2.out =
        c.out ++ String.join ((job.reports env text).map (reportText · format)) := by
  cases hcases : job.cases text with
  | error d => simp [runCheck, henv, htext, Job.reports, hcases, Console.print, String.join]
  | ok cases =>
      obtain ⟨hstatus, hout⟩ := runCheck_of_cases henv htext hcases c format
      rw [hstatus, hout, Job.reports, hcases]
      simp

/-- A compilation ends well, or with the reason against it on the error stream. -/
lemma runCompile_eq (henv : defineAll defines = .ok env)
    (htext : sourceText? job.files job.path = some text) (hwritable : output.Writable job.files) :
    ((runCompile job c defines output).1 = .success ↔ job.refusal? env text = none) ∧
      ∀ e, job.refusal? env text = some e →
        ∃ entries, runCompile job c defines output = (c.logAll entries).diagnose e := by
  -- Both halves follow from what the run is, whatever the reason.
  have hrefused {e : Diagnostic} {entries : List Entry} (he : job.refusal? env text = some e)
      (hrun : runCompile job c defines output = (c.logAll entries).diagnose e) :
      ((runCompile job c defines output).1 = .success ↔ job.refusal? env text = none) ∧
        ∀ e, job.refusal? env text = some e →
          ∃ entries, runCompile job c defines output = (c.logAll entries).diagnose e := by
    refine ⟨by simp [he, hrun, Console.diagnose], fun e' he' => ?_⟩
    cases he.symm.trans he'
    exact ⟨entries, hrun⟩
  cases hnames : checkEnv (Matcher.context job.config env).env with
  | error cause =>
      have hrun : runCompile job c defines output = (c.logAll []).diagnose (.ofCause cause) := by
        simp only [runCompile, henv, hnames]
        rfl
      exact hrefused (by simp only [Job.refusal?, hnames]) hrun
  | ok _ =>
      cases hcases : job.cases text with
      | error d =>
          have hrun : runCompile job c defines output =
              (c.logAll (job.parseLog text)).diagnose d := by
            simp only [runCompile, henv, hnames, htext, hcases]
          exact hrefused (by simp only [Job.refusal?, hnames, hcases]) hrun
      | ok cases =>
          cases hplans : planCases (Matcher.context job.config env) cases with
          | error cause =>
              have hrun : runCompile job c defines output = (c.logAll (job.parseLog text ++
                  Log.planning (Matcher.context job.config env) cases)).diagnose
                    (.ofCause cause) := by
                simp only [runCompile, henv, hnames, htext, hcases, hplans, Console.logAll,
                  List.foldl_append]
              exact hrefused (by simp only [Job.refusal?, hnames, hcases, hplans]) hrun
          | ok plans =>
              -- Nothing is against it, and a target that can be written to takes the listing.
              obtain ⟨c', hwritten⟩ := exists_deliver hwritable
                ((c.logAll (job.parseLog text)).logAll
                  (Log.planning (Matcher.context job.config env) cases)) (moduleText plans)
              simp [runCompile, henv, hnames, htext, hcases, hplans, Job.refusal?, hwritten]

end Commands

/-! ## The first report -/

/-- Two diagnostics say the same about something, wherever they point. -/
def SameFault (d e : Diagnostic) : Prop :=
  d.code = e.code ∧ d.message = e.message

/-- A check of cases finds nothing if each of them can be planned, and else what is wrong with the
first one that cannot before all else. -/
lemma findings_eq (job : Job) (env : List (String × Value)) (text : String) (cases : List Case) :
    (job.findings env text cases = [] ∧
        ∃ plans, cases.mapM (fun c => planCases (Matcher.context job.config env) [c]) = .ok plans) ∨
      ∃ first rest cause, job.findings env text cases = first :: rest ∧
        cases.mapM (fun c => planCases (Matcher.context job.config env) [c]) = .error cause ∧
          SameFault (.ofCause cause) first := by
  induction cases with
  | nil => exact .inl ⟨rfl, [], rfl⟩
  | cons c cases ih =>
      rw [List.mapM_cons, Job.findings, List.filterMap_cons, ← Job.findings, checkCase]
      cases hplan : planCases (Matcher.context job.config env) [c] with
      | error cause => exact .inr ⟨_, _, cause, rfl, rfl, rfl, rfl⟩
      | ok plan =>
          rcases ih with ⟨hnone, plans, hplans⟩ | ⟨first, rest, cause, hfirst, hcause, hsame⟩
          · exact .inl ⟨hnone, plan :: plans, by rw [hplans]; rfl⟩
          · exact .inr ⟨first, rest, cause, hfirst, by rw [hcause]; rfl, hsame⟩

/-- A plan of some cases fails where one of them does by itself. -/
lemma planCases_findings (job : Job) {env : List (String × Value)} {text : String}
    {cases : List Case} (hne : cases ≠ []) :
    (job.findings env text cases = [] ∧
        ∃ plans, planCases (Matcher.context job.config env) cases = .ok plans) ∨
      ∃ first rest cause, job.findings env text cases = first :: rest ∧
        planCases (Matcher.context job.config env) cases = .error cause ∧
          SameFault (.ofCause cause) first := by
  rw [planCases_eq_flatten hne]
  rcases findings_eq job env text cases with ⟨hnone, plans, hplans⟩ |
    ⟨first, rest, cause, hfirst, hcause, hsame⟩
  · exact .inl ⟨hnone, plans.flatten, by rw [hplans]; rfl⟩
  · exact .inr ⟨first, rest, cause, hfirst, by rw [hcause]; rfl, hsame⟩

/-! ## Codes -/

lemma code_of_fieldFault {text : String} {k : Nat} {cause : Cause}
    (h : Grammar.FieldFault text k cause) : cause.code ≠ .invalidConfig := by
  cases h with
  | malformed => simp [Cause.code]
  | misfit => simp [Cause.code]
  | qualifiers _ _ _ hcause =>
      rw [Qualifier.resolve_eq_foldlM] at hcause
      obtain ⟨_, _, _, _, _, -, -, -, hoffends⟩ := Qualifier.foldlM_write_eq_error.mp hcause
      cases hoffends <;> simp [Cause.code]

/-- No match source is refused as a configuration. -/
lemma code_of_parseSource {implicitInt : Bool} {file text : String} {d : Diagnostic}
    (h : Case.parseSource implicitInt file text = .error d) : d.code ≠ .invalidConfig := by
  rcases result_bind_eq_error.mp h with hread | ⟨arms, -, harms⟩
  · rw [readText] at hread
    split at hread <;> cases hread <;> simp [Diagnostic.withSpan, Diagnostic.ofCause, Cause.code]
  · obtain ⟨_, a, _, _, -, -, ha⟩ := Case.ofArms_eq_error harms
    obtain ⟨k, cause, hfault, rfl⟩ := Field.parseList_eq_error.mp (Case.ofArm_eq_error.mp ha)
    exact code_of_fieldFault hfault

/-! ## Both commands -/

/-- Parsed cases cannot be compiled where they cannot be planned. -/
lemma refusal?_of_cases {job : Job} {env : List (String × Value)} {text : String}
    {cases : List Case} (hcases : job.cases text = .ok cases) :
    job.refusal? env text =
      match planCases (Matcher.context job.config env) cases with
      | .error cause => some (.ofCause cause)
      | .ok _ => none := by
  cases hnames : checkEnv (Matcher.context job.config env).env with
  | error cause =>
      have hplans : planCases (Matcher.context job.config env) cases = .error cause := by
        rw [planCases, hnames]
        rfl
      simp only [Job.refusal?, hnames, hplans]
  | ok _ => simp only [Job.refusal?, hnames, hcases]

/-- Where the first report and the reason against a compilation are the same. -/
lemma reports_refusal? (job : Job) (env : List (String × Value)) (text : String) :
    (job.reports env text = [] ∧
        (job.refusal? env text = none ↔ job.cases text ≠ .ok [])) ∨
      job.cases text ≠ .ok [] ∧ ∃ first rest e,
        job.reports env text = first :: rest ∧ job.refusal? env text = some e ∧
          (SameFault e first ↔ (∀ x ∈ env.map Prod.fst, isUsable x = true) ∨
            ∃ cases, job.cases text = .ok cases) := by
  cases hcases : job.cases text with
  | error d =>
      refine .inr ⟨by simp, d, [], ?_⟩
      cases hnames : checkEnv (Matcher.context job.config env).env with
      | error cause =>
          refine ⟨.ofCause cause, by simp only [Job.reports, hcases],
            by simp only [Job.refusal?, hnames], iff_of_false ?_ ?_⟩
          · -- An error of the parser and one of a name have different codes.
            rintro ⟨hcode, -⟩
            exact code_of_parseSource hcases (hcode ▸ code_of_checkEnv hnames)
          · rintro (husable | ⟨cases, h⟩)
            · cases hnames.symm.trans (checkEnv_eq_ok.mpr husable)
            · cases h
      | ok _ =>
          exact ⟨d, by simp only [Job.reports, hcases], by simp only [Job.refusal?, hnames, hcases],
            iff_of_true ⟨rfl, rfl⟩ (.inl (checkEnv_eq_ok.mp hnames))⟩
  | ok cases =>
      have hreports : job.reports env text = job.findings env text cases := by
        simp only [Job.reports, hcases]
      rw [hreports, refusal?_of_cases hcases]
      -- They differ on the empty file only: nothing is reported, and no listing is made.
      by_cases hne : cases = []
      · subst hne
        refine .inl ⟨rfl, iff_of_false ?_ (not_not_intro rfl)⟩
        cases hplans : planCases (Matcher.context job.config env) [] with
        | error cause => simp
        | ok plans => exact absurd rfl (planCases_eq_ok hplans).2.1
      · rcases planCases_findings job hne with ⟨hnone, plans, hplans⟩ |
          ⟨first, rest, cause, hfirst, hcause, hsame⟩
        · exact .inl ⟨hnone, by simp [hplans, hne]⟩
        · exact .inr ⟨by simp [hne], first, rest, .ofCause cause, hfirst, by rw [hcause],
            iff_of_true hsame (.inr ⟨cases, rfl⟩)⟩

/-- **A check and a compilation agree on every file with a case.**  Where the listing can be
written, they end well together unless the file has no case, which a check accepts.  Otherwise the
compilation gives the first report of the check as its reason, unless the file cannot be parsed and
a name of the environment is unusable, too: then the check tells the former and the compilation the
latter. -/
theorem check_agrees_compile {r : Request} {files : Files} {path : Path} {text : String}
    {defines : List Operand} {env : List (String × Value)} {output : Output}
    (hopen : r.Opens files path text) (henv : defineAll defines = .ok env)
    (hwritable : output.Writable files) (format : ReportFormat) :
    let job := r.job files path
    let checked := execute files { r with task := .check defines format }
    let compiled := execute files { r with task := .compile defines output }
    ((checked.1 = .success ↔ compiled.1 = .success) ↔ job.cases text ≠ .ok []) ∧
      (checked.1 = .success ∧ checked.2.out = "" ∨ ∃ first rest e entries,
        checked.2.out = String.join ((first :: rest).map (reportText · format)) ∧
          compiled = (Console.logAll { verbosity := r.verbosity } entries).diagnose e ∧
            (SameFault e first ↔ (∀ x ∈ env.map Prod.fst, isUsable x = true) ∨
              ∃ cases, job.cases text = .ok cases)) := by
  intro job checked compiled
  -- Both commands open the same source, and differ from there on.
  have hopenCheck : Request.Opens { r with task := .check defines format } files path text :=
    ⟨hopen.existing, hopen.text_eq⟩
  have hopenCompile : Request.Opens { r with task := .compile defines output } files path text :=
    ⟨hopen.existing, hopen.text_eq⟩
  have hchecked : checked = runCheck job { verbosity := r.verbosity } defines format :=
    hopenCheck.execute_check rfl
  have hcompiled : compiled = runCompile job { verbosity := r.verbosity } defines output :=
    hopenCompile.execute_compile rfl
  have htext : sourceText? job.files job.path = some text := hopen.text_eq
  rw [hchecked, hcompiled]
  obtain ⟨hstatus, hout⟩ := runCheck_eq henv htext format
  obtain ⟨hdone, hrefused⟩ := runCompile_eq henv htext hwritable
  rw [hstatus, hdone, hout]
  rcases reports_refusal? job env text with ⟨hnone, hcases⟩ |
    ⟨hcases, first, rest, e, hreports, he, hsame⟩
  · simp [hnone, hcases, String.join]
  · obtain ⟨entries, hrun⟩ := hrefused e he
    refine ⟨by simp [hreports, he, hcases], .inr ⟨first, rest, e, entries, ?_, hrun, hsame⟩⟩
    rw [hreports]
    exact String.empty_append

/-- A file that is no match source, under a name that is none: both commands refuse it, each for a
reason of its own. -/
theorem check_agrees_compile_unusable :
    ∃ (r : Request) (files : Files) (output : Output),
      r.Opens files ["m.bm"] "?" ∧ defineAll [some "1x=3"] = .ok [("1x", .int 3)] ∧
        output.Writable files ∧ (let job := r.job files ["m.bm"]
        let checked := execute files { r with task := .check [some "1x=3"] .json }
        let compiled := execute files { r with task := .compile [some "1x=3"] output }
        ((checked.1 = .success ↔ compiled.1 = .success) ↔ job.cases "?" ≠ .ok []) ∧
          (checked.1 = .success ∧ checked.2.out = "" ∨ ∃ first rest e entries,
            checked.2.out = String.join ((first :: rest).map (reportText · .json)) ∧
              compiled = (Console.logAll { verbosity := r.verbosity } entries).diagnose e ∧
                (SameFault e first ↔ (∀ x ∈ ["1x"], isUsable x = true) ∨
                  ∃ cases, job.cases "?" = .ok cases))) := by
  have hopen : Request.Opens ⟨2, some "m.bm", none, true, .check [] .text⟩
      { entries := [(["m.bm"], [0x3F])] } ["m.bm"] "?" := ⟨by decide +kernel, by decide +kernel⟩
  have henv : defineAll [some "1x=3"] = .ok [("1x", .int 3)] := rfl
  have hwritable : Output.Writable { entries := [(["m.bm"], [0x3F])] } (.file (some "m.py")) :=
    ⟨["m.py"], by decide +kernel, by decide +kernel⟩
  exact ⟨_, _, _, hopen, henv, hwritable, check_agrees_compile hopen henv hwritable .json⟩

/-- An empty file passes a check and cannot be compiled. -/
theorem check_agrees_compile_empty :
    (execute { entries := [(["m.bm"], [])] }
        ⟨0, some "m.bm", none, true, .check [] .text⟩).1 = .success ∧
      (execute { entries := [(["m.bm"], [])] }
        ⟨0, some "m.bm", none, true, .compile [] .stream⟩).1 = .diagnosed := by
  have hopen : Request.Opens ⟨0, some "m.bm", none, true, .check [] .text⟩
      { entries := [(["m.bm"], [])] } ["m.bm"] "" := ⟨by decide +kernel, by decide +kernel⟩
  have hopen' : Request.Opens ⟨0, some "m.bm", none, true, .compile [] .stream⟩
      { entries := [(["m.bm"], [])] } ["m.bm"] "" := ⟨hopen.existing, hopen.text_eq⟩
  have hcases : (Request.job ⟨0, some "m.bm", none, true, .check [] .text⟩
      { entries := [(["m.bm"], [])] } ["m.bm"]).cases "" = .ok [] :=
    @Case.parseSource_of_read _ _ _ [] (by decide +kernel)
  have henv : defineAll [] = .ok [] := rfl
  constructor
  · rw [hopen.execute_check rfl]
    exact (runCheck_of_cases henv hopen.text_eq hcases _ .text).1
  · obtain ⟨entries, hrun⟩ :=
      (runCompile_eq henv hopen'.text_eq (Output.writable_stream _)).2 _ (refusal?_of_cases hcases)
    rw [hopen'.execute_compile rfl]
    exact congrArg Prod.fst hrun

end BitPattern.Command
