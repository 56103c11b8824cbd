import BitPattern.Command.Execute
import BitPattern.Proofs.Grammar.Place

/-!
# What a check reports

A check makes a plan of each case by itself and reports the ones that have none.  A report has the
place where the denoted fields of its case first occur in the file, wherever the case stands.  That
is the place of its own case exactly if they are written as they are and nowhere before:
`check_located`.
-/

namespace BitPattern.Command

open BitPattern.Grammar BitPattern.Report BitPattern.Text Reader

/-! ## First occurrences -/

/-- The first offset of a text that another one stands at. -/
def FirstAt (needle text : List Char) (n : Nat) : Prop :=
  needle <+: text.drop n ∧ ∀ i < n, ¬needle <+: text.drop i

lemma firstAt_zero {needle text : List Char} : FirstAt needle text 0 ↔ needle <+: text := by
  simp [FirstAt]

lemma firstAt_succ {needle rest : List Char} {c : Char} {n : Nat} :
    FirstAt needle (c :: rest) (n + 1) ↔ ¬needle <+: c :: rest ∧ FirstAt needle rest n := by
  constructor
  · rintro ⟨hthere, hbefore⟩
    exact ⟨hbefore 0 (Nat.succ_pos n), hthere, fun i hi => hbefore (i + 1) (Nat.succ_lt_succ hi)⟩
  · rintro ⟨hhead, hthere, hbefore⟩
    refine ⟨hthere, fun i hi => ?_⟩
    cases i with
    | zero => exact hhead
    | succ i => exact hbefore i (Nat.lt_of_succ_lt_succ hi)

lemma firstAt_unique {needle text : List Char} {m n : Nat} (hm : FirstAt needle text m)
    (hn : FirstAt needle text n) : m = n := by
  rcases Nat.lt_trichotomy m n with h | h | h
  · exact absurd hm.1 (hn.2 m h)
  · exact h
  · exact absurd hn.1 (hm.2 n h)

/-- The search finds the first occurrence. -/
lemma findFrom_eq_some {offset n : Nat} {needle text : List Char} :
    findFrom offset needle text = some n ↔ ∃ m, n = offset + m ∧ FirstAt needle text m := by
  induction text generalizing offset with
  | nil =>
      rw [findFrom]
      constructor
      · intro h
        split at h
        · rename_i hnil
          cases h
          exact ⟨0, rfl, firstAt_zero.mpr (List.isEmpty_iff.mp hnil ▸ List.nil_prefix)⟩
        · cases h
      · rintro ⟨m, rfl, hm⟩
        obtain rfl : needle = [] := by simpa using hm.1
        rw [firstAt_unique hm (firstAt_zero.mpr List.nil_prefix)]
        rfl
  | cons c rest ih =>
      rw [findFrom]
      split
      · -- It occurs at the front, and so first of all there.
        rename_i hhead
        have hfirst := firstAt_zero.mpr (List.isPrefixOf_iff_prefix.mp hhead)
        constructor
        · rintro h
          cases h
          exact ⟨0, rfl, hfirst⟩
        · rintro ⟨m, rfl, hm⟩
          rw [firstAt_unique hm hfirst, Nat.add_zero]
      · -- It does not, so every occurrence is one in the rest.
        rename_i hhead
        rw [ih]
        have hhead := mt List.isPrefixOf_iff_prefix.mpr hhead
        constructor
        · rintro ⟨m, rfl, hm⟩
          exact ⟨m + 1, by omega, firstAt_succ.mpr ⟨hhead, hm⟩⟩
        · rintro ⟨m, rfl, hm⟩
          cases m with
          | zero => exact absurd (firstAt_zero.mp hm) hhead
          | succ m => exact ⟨m, by omega, (firstAt_succ.mp hm).2⟩

lemma findFrom_zero_eq_some {n : Nat} {needle text : List Char} :
    findFrom 0 needle text = some n ↔ FirstAt needle text n := by
  simp [findFrom_eq_some]

/-- Nothing occurs beyond the end of a text. -/
lemma FirstAt.le_length {needle text : List Char} {n : Nat} (h : FirstAt needle text n) :
    n ≤ text.length := by
  by_contra hlt
  obtain ⟨hthere, hbefore⟩ := h
  rw [List.drop_eq_nil_of_le (by omega)] at hthere
  refine hbefore text.length (by omega) ?_
  rwa [List.drop_length]

/-! ## What a command writes -/

namespace Console

lemma out_log (c : Console) (entry : Entry) : (c.log entry).out = c.out := by
  unfold log
  split <;> rfl

@[simp] lemma out_logAll (c : Console) (entries : List Entry) : (c.logAll entries).out = c.out := by
  induction entries generalizing c with
  | nil => rfl
  | cons entry entries ih => exact (ih _).trans (out_log c entry)

@[simp] lemma out_say (c : Console) (level : Level) (message : String) :
    (c.say level message).out = c.out :=
  out_log c _

end Console

/-! ## Requests about a readable file -/

/-- What the task of a request works on. -/
def Request.job (r : Request) (files : Files) (path : Path) : Job :=
  ⟨files, path, {
    nativeEndian := r.nativeEndian.getD ({} : Config).nativeEndian
    implicitInt := r.implicitInt
    filename := files.shown path }⟩

/-- The match file of a request is there and has a text. -/
structure Request.Opens (r : Request) (files : Files) (path : Path) (text : String) : Prop where
  existing : existing files "match file" r.file = .ok path
  text_eq : sourceText? files path = some text

namespace Request.Opens

variable {r : Request} {files : Files} {path : Path} {text : String}

lemma execute_check (h : r.Opens files path text) {defines : List Operand} {format : ReportFormat}
    (htask : r.task = .check defines format) :
    execute files r = runCheck (r.job files path) { verbosity := r.verbosity } defines format := by
  simp only [execute, h.existing, htask]
  rfl

lemma execute_compile (h : r.Opens files path text) {defines : List Operand} {output : Output}
    (htask : r.task = .compile defines output) :
    execute files r =
      runCompile (r.job files path) { verbosity := r.verbosity } defines output := by
  simp only [execute, h.existing, htask]
  rfl

end Request.Opens

/-- What a check reports about the cases of a file, one after the other. -/
def Job.findings (job : Job) (env : List (String × Value)) (text : String) (cases : List Case) :
    List Diagnostic :=
  cases.filterMap (checkCase job (Matcher.context job.config env) text)

/-- A check of a file with cases writes what it finds. -/
lemma runCheck_of_cases {job : Job} {defines : List Operand} {env : List (String × Value)}
    {text : String} {cases : List Case} (henv : defineAll defines = .ok env)
    (htext : sourceText? job.files job.path = some text) (hcases : job.cases text = .ok cases)
    (c : Console) (format : ReportFormat) :
    (runCheck job c defines format).1 =
        (if (job.findings env text cases).isEmpty then .success else .diagnosed) ∧
      (runCheck job c defines format).2.out =
        c.out ++ String.join ((job.findings env text cases).map (reportText · format)) := by
  simp only [runCheck, henv, htext, hcases]
  exact ⟨rfl, by simp [Console.print, Job.findings]⟩

/-! ## Where a report is located -/

/-- A case of an arm in a file, and the place of what a check finds wrong with it. -/
structure Located (job : Job) (env : List (String × Value)) (text : String) (a : ArmForm)
    (case : Case) (before body after : List Char) : Prop where
  written : a.WrittenAs text.toList before body after
  fieldsText_eq : case.fieldsText = latin a.fields
  /-- It is the place of the first character of the fields exactly if what they denote occurs there
  for the first time. -/
  samePlace_iff : ∀ d, checkCase job (Matcher.context job.config env) text case = some d →
    (Span.SamePlace d.span (Span.ofOffset job.name text (before.length + 1 : Nat)) ↔
      FirstAt case.fieldsText.toList text.toList (before.length + 1))
  /-- Fields that are written as they are do occur there. -/
  verbatim : (∀ x ∈ body, isVerbatim x = true) →
    (FirstAt case.fieldsText.toList text.toList (before.length + 1) ↔
      ∀ i ≤ before.length, ¬body <+: text.toList.drop i)

/-- A case is located by the first occurrence of what the fields of its arm denote. -/
lemma located {job : Job} {env : List (String × Value)} {text : String} {a : ArmForm} {case : Case}
    {before body after : List Char} (hwritten : a.WrittenAs text.toList before body after)
    (hfields : case.fieldsText = latin a.fields) :
    Located job env text a case before body after where
  written := hwritten
  fieldsText_eq := hfields
  samePlace_iff d hd := by
    have hlt := hwritten.lt_length
    rw [checkCase] at hd
    split at hd
    · cases hd
    · cases hd
      change Span.SamePlace (Span.ofOffset _ _ _) _ ↔ _
      rw [Span.samePlace_ofOffset, ← String.length_toList, ← findFrom_zero_eq_some]
      cases hfind : findFrom 0 case.fieldsText.toList text.toList with
      -- Where it does not occur, the place would be the start of the text, before any body.
      | none =>
          simp only [Option.getD_none, reduceCtorEq, iff_false]
          omega
      | some n =>
          have hle := (findFrom_zero_eq_some.mp hfind).le_length
          simp only [Option.getD_some, Option.some.injEq]
          omega
  verbatim hbody := by
    have hthere : body <+: text.toList.drop (before.length + 1) := by
      have hsource : text.toList = (before ++ ['"']) ++ (body ++ '"' :: after) := by
        rw [hwritten.source_eq, List.append_assoc, List.singleton_append]
      rw [hsource, List.drop_left' (by simp)]
      exact List.prefix_append _ _
    rw [hfields, latin_of_verbatim hwritten.fields hbody, FirstAt]
    simp only [hthere, true_and, Nat.lt_succ_iff]

/-- Each report of a check has the place where the denoted fields of its case first occur. -/
theorem check_located {r : Request} {files : Files} {path : Path} {text : String}
    {defines : List Operand} {format : ReportFormat} {env : List (String × Value)}
    {cases : List Case} (hopen : r.Opens files path text) (htask : r.task = .check defines format)
    (henv : defineAll defines = .ok env) (hcases : (r.job files path).cases text = .ok cases) :
    (execute files r).2.out =
        String.join (((r.job files path).findings env text cases).map (reportText · format)) ∧
      ∃ arms, readAll source text.toList = .ok (.ok arms) ∧
        List.Forall₂ (fun a case => ∃ before body after,
          Located (r.job files path) env text a case before body after) arms cases := by
  constructor
  · rw [hopen.execute_check htask, (runCheck_of_cases henv hopen.text_eq hcases _ format).2]
    exact String.empty_append
  · obtain ⟨arms, harms, hsame⟩ := Case.arms_of_parseSource hcases
    have hwritten :=
      (List.forall₂_and_left arms cases).mpr ⟨fun a ha => source_written harms ha, hsame⟩
    refine ⟨arms, harms, hwritten.imp ?_⟩
    rintro a case ⟨⟨before, body, after, hwritten⟩, hfields⟩
    exact ⟨before, body, after, located hwritten hfields⟩

/-- The case of an arm whose only field has a name for a length. -/
lemma ofArm_counted (file source : String) (index left : Nat) :
    Case.ofArm true file source index ⟨left, [0x78, 0x3A, 0x79], .int 0⟩ =
      .ok ⟨"x:y", [⟨.var "x", some (.name "y"), some .default, "x:y"⟩], .expr (.int 0), index⟩ := by
  have hlatin : latin [0x78, 0x3A, 0x79] = "x:y" := by decide
  have hfields : Field.parseList true (.alone "x:y") "x:y" =
      .ok [⟨.var "x", some (.name "y"), some .default, "x:y"⟩] := by decide +kernel
  refine ofArm_eq_ok.mpr ⟨_, fun origin => ?_, by rw [hlatin]⟩
  rw [hlatin]
  exact parseList_origin hfields origin

/-- The fields of the only arm are in a comment before it, too. -/
theorem check_located_comment :
    ∃ (r : Request) (files : Files) (cases : List Case),
      r.Opens files ["m.bm"] "#x:y\n\"x:y\"->0" ∧ r.task = .check [] .text ∧
        defineAll [] = .ok [] ∧ (r.job files ["m.bm"]).cases "#x:y\n\"x:y\"->0" = .ok cases ∧
          (execute files r).2.out = String.join (((r.job files ["m.bm"]).findings []
            "#x:y\n\"x:y\"->0" cases).map (reportText · .text)) ∧
          ∃ arms, readAll source "#x:y\n\"x:y\"->0".toList = .ok (.ok arms) ∧
            List.Forall₂ (fun a case => ∃ before body after, Located (r.job files ["m.bm"]) []
              "#x:y\n\"x:y\"->0" a case before body after) arms cases := by
  have hopen : Request.Opens ⟨0, some "m.bm", none, true, .check [] .text⟩
      { entries := [(["m.bm"], [0x23, 0x78, 0x3A, 0x79, 0x0A, 0x22, 0x78, 0x3A, 0x79, 0x22, 0x2D,
        0x3E, 0x30])] } ["m.bm"] "#x:y\n\"x:y\"->0" := ⟨by decide +kernel, by decide +kernel⟩
  have hcases : (Request.job ⟨0, some "m.bm", none, true, .check [] .text⟩
      { entries := [(["m.bm"], [0x23, 0x78, 0x3A, 0x79, 0x0A, 0x22, 0x78, 0x3A, 0x79, 0x22, 0x2D,
        0x3E, 0x30])] } ["m.bm"]).cases "#x:y\n\"x:y\"->0" =
      .ok [⟨"x:y", [⟨.var "x", some (.name "y"), some .default, "x:y"⟩], .expr (.int 0), 0⟩] := by
    have hread : readAll source "#x:y\n\"x:y\"->0".toList =
        .ok (.ok [⟨7, [0x78, 0x3A, 0x79], .int 0⟩]) := by decide +kernel
    rw [Job.cases, Case.parseSource_of_read hread]
    exact Case.ofArms_cons.mpr ⟨_, [], ofArm_counted _ _ 0 _, rfl, rfl⟩
  exact ⟨_, _, _, hopen, rfl, rfl, hcases, check_located hopen rfl rfl hcases⟩

/-- Of two arms with the same fields the second one is reported at the place of the first. -/
theorem check_located_repeated :
    ∃ first second d,
      Job.cases ⟨{ entries := [] }, ["m.bm"], {}⟩ "\"x:y\"->0\n\"x:y\"->0" = .ok [first, second] ∧
        Job.findings ⟨{ entries := [] }, ["m.bm"], {}⟩ [] "\"x:y\"->0\n\"x:y\"->0" [second] =
          [d] ∧
        "\"x:y\"->0\n\"x:y\"->0".toList = "\"x:y\"->0\n\"".toList ++ "x:y\"->0".toList ∧
          Span.SamePlace d.span (.ofOffset "m.bm" "\"x:y\"->0\n\"x:y\"->0" 1) ∧
            ¬Span.SamePlace d.span (.ofOffset "m.bm" "\"x:y\"->0\n\"x:y\"->0" 10) := by
  have hcases : Job.cases ⟨{ entries := [] }, ["m.bm"], {}⟩ "\"x:y\"->0\n\"x:y\"->0" =
      .ok [⟨"x:y", [⟨.var "x", some (.name "y"), some .default, "x:y"⟩], .expr (.int 0), 0⟩,
        ⟨"x:y", [⟨.var "x", some (.name "y"), some .default, "x:y"⟩], .expr (.int 0), 1⟩] := by
    have hread : readAll source "\"x:y\"->0\n\"x:y\"->0".toList =
        .ok (.ok [⟨16, [0x78, 0x3A, 0x79], .int 0⟩, ⟨7, [0x78, 0x3A, 0x79], .int 0⟩]) := by
      decide +kernel
    rw [Job.cases, Case.parseSource_of_read hread]
    refine Case.ofArms_cons.mpr ⟨_, _, ofArm_counted _ _ 0 _, ?_, rfl⟩
    exact Case.ofArms_cons.mpr ⟨_, [], ofArm_counted _ _ 1 _, rfl, rfl⟩
  have hfound : Job.findings ⟨{ entries := [] }, ["m.bm"], {}⟩ [] "\"x:y\"->0\n\"x:y\"->0"
      [⟨"x:y", [⟨.var "x", some (.name "y"), some .default, "x:y"⟩], .expr (.int 0), 1⟩] =
      [(Diagnostic.ofCause (.unboundName "y" "x:y" [])).withSpan
        ⟨"m.bm", 1, 2, "\"x:y\"->0"⟩] := by decide +kernel
  exact ⟨_, _, _, hcases, hfound, by decide, by decide, by decide⟩

end BitPattern.Command
