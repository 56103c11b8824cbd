import BitPattern.Proofs.Plan.Lines

/-!
# Listings line by line

What is emitted as a line is read as a line.  A line of a planned case has something on it and no
line break in it, whatever the texts and the literals of the case hold, so the function of the case
consists of its head and of these lines with their indentation (`listing_one_to_one`), and a module
consists of the lines of its functions (`moduleText_eq`).
-/

namespace BitPattern.Plan

open BitPattern.Text

/-! ## Emitters -/

namespace Emitter

lemma emit_eq (e : Emitter) {code : String} (h : Nonblank code) :
    e.emit code = { e with text := e.text ++ linesText [e.indentation ++ code] } := by
  simp [emit, h.not_all, String.append_assoc]

lemma emitAll_eq (e : Emitter) {lines : List String} (h : ∀ line ∈ lines, Nonblank line) :
    e.emitAll lines =
      { e with text := e.text ++ linesText (lines.map (e.indentation ++ ·)) } := by
  unfold emitAll
  induction lines generalizing e with
  | nil => simp
  | cons line lines ih =>
      obtain ⟨hline, hlines⟩ := List.forall_mem_cons.mp h
      rw [List.foldl_cons, ih _ hlines, emit_eq e hline]
      simp [indentation, String.append_assoc]

lemma emitBlank_one (e : Emitter) : e.emitBlank 1 = { e with text := e.text ++ linesText [""] } :=
  rfl

end Emitter

/-! ## Functions -/

/-- A line that can be emitted and read again. -/
def Single (line : String) : Prop :=
  Nonblank line ∧ Unbroken line

lemma single_of_solid {line : String} (h : ∀ c, isLineBreak c = true → Solid c line) :
    Single line := by
  refine ⟨(h '\n' (by decide)).1, fun c hc => ?_⟩
  by_contra hbreak
  exact (h c (by simpa using hbreak)).2 hc

lemma Single.indented {line : String} (h : Single line) : Single ("    " ++ line) := by
  have hindentation : Unbroken "    " := .literal (by decide)
  exact ⟨nonblank_append.mpr (.inr h.1), unbroken_append.mpr ⟨hindentation, h.2⟩⟩

/-- The first line of the function of a case. -/
def CasePlan.header (plan : CasePlan) : String :=
  "def " ++ caseName plan.index ++ "(_bm_data, _bm_origin, _bm_total):"

/-- The lines inside the function of a case before those of its fields. -/
def CasePlan.preamble (plan : CasePlan) : List String :=
  ["# case " ++ decimal plan.index ++ ": " ++ quoted plan.fieldsText]
    ++ (if plan.usesEnd then ["_bm_end = _bm_origin + _bm_total"] else [])

section Head

variable {c : Char} (h : Hidden c) (plan : CasePlan)

include h

lemma CasePlan.header_solid : Solid c plan.header := by
  have hindex := h.decimal plan.index
  simp only [CasePlan.header, caseName]
  generalize decimal plan.index = digits at hindex
  simp (disch := decide) [Solid, Nonblank.literal, h.literal, hindex]

lemma CasePlan.preamble_solid : ∀ line ∈ plan.preamble, Solid c line := by
  have hindex := h.decimal plan.index
  have htext := h.quoted plan.fieldsText
  simp only [CasePlan.preamble]
  generalize decimal plan.index = digits at hindex
  generalize quoted plan.fieldsText = text at htext
  split <;> simp (disch := decide) [Solid, Nonblank.literal, h.literal, hindex, htext]

end Head

lemma CasePlan.header_single (plan : CasePlan) : Single plan.header :=
  single_of_solid fun _ hc => plan.header_solid (hidden_of_isLineBreak hc)

lemma CasePlan.preamble_single (plan : CasePlan) : ∀ line ∈ plan.preamble, Single line :=
  fun line hline => single_of_solid fun _ hc =>
    plan.preamble_solid (hidden_of_isLineBreak hc) line hline

/-- The function of a case consists of its header and, with their indentation, of the lines inside
it, if what its fields and its body are listed as are lines. -/
lemma CasePlan.listing_eq (plan : CasePlan) {number : Nat}
    (h : ∀ line ∈ (plan.bodyListing .start number).1, Single line) :
    plan.listing number =
      (plan.header :: (plan.preamble ++ (plan.bodyListing .start number).1).map ("    " ++ ·),
        (plan.bodyListing .start number).2) := by
  generalize hfound : plan.bodyListing .start number = found at h
  obtain ⟨body, number'⟩ := found
  have hinner : ∀ line ∈ plan.preamble ++ body, Single line :=
    List.forall_mem_append.mpr ⟨plan.preamble_single, h⟩
  have hlines : ∀ line ∈ plan.header :: (plan.preamble ++ body).map ("    " ++ ·),
      Unbroken line := by
    refine List.forall_mem_cons.mpr ⟨plan.header_single.2, fun line hline => ?_⟩
    obtain ⟨line, hmem, rfl⟩ := List.mem_map.mp hline
    exact (hinner line hmem).indented.2
  rw [← listingLines_linesText hlines]
  unfold CasePlan.listing
  rw [hfound]
  have hemit : ((Emitter.openBlock {} plan.header).emitAll (plan.preamble ++ body)).text =
      linesText (plan.header :: (plan.preamble ++ body).map ("    " ++ ·)) := by
    rw [Emitter.openBlock, Emitter.emit_eq _ plan.header_single.1,
      Emitter.emitAll_eq _ fun line hline => (hinner line hline).1]
    have hzero : Emitter.indentation {} = "" := rfl
    have hone (text : String) : Emitter.indentation ⟨"    ", 1, text⟩ = "    " := rfl
    simp [Emitter.indent, hzero, hone]
  rw [← hemit]
  rfl

/-! ## Planned cases -/

section Planned

variable {ctx : Context} {c : Case} {plan : CasePlan}

lemma lacks_joinWords_of_isLineBreak {d : Char} (h : isLineBreak d = true) (s : String) :
    Lacks d (joinWords s) := by
  have hspace : d ≠ ' ' := by
    rintro rfl
    revert h
    decide
  have hblank : isBlank d = true := by
    simp only [isLineBreak, Bool.or_eq_true, Bool.and_eq_true, decide_eq_true_eq, beq_iff_eq] at h
    simp only [isBlank, isWhite, Bool.or_eq_true, Bool.and_eq_true, decide_eq_true_eq, beq_iff_eq]
    omega
  exact joinWords_lacks hspace hblank s

/-- What the fields and the body of a planned case are listed as are lines. -/
lemma bodyListing_single (henv : checkEnv ctx.env = .ok ()) (h : planCase ctx c = .ok plan)
    {cursor : Cursor} (hoff : Unbroken cursor.off) (hlen : Unbroken cursor.len) (number : Nat) :
    ∀ line ∈ (plan.bodyListing cursor number).1, Single line := by
  refine fun line hline => single_of_solid fun d hd => ?_
  have hidden := hidden_of_isLineBreak hd
  have hlacks {s : String} (hs : Unbroken s) : Lacks d s := fun hmem => by
    rw [hs d hmem] at hd
    cases hd
  have hclean := planCase_clean hidden henv h fun _ _ => lacks_joinWords_of_isLineBreak hd _
  exact hclean.bodyListing hidden ⟨hlacks hoff, hlacks hlen⟩ number line hline

/-- The function of a planned case, line by line. -/
lemma listing_planned (henv : checkEnv ctx.env = .ok ()) (h : planCase ctx c = .ok plan)
    (number : Nat) : plan.listing number =
      (plan.header :: (plan.preamble ++ (plan.bodyListing .start number).1).map ("    " ++ ·),
        (plan.bodyListing .start number).2) :=
  plan.listing_eq
    (bodyListing_single henv h (.literal (by decide)) (.literal (by decide)) number)

/-- A hidden character is in no line of the function of a planned case if it is in no comment. -/
lemma listing_solid {d : Char} (hidden : Hidden d) (henv : checkEnv ctx.env = .ok ())
    (h : planCase ctx c = .ok plan)
    (htexts : ∀ field ∈ effectiveFields c, Lacks d (joinWords field.text)) (number : Nat) :
    ∀ line ∈ (plan.listing number).1, Solid d line := by
  have hclean := planCase_clean hidden henv h htexts
  have hbody := hclean.bodyListing hidden (Cursor.start_clean hidden) number
  rw [listing_planned henv h]
  refine List.forall_mem_cons.mpr ⟨plan.header_solid hidden, fun line hline => ?_⟩
  obtain ⟨line, hmem, rfl⟩ := List.mem_map.mp hline
  have hline := List.forall_mem_append.mpr ⟨plan.preamble_solid hidden, hbody⟩ line hmem
  exact ⟨nonblank_append.mpr (.inr hline.1),
    lacks_append.mpr ⟨hidden.literal (by decide), hline.2⟩⟩

lemma usesEnd_resolvedFields (bound : List String) (plans : List FieldPlan) :
    ((resolvedFields bound plans).any fun field => field.jump.isSome) =
      plans.any fun field => field.jump.isSome := by
  induction plans generalizing bound with
  | nil => rfl
  | cons plan plans ih =>
      rw [resolvedFields, List.any_cons, List.any_cons, ih]
      simp [FieldPlan.resolved]

/-- A planned case needs to know where the subject ends if one of its fields moves to an offset. -/
lemma usesEnd_planned (h : planCase ctx c = .ok plan) : plan.usesEnd =
    (effectiveFields c).any fun field => field.spec.any fun spec => spec.offset.isSome := by
  obtain ⟨rfl, -⟩ := planCase_eq_resolved h
  rw [CasePlan.usesEnd, CasePlan.resolved, usesEnd_resolvedFields, lexicalCase, List.any_map]
  congr 1
  funext field
  cases hspec : field.spec <;> simp [lexicalField, hspec, Spec.empty]

/-- **No text breaks out of its line.**  Whatever the texts and the literals of a planned case hold,
each line for its fields and its body has something on it and no line break in it.  So the function
of the case has exactly these lines inside, each once and in their order, behind a header, a comment
and, if a field moves to an offset, the line that tells where the subject ends. -/
theorem listing_one_to_one (henv : checkEnv ctx.env = .ok ()) (h : planCase ctx c = .ok plan)
    (number : Nat) :
    (∀ cursor : Cursor, Unbroken cursor.off → Unbroken cursor.len →
      ∀ line ∈ (plan.bodyListing cursor number).1, Nonblank line ∧ Unbroken line) ∧
    (plan.listing number).1 =
      ("def " ++ caseName c.index ++ "(_bm_data, _bm_origin, _bm_total):") ::
        (["# case " ++ decimal c.index ++ ": " ++ quoted c.fieldsText]
          ++ (if (effectiveFields c).any fun field => field.spec.any fun spec => spec.offset.isSome
            then ["_bm_end = _bm_origin + _bm_total"] else [])
          ++ (plan.bodyListing .start number).1).map ("    " ++ ·) := by
  refine ⟨fun cursor hoff hlen => bodyListing_single henv h hoff hlen number, ?_⟩
  have hindex : plan.index = c.index := by
    obtain ⟨rfl, -⟩ := planCase_eq_resolved h
    rfl
  have htext : plan.fieldsText = c.fieldsText := by
    obtain ⟨rfl, -⟩ := planCase_eq_resolved h
    rfl
  rw [listing_planned henv h, CasePlan.header, CasePlan.preamble, usesEnd_planned h, hindex, htext]

/-- A case with line breaks between its tokens and in a literal. -/
def brokenCase : Case where
  fieldsText := "s:8:string,\n check(s != \"\n\"),\u2028set_offset_at(0)"
  fields := [{
    pattern := .var "s"
    length := some (.int 8)
    spec := some {
      valueType := some .string
      check := some (.binary .ne (.name "s") (.bytes [10]))
      offset := some (.int 0) }
    text := "s:8:string,\n check(s != \"\n\"),\u2028set_offset_at(0)" }]
  body := .expr (.name "s")
  index := 0

theorem listing_one_to_one_broken : ∃ plan, planCase ⟨{}, []⟩ brokenCase = .ok plan ∧
    (plan.listing 0).1 = "def _bm_case_0(_bm_data, _bm_origin, _bm_total):" ::
      (["# case 0: " ++ quoted brokenCase.fieldsText, "_bm_end = _bm_origin + _bm_total"]
        ++ (plan.bodyListing .start 0).1).map ("    " ++ ·) := by
  refine ⟨_, rfl, ?_⟩
  exact (@listing_one_to_one ⟨{}, []⟩ brokenCase _ rfl rfl 0).2

end Planned

/-! ## Modules -/

/-- The lines of the functions of cases, each with an empty line after it. -/
def functionsLines (number : Nat) : List CasePlan → List String
  | [] => []
  | plan :: plans => (plan.listing number).1 ++ [""] ++ functionsLines (plan.listing number).2 plans

lemma emitCases_eq {plans : List CasePlan}
    (h : ∀ plan ∈ plans, ∀ number, ∀ line ∈ (plan.listing number).1, Nonblank line)
    (text : String) (number : Nat) :
    emitCases { text } number plans =
      { text := text ++ linesText (functionsLines number plans) } := by
  induction plans generalizing text number with
  | nil => simp [emitCases, functionsLines]
  | cons plan plans ih =>
      obtain ⟨hplan, hplans⟩ := List.forall_mem_cons.mp h
      have hindentation (text : String) : Emitter.indentation { text } = "" := rfl
      unfold emitCases
      dsimp only
      rw [Emitter.emitAll_eq _ (hplan number), Emitter.emitBlank_one, ih hplans]
      simp [functionsLines, hindentation, String.append_assoc]

/-- The lines of a module. -/
def moduleLines (plans : List CasePlan) : List String :=
  ["# Generated by bitmatch", ""] ++ functionsLines 0 plans
    ++ ["_BM_CASES = (" ++ ", ".intercalate (caseNames plans) ++ ",)"]

/-- The text of the module of planned cases, line by line. -/
lemma moduleText_eq {ctx : Context} {cases : List Case} {plans : List CasePlan}
    (henv : checkEnv ctx.env = .ok ())
    (hplans : List.Forall₂ (fun c plan => planCase ctx c = .ok plan) cases plans) :
    moduleText plans = linesText (moduleLines plans) := by
  have hlines : ∀ plan ∈ plans, ∀ number, ∀ line ∈ (plan.listing number).1, Nonblank line := by
    intro plan hplan number line hline
    obtain ⟨i, hi, rfl⟩ := List.mem_iff_getElem.mp hplan
    have hi' : i < cases.length := by rwa [hplans.length_eq]
    have hbreak : isLineBreak '\n' = true := by decide
    exact (listing_solid (hidden_of_isLineBreak hbreak) henv (hplans.get hi' hi)
      (fun _ _ => lacks_joinWords_of_isLineBreak hbreak _) number line hline).1
  have hlast : Nonblank ("_BM_CASES = (" ++ ", ".intercalate (caseNames plans) ++ ",)") := by
    simp (disch := decide) [Nonblank.literal]
  have hfirst : Emitter.emitBlank (Emitter.emitComment {} "Generated by bitmatch") 1 =
      { text := linesText ["# Generated by bitmatch", ""] } := rfl
  have hindentation (text : String) : Emitter.indentation { text } = "" := rfl
  unfold moduleText
  dsimp only
  rw [hfirst, emitCases_eq hlines, Emitter.emit_eq _ hlast]
  simp only [moduleLines, linesText_append, hindentation, String.empty_append]

end BitPattern.Plan
