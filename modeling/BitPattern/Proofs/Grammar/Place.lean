import BitPattern.Proofs.Grammar.Quoted
import BitPattern.Proofs.Report.Span
import BitPattern.Proofs.Text.Origin
import Mathlib.Data.List.Infix

/-!
# Where the fields of an arm go wrong

The fields of an arm are a string literal, and its bytes are parsed as a list of fields of their
own.  What is wrong with that list is wrong at one of its characters (`FieldFault`): where the
grammar got stuck, at its start for a literal without value or an unusable alternative, and at the
start of the field for its qualifiers.

The diagnostic of a match source counts that offset from the first character of the fields in the
source, although the source has the literal as it is written (`ArmForm.WrittenAs`).  So it points at
the character that the offending one comes from exactly if nothing before it moves the two apart:
`parseSource_fault`.
-/

namespace BitPattern.Grammar

open BitPattern.Text Reader

/-! ## Where an arm is written -/

lemma takeBody?_eq {cs body left : List Char} (h : takeBody? cs = some (body, left)) :
    cs = body ++ '"' :: left := by
  fun_induction takeBody? cs generalizing body left with
  | case1 => cases h
  | case2 rest =>
      cases h
      rfl
  | case3 => cases h
  | case4 c rest hline => cases h
  | case5 c rest hline ih =>
      obtain ⟨⟨body', left'⟩, hrest, heq⟩ := Option.map_eq_some_iff.mp h
      cases heq
      rw [ih hrest, List.cons_append, List.cons_append]
  | case6 c rest hquote hbackslash ih =>
      obtain ⟨⟨body', left'⟩, hrest, heq⟩ := Option.map_eq_some_iff.mp h
      cases heq
      rw [ih hrest, List.cons_append]

/-- No line is continued inside a string literal. -/
lemma takeBody?_line {before rest body left : List Char} (hbefore : '\\' ∉ before)
    (h : takeBody? (before ++ '\\' :: '\n' :: rest) = some (body, left)) :
    body.length < before.length := by
  induction before generalizing body left with
  | nil => cases h
  | cons c cs ih =>
      obtain ⟨hc, hcs⟩ := not_or.mp (mt List.mem_cons.mpr hbefore)
      by_cases hquote : c = '"'
      · subst hquote
        cases h
        exact Nat.succ_pos _
      · rw [List.cons_append, takeBody?] at h
        · obtain ⟨⟨body', left'⟩, hrest, heq⟩ := Option.map_eq_some_iff.mp h
          cases heq
          exact Nat.succ_lt_succ (ih hcs hrest)
        · exact hquote
        · exact fun heq => hc heq.symm

/-- An arm of a source, with the text before the quote that begins its fields, the fields as they
are written, and the text behind the quote that ends them. -/
structure ArmForm.WrittenAs (a : ArmForm) (source before body after : List Char) : Prop where
  source_eq : source = before ++ '"' :: (body ++ '"' :: after)
  literal : takeBody? (body ++ '"' :: after) = some (body, after)
  arrow : ∃ rest, skipBlank false after = '-' :: '>' :: rest
  fields : literalBytes? body = some a.fields
  left_eq : a.left = (body ++ '"' :: after).length

namespace ArmForm.WrittenAs

variable {a : ArmForm} {source before body after : List Char}

/-- More text may stand before the arm. -/
lemma append (h : a.WrittenAs source before body after) (ahead : List Char) :
    a.WrittenAs (ahead ++ source) (ahead ++ before) body after where
  source_eq := by rw [h.source_eq, List.append_assoc]
  literal := h.literal
  arrow := h.arrow
  fields := h.fields
  left_eq := h.left_eq

/-- The offset of the first character of the fields. -/
lemma base_eq (h : a.WrittenAs source before body after) :
    source.length - a.left = before.length + 1 := by
  rw [h.left_eq, h.source_eq]
  simp only [List.length_append, List.length_cons]
  omega

/-- The fields end inside the source. -/
lemma lt_length (h : a.WrittenAs source before body after) :
    before.length + 1 + body.length < source.length := by
  rw [h.source_eq]
  simp only [List.length_append, List.length_cons]
  omega

/-- Behind verbatim text a character of the fields stands where it stands in the literal. -/
lemma sourceOffset_eq_self (h : a.WrittenAs source before body after) {k : Nat}
    (hk : k ≤ a.fields.length) (hverbatim : ∀ c ∈ body.take k, isVerbatim c = true) :
    sourceOffset body k = k := by
  refine Text.sourceOffset_eq_self h.fields hk hverbatim fun rest hrest => ?_
  have hbackslash : '\\' ∉ body.take k := fun hmem => by
    have := hverbatim _ hmem
    simp [isVerbatim] at this
  have hliteral := h.literal
  rw [← List.take_append_drop k body, hrest, List.append_assoc] at hliteral
  have hlt := takeBody?_line hbackslash hliteral
  simp only [List.length_append] at hlt
  omega

end ArmForm.WrittenAs

/-- The head of an arm is a literal and an arrow. -/
lemma armHead_literal {cs left : List Char} {r : Nat × Denoted (List UInt8)}
    (h : armHead.run cs = some (r, left)) : ∃ body after,
      cs = '"' :: (body ++ '"' :: after) ∧ takeBody? (body ++ '"' :: after) = some (body, after) ∧
        skipBlank false after = '-' :: '>' :: left ∧ r = (cs.length, bodyValue body) := by
  obtain ⟨fields, mid, hfields, hmid, rfl⟩ := armHead_eq_some.mp h
  obtain ⟨rest, rfl⟩ := stringLiteral_begins hfields
  rw [run_stringLiteral_cons] at hfields
  obtain ⟨⟨body, after⟩, hbody, heq⟩ := Option.map_eq_some_iff.mp hfields
  cases heq
  obtain rfl := takeBody?_eq hbody
  exact ⟨body, _, rfl, hbody, hmid, rfl⟩

lemma afterBar_suffix (cs : List Char) : afterBar cs <:+ cs := by
  unfold afterBar
  split
  · exact (skipBlank_suffix _ _).trans (List.suffix_cons _ _)
  · exact List.suffix_refl _

/-- What an arm leaves is the end of what it was read from. -/
lemma arm_suffix {cs left : List Char} {form : Denoted ArmForm}
    (h : arm.run cs = some (form, left)) : left <:+ cs := by
  obtain ⟨start, fields, mid, e, rest, hhead, hexpr, rfl, -⟩ := arm_eq_some.mp h
  obtain ⟨body, after, hcs, -, hafter, -⟩ := armHead_literal hhead
  have hshows : Tracks (Shows []) expr := expr_shows (List.nil_subset _) List.not_mem_nil
  have hrest : rest <:+ skipBlank false mid := (hshows hexpr).1
  have hmid : mid <:+ skipBlank false after := hafter ▸ ⟨['-', '>'], rfl⟩
  have hbar : after <:+ afterBar cs := hcs ▸ ⟨'"' :: (body ++ ['"']), by simp⟩
  calc afterEnd rest <:+ rest := afterEnd_suffix rest
    _ <:+ skipBlank false mid := hrest
    _ <:+ mid := skipBlank_suffix false mid
    _ <:+ skipBlank false after := hmid
    _ <:+ after := skipBlank_suffix false after
    _ <:+ afterBar cs := hbar
    _ <:+ cs := afterBar_suffix cs

/-- An arm is written somewhere in the text that it is read from. -/
lemma arm_written {cs left : List Char} {a : ArmForm} (h : arm.run cs = some (.ok a, left)) :
    ∃ before body after, a.WrittenAs cs before body after := by
  obtain ⟨start, fields, mid, e, rest, hhead, -, -, hform⟩ := arm_eq_some.mp h
  obtain ⟨body, after, hcs, hbody, hafter, hr⟩ := armHead_literal hhead
  obtain ⟨ahead, hahead⟩ := afterBar_suffix cs
  cases hr
  obtain ⟨bytes, hbytes, hform⟩ := result_bind_eq_ok.mp hform.symm
  obtain ⟨e, -, hform⟩ := result_bind_eq_ok.mp hform
  cases hform
  refine ⟨ahead, body, after, ?_, hbody, ⟨mid, hafter⟩, ?_, ?_⟩
  · rw [← hcs, hahead]
  · rw [bodyValue] at hbytes
    split at hbytes
    · cases hbytes
      assumption
    · cases hbytes
  · simp [hcs]

/-- Every arm of a row is written somewhere in the text. -/
lemma row_written {cs left : List Char} {forms : List (Denoted ArmForm)}
    (h : Row arm cs forms left) {a : ArmForm} (ha : .ok a ∈ forms) :
    ∃ before body after, a.WrittenAs cs before body after := by
  induction h with
  | nil => cases ha
  | cons hform _ ih =>
      rcases List.mem_cons.mp ha with rfl | ha
      · exact arm_written hform
      · obtain ⟨before, body, after, hwritten⟩ := ih ha
        obtain ⟨ahead, rfl⟩ := arm_suffix hform
        exact ⟨_, body, after, hwritten.append ahead⟩

/-- Every arm of a source is written somewhere in it. -/
lemma source_written {cs : List Char} {arms : List ArmForm}
    (h : readAll source cs = .ok (.ok arms)) {a : ArmForm} (ha : a ∈ arms) :
    ∃ before body after, a.WrittenAs cs before body after := by
  obtain ⟨row, hrow, -, hforms⟩ := source_eq_some.mp (readAll_eq_ok.mp h)
  obtain rfl := result_mapM_id_eq_ok.mp hforms.symm
  obtain ⟨before, body, after, hwritten⟩ := row_written hrow (List.mem_map_of_mem ha)
  obtain ⟨ahead, hahead⟩ := skipBlank_suffix false cs
  exact ⟨_, body, after, hahead ▸ hwritten.append ahead⟩

/-! ## What is wrong with a list of fields -/

/-- The qualifiers of a field make a specification, if it has any. -/
def FieldForm.Resolves (form : FieldForm) : Prop :=
  ∀ p length quals, form.description = some (p, length, some quals) →
    ∃ spec, Qualifier.resolve .empty quals = .ok spec

/-- A field is written from an offset of a text on. -/
def FieldForm.StandsAt (form : FieldForm) (text : String) (k : Nat) : Prop :=
  k + form.left = text.length ∧ form.text.toList <+: text.toList.drop k

/-- What is wrong with a text as a list of fields, and the offset where. -/
inductive FieldFault (text : String) : Nat → Report.Cause → Prop where
  /-- The grammar got stuck. -/
  | malformed {k : Nat} (h : readAll fieldList text.toList = .error k) :
      FieldFault text k (.malformed "Format error in field list" text)
  /-- A literal has no value, or alternatives are unusable. -/
  | misfit {m : Misfit} (h : readAll fieldList text.toList = .ok (.error m)) :
      FieldFault text 0 (.malformed m.reason m.text)
  /-- The qualifiers of a field make no specification; the ones before it do. -/
  | qualifiers {before after : List FieldForm} {form : FieldForm} {p : Pattern}
      {length quals : Expr} {cause : Report.Cause} {k : Nat}
      (h : readAll fieldList text.toList = .ok (.ok (before ++ form :: after)))
      (hbefore : ∀ f ∈ before, f.Resolves)
      (hform : form.description = some (p, length, some quals))
      (hcause : Qualifier.resolve .empty quals = .error cause) (hplace : form.StandsAt text k) :
      FieldFault text k cause

/-- A field is written from where it was read on. -/
lemma field_stands {cs left : List Char} {form : FieldForm}
    (h : field.run cs = some (.ok form, left)) (hsome : form.description.isSome) :
    form.left = cs.length ∧ form.text.toList <+: cs := by
  rw [field, run_rule] at h
  rcases or_eq_some h with hfull | hrest
  · obtain ⟨⟨parts, taken⟩, hr, hform⟩ := fullField_eq_some.mp hfull
    rw [run_withText] at hr
    obtain ⟨⟨parts', left'⟩, -, heq⟩ := Option.map_eq_some_iff.mp hr
    cases heq
    obtain ⟨p, -, hform⟩ := result_bind_eq_ok.mp hform.symm
    obtain ⟨length, -, hform⟩ := result_bind_eq_ok.mp hform
    obtain ⟨quals, -, hform⟩ := result_bind_eq_ok.mp hform
    cases hform
    rw [String.toList_ofList]
    exact ⟨rfl, List.take_prefix _ _⟩
  · obtain ⟨-, -, hform⟩ := restField_eq_some.mp hrest
    cases hform
    cases hsome

/-- Every field of a list is read from the end of the list on. -/
lemma row_fields {cs left : List Char} {forms : List (Denoted FieldForm)}
    (h : Row nextField cs forms left) {form : Denoted FieldForm} (hform : form ∈ forms) :
    ∃ start left', start <:+ cs ∧ field.run start = some (form, left') := by
  induction h with
  | nil => cases hform
  | @cons cs mid left first forms hfirst _ ih =>
      rcases List.mem_cons.mp hform with rfl | hform
      · obtain ⟨c, rest, hcs, -, hfield⟩ := nextField_eq_some.mp hfirst
        have hrest : rest <:+ skipBlank false cs := hcs ▸ List.suffix_cons _ _
        exact ⟨_, mid, (skipBlank_suffix _ _).trans (hrest.trans (skipBlank_suffix _ _)), hfield⟩
      · obtain ⟨start, left', hstart, hfield⟩ := ih hform
        exact ⟨start, left', hstart.trans (nextField_shows hfirst).1, hfield⟩

/-- Every field of a list that is no lone wildcard stands somewhere in it. -/
lemma fieldList_stands {text : String} {forms : List FieldForm}
    (h : readAll fieldList text.toList = .ok (.ok forms)) {form : FieldForm} (hform : form ∈ forms)
    (hsome : form.description.isSome) : form.StandsAt text (text.length - form.left) := by
  obtain ⟨first, rest, mid, left, hfirst, hrow, -, -, hforms⟩ :=
    fieldList_eq_some.mp (readAll_eq_ok.mp h)
  have hmem : .ok form ∈ first :: rest := by
    rw [result_mapM_id_eq_ok.mp hforms.symm]
    exact List.mem_map_of_mem hform
  obtain ⟨start, left', hstart, hfield⟩ : ∃ start left', start <:+ text.toList ∧
      field.run start = some (.ok form, left') := by
    rcases List.mem_cons.mp hmem with rfl | hmem
    · exact ⟨_, mid, skipBlank_suffix _ _, hfirst⟩
    · obtain ⟨start, left', hstart, hfield⟩ := row_fields hrow hmem
      exact ⟨start, left', hstart.trans ((field_shows hfirst).1.trans (skipBlank_suffix _ _)),
        hfield⟩
  obtain ⟨hleft, htext⟩ := field_stands hfield hsome
  have hle := hstart.length_le
  rw [String.length_toList] at hle
  refine ⟨by omega, ?_⟩
  rwa [hleft, ← String.length_toList, ← List.suffix_iff_eq_drop.mp hstart]

lemma FieldFault.le_length {text : String} {k : Nat} {cause : Report.Cause}
    (h : FieldFault text k cause) : k ≤ text.length := by
  cases h with
  | malformed h =>
      rw [← String.length_toList]
      unfold readAll at h
      split at h
      · cases h
      · cases h
        exact Nat.sub_le _ _
      · cases h
        exact Nat.sub_le _ _
  | misfit => exact Nat.zero_le _
  | qualifiers _ _ _ _ hplace =>
      have := hplace.1
      omega

end BitPattern.Grammar

namespace BitPattern

open Grammar Reader Report Text

/-! ## The first fault -/

namespace Field

/-- A form is refused for its qualifiers only, at its start. -/
lemma ofForm_eq_error {implicitInt : Bool} {origin : Origin} {size : Nat} {form : FieldForm}
    {d : Diagnostic} : ofForm implicitInt origin size form = .error d ↔ ∃ p length quals cause,
      form.description = some (p, length, some quals) ∧
        Qualifier.resolve .empty quals = .error cause ∧
          d = (Diagnostic.ofCause cause).withSpan (origin.place (size - form.left)) := by
  obtain ⟨left, text, description⟩ := form
  rcases description with _ | ⟨p, length, _ | quals⟩
  · simp [ofForm]
  · simp [ofForm, Spec.ofQualifiers]
  · cases hspec : Qualifier.resolve .empty quals with
    | ok spec => simp [ofForm, Spec.ofQualifiers, hspec, bind, Except.bind, pure, Except.pure]
    | error cause => simp [ofForm, Spec.ofQualifiers, hspec, bind, Except.bind, eq_comm]

lemma ofForm_isOk {implicitInt : Bool} {origin : Origin} {size : Nat} {form : FieldForm} :
    (∃ f, ofForm implicitInt origin size form = .ok f) ↔ form.Resolves := by
  constructor
  · rintro ⟨f, hf⟩ p length quals hform
    cases hspec : Qualifier.resolve .empty quals with
    | ok spec => exact ⟨spec, rfl⟩
    | error cause =>
        have herror : ofForm implicitInt origin size form = .error _ :=
          ofForm_eq_error.mpr ⟨p, length, quals, cause, hform, hspec, rfl⟩
        cases hf.symm.trans herror
  · intro h
    cases hf : ofForm implicitInt origin size form with
    | ok f => exact ⟨f, rfl⟩
    | error d =>
        obtain ⟨p, length, quals, cause, hform, hcause, -⟩ := ofForm_eq_error.mp hf
        obtain ⟨spec, hspec⟩ := h p length quals hform
        cases hspec.symm.trans hcause

/-- A list of fields is refused for what is wrong with it, at the place where that is. -/
lemma parseList_eq_error {implicitInt : Bool} {origin : Origin} {text : String} {d : Diagnostic} :
    parseList implicitInt origin text = .error d ↔ ∃ k cause, FieldFault text k cause ∧
      d = (Diagnostic.ofCause cause).withSpan (origin.place k) := by
  rw [parseList, result_bind_eq_error]
  constructor
  · -- The text is no list, or the list holds a form that is no field.
    rintro (h | ⟨forms, hforms, h⟩)
    · rw [readText] at h
      split at h
      · cases h
        exact ⟨_, _, .malformed ‹_›, rfl⟩
      · cases h
        exact ⟨_, _, .misfit ‹_›, rfl⟩
      · cases h
    · rw [readText_eq_ok, ← readAll_eq_ok] at hforms
      obtain ⟨before, form, after, rfl, hbefore, hform⟩ := result_mapM_error_split h
      obtain ⟨p, length, quals, cause, hsome, hcause, rfl⟩ := ofForm_eq_error.mp hform
      refine ⟨_, cause, .qualifiers hforms (fun f hf => ofForm_isOk.mp (hbefore f hf)) hsome hcause
        (fieldList_stands hforms ?_ (hsome ▸ rfl)), rfl⟩
      exact List.mem_append_right before List.mem_cons_self
  · rintro ⟨k, cause, hfault, rfl⟩
    cases hfault with
    | malformed h => exact .inl (by rw [readText, h]; rfl)
    | misfit h => exact .inl (by rw [readText, h])
    | qualifiers h hbefore hform hcause hplace =>
        refine .inr ⟨_, readText_eq_ok.mpr (readAll_eq_ok.mp h), result_mapM_first_error
          (fun f hf => ofForm_isOk.mpr (hbefore f hf)) (ofForm_eq_error.mpr
            ⟨_, _, _, cause, hform, hcause, ?_⟩)⟩
        rw [← hplace.1, Nat.add_sub_cancel]

/-- A list of fields is parsed, or something is wrong with it. -/
lemma parseList_isOk {implicitInt : Bool} {origin : Origin} {text : String} :
    (∃ fs, parseList implicitInt origin text = .ok fs) ↔ ∀ k cause, ¬FieldFault text k cause := by
  constructor
  · rintro ⟨fs, hfs⟩ k cause hfault
    cases hfs.symm.trans (parseList_eq_error.mpr ⟨k, cause, hfault, rfl⟩)
  · intro h
    cases hfs : parseList implicitInt origin text with
    | ok fs => exact ⟨fs, rfl⟩
    | error d =>
        obtain ⟨k, cause, hfault, -⟩ := parseList_eq_error.mp hfs
        exact absurd hfault (h k cause)

end Field

namespace Case

lemma ofArm_eq_error {implicitInt : Bool} {file source : String} {index : Nat} {a : ArmForm}
    {d : Diagnostic} : ofArm implicitInt file source index a = .error d ↔
      Field.parseList implicitInt ⟨file, source, (source.length - a.left : Nat)⟩
        (latin a.fields) = .error d := by
  simp only [ofArm, result_bind_eq_error]
  constructor
  · rintro (h | ⟨fs, -, h⟩)
    · exact h
    · cases h
  · exact .inl

lemma not_fieldFault_of_ofArm {implicitInt : Bool} {file source : String} {index : Nat}
    {a : ArmForm} {c : Case} (h : ofArm implicitInt file source index a = .ok c) (k : Nat)
    (cause : Cause) : ¬FieldFault (latin a.fields) k cause := by
  obtain ⟨fields, hfields, -⟩ := ofArm_eq_ok.mp h
  exact Field.parseList_isOk.mp ⟨fields, hfields (.alone (latin a.fields))⟩ k cause

lemma not_fieldFault_of_ofArms {implicitInt : Bool} {file source : String} {index : Nat}
    {arms : List ArmForm} {cs : List Case}
    (h : ofArms implicitInt file source index arms = .ok cs) :
    ∀ a ∈ arms, ∀ k cause, ¬FieldFault (latin a.fields) k cause := by
  induction arms generalizing index cs with
  | nil => exact List.forall_mem_nil _
  | cons a arms ih =>
      obtain ⟨c, cs, hc, hcs, rfl⟩ := ofArms_cons.mp h
      exact List.forall_mem_cons.mpr ⟨not_fieldFault_of_ofArm hc, ih hcs⟩

/-- Arms are refused for the first one that something is wrong with. -/
lemma ofArms_eq_error {implicitInt : Bool} {file source : String} {index : Nat}
    {arms : List ArmForm} {d : Diagnostic}
    (h : ofArms implicitInt file source index arms = .error d) :
    ∃ before a after index', arms = before ++ a :: after ∧
      (∀ b ∈ before, ∀ k cause, ¬FieldFault (latin b.fields) k cause) ∧
        ofArm implicitInt file source index' a = .error d := by
  induction arms generalizing index with
  | nil => cases h
  | cons a arms ih =>
      rw [ofArms] at h
      rcases result_bind_eq_error.mp h with ha | ⟨c, hc, h⟩
      · exact ⟨[], a, arms, index, rfl, List.forall_mem_nil _, ha⟩
      · rcases result_bind_eq_error.mp h with harms | ⟨cs, -, h⟩
        · obtain ⟨before, b, after, index', rfl, hbefore, hb⟩ := ih harms
          exact ⟨a :: before, b, after, index', rfl,
            List.forall_mem_cons.mpr ⟨not_fieldFault_of_ofArm hc, hbefore⟩, hb⟩
        · cases h

lemma ofArms_fieldsText {implicitInt : Bool} {file source : String} {index : Nat}
    {arms : List ArmForm} {cs : List Case}
    (h : ofArms implicitInt file source index arms = .ok cs) :
    List.Forall₂ (fun a c => c.fieldsText = latin a.fields) arms cs := by
  induction arms generalizing index cs with
  | nil =>
      cases h
      exact .nil
  | cons a arms ih =>
      obtain ⟨c, cs, hc, hcs, rfl⟩ := ofArms_cons.mp h
      obtain ⟨fields, -, rfl⟩ := ofArm_eq_ok.mp hc
      exact .cons rfl (ih hcs)

/-- The cases of a source are those of its arms, one after the other. -/
lemma arms_of_parseSource {implicitInt : Bool} {file text : String} {cs : List Case}
    (h : parseSource implicitInt file text = .ok cs) :
    ∃ arms, readAll source text.toList = .ok (.ok arms) ∧
      List.Forall₂ (fun a c => c.fieldsText = latin a.fields) arms cs := by
  obtain ⟨arms, harms, hcs⟩ := result_bind_eq_ok.mp h
  exact ⟨arms, readAll_eq_ok.mpr (readText_eq_ok.mp harms), ofArms_fieldsText hcs⟩

/-- The place of a diagnostic about the fields of an arm, which are wrong at an offset: the literal
is `body`, and its first character has the offset `base` in the source. -/
structure ReportedAt (file source : String) (base : Nat) (body : List Char) (k : Nat)
    (d : Diagnostic) : Prop where
  span_eq : d.span = Span.ofOffset file source (base + k : Nat)
  /-- It is the place of the character that the offending one comes from exactly if that stands at
  the same offset. -/
  samePlace_iff :
    Span.SamePlace d.span (Span.ofOffset file source (base + sourceOffset body k : Nat)) ↔
      sourceOffset body k = k
  /-- So it is where nothing before is an escape or beyond ASCII. -/
  verbatim : (∀ c ∈ body.take k, isVerbatim c = true) → sourceOffset body k = k

/-- The offset of a fault is counted from where the literal begins. -/
lemma reportedAt {file text : String} {a : ArmForm} {ahead body behind : List Char} {k : Nat}
    {cause : Cause} (hwritten : a.WrittenAs text.toList ahead body behind)
    (hfault : FieldFault (latin a.fields) k cause) :
    ReportedAt file text (ahead.length + 1) body k ((Diagnostic.ofCause cause).withSpan
      (Origin.place ⟨file, text, (text.length - a.left : Nat)⟩ k)) := by
  have hk : k ≤ a.fields.length := by
    simpa [latin] using hfault.le_length
  have hspan : Origin.place ⟨file, text, (text.length - a.left : Nat)⟩ k =
      Span.ofOffset file text (ahead.length + 1 + k : Nat) := by
    rw [← String.length_toList, hwritten.base_eq]
    rfl
  refine ⟨hspan, ?_, hwritten.sourceOffset_eq_self hk⟩
  rw [hspan]
  have hlt := hwritten.lt_length
  have hle := sourceOffset_le body k
  rw [String.length_toList] at hlt
  change Span.SamePlace (Span.ofOffset _ _ _) _ ↔ _
  rw [Span.samePlace_ofOffset]
  omega

/-- A match source whose arms can be read is refused for the first arm whose fields have a fault,
and the diagnostic has the offset of the fault in the denoted text, counted from where the literal
begins in the source. -/
theorem parseSource_fault {implicitInt : Bool} {file text : String} {arms : List ArmForm}
    (harms : readAll source text.toList = .ok (.ok arms))
    (hfault : ∃ a ∈ arms, ∃ k cause, FieldFault (latin a.fields) k cause) :
    ∃ d before a after, parseSource implicitInt file text = .error d ∧
      arms = before ++ a :: after ∧
        (∀ b ∈ before, ∀ k cause, ¬FieldFault (latin b.fields) k cause) ∧
          ∃ ahead body behind k, a.WrittenAs text.toList ahead body behind ∧
            FieldFault (latin a.fields) k d.cause ∧
              ReportedAt file text (ahead.length + 1) body k d := by
  cases hcases : ofArms implicitInt file text 0 arms with
  | ok cs =>
      obtain ⟨a, ha, k, cause, hfault⟩ := hfault
      exact absurd hfault (not_fieldFault_of_ofArms hcases a ha k cause)
  | error d =>
      obtain ⟨before, a, after, index, rfl, hbefore, ha⟩ := ofArms_eq_error hcases
      obtain ⟨k, cause, hfault, rfl⟩ := Field.parseList_eq_error.mp (ofArm_eq_error.mp ha)
      obtain ⟨ahead, body, behind, hwritten⟩ := source_written harms (List.mem_append_right before
        List.mem_cons_self)
      refine ⟨_, before, a, after, ?_, rfl, hbefore, ahead, body, behind, k, hwritten, hfault,
        reportedAt hwritten hfault⟩
      rw [parseSource_of_read harms, hcases]

/-- The second of two arms has no list of fields, behind a letter that is written as an escape. -/
theorem parseSource_fault_second :
    ∃ arms, readAll source "\"_\" -> 0\n\"\\x61?\" -> 1".toList = .ok (.ok arms) ∧
      (∃ a ∈ arms, ∃ k cause, FieldFault (latin a.fields) k cause) ∧
        ∃ d before a after,
          parseSource false "m.bm" "\"_\" -> 0\n\"\\x61?\" -> 1" = .error d ∧
            arms = before ++ a :: after ∧
              (∀ b ∈ before, ∀ k cause, ¬FieldFault (latin b.fields) k cause) ∧
                ∃ ahead body behind k,
                  a.WrittenAs "\"_\" -> 0\n\"\\x61?\" -> 1".toList ahead body behind ∧
                    FieldFault (latin a.fields) k d.cause ∧
                      ReportedAt "m.bm" "\"_\" -> 0\n\"\\x61?\" -> 1" (ahead.length + 1) body k
                        d := by
  have hread : readAll fieldList "a?".toList = .error 1 := by decide +kernel
  have harms : readAll source "\"_\" -> 0\n\"\\x61?\" -> 1".toList =
      .ok (.ok [⟨20, [0x5F], .int 0⟩, ⟨11, [0x61, 0x3F], .int 1⟩]) := by decide +kernel
  have hfields : latin [0x61, 0x3F] = "a?" := by decide
  have hfault : FieldFault "a?" 1 _ := .malformed hread
  have hsome : ∃ a ∈ [(⟨20, [0x5F], .int 0⟩ : ArmForm), ⟨11, [0x61, 0x3F], .int 1⟩],
      ∃ k cause, FieldFault (latin a.fields) k cause :=
    ⟨_, .tail _ (.head _), 1, _, hfields ▸ hfault⟩
  exact ⟨_, harms, hsome, parseSource_fault harms hsome⟩

/-- An escape before the place where the grammar gets stuck makes the reported one too small: it is
that of the letter of the escape. -/
theorem parseSource_fault_escaped :
    ∃ d, parseSource true "" "\"\\n?\" -> 1" = .error d ∧ FieldFault "\n?" 1 d.cause ∧
      sourceOffset "\\n?".toList 1 = 2 ∧
        "\"\\n?\" -> 1".toList = ['"'] ++ "\\n?".toList ++ "\" -> 1".toList ∧
          ¬Span.SamePlace d.span (.ofOffset "" "\"\\n?\" -> 1" (1 + 2 : Nat)) := by
  have hread : readAll fieldList "\n?".toList = .error 1 := by decide +kernel
  have hparse : parseSource true "" "\"\\n?\" -> 1" =
      .error ((Diagnostic.ofCause (.malformed "Format error in field list" "\n?")).withSpan
        ⟨"", 1, 3, "\"\\n?\" -> 1"⟩) := by
    rw [← result_map_eq_error (f := List.length)]
    decide +kernel
  exact ⟨_, hparse, .malformed hread, by decide, by decide, by decide⟩

end Case

end BitPattern
