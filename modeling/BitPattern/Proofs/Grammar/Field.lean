import BitPattern.Grammar.Parse
import BitPattern.Proofs.Grammar.Punctuation
import BitPattern.Proofs.Run.Lift

/-!
# Lists of fields, one after the other

Two lists of fields with a separator between them are the list of the fields of both:
`Field.parseList_append`.  A comma separates fields or goes on with qualifiers, and the lookahead
for a field behind it decides.  Text behind does not change that decision: where an expression
follows the comma, the first mark behind it is no colon (`fieldStart_eq_none`), and where a field
follows, the lookahead finds it (`fieldStart_of_field`).

A field keeps where it stands, which more text behind moves.  So `field_extends` is about forms
without their places.
-/

namespace BitPattern.Grammar

open BitPattern.Text Reader

variable {more : List Char}

/-! ## Separators -/

lemma separator_eq_some {cs left : List Char} {u : Unit} :
    separator.run cs = some (u, left) ↔ cs = ';' :: left ∨ cs = ',' :: left := by
  rw [separator, run_rule]
  constructor
  · intro h
    exact (or_eq_some h).imp text_eq_some.mp text_eq_some.mp
  · rintro (rfl | rfl) <;> rfl

/-- A semicolon follows, or a comma and something that only a field starts with. -/
def FieldEnds (cs : List Char) : Prop :=
  ∃ c left, skipBlank false cs = c :: left ∧
    (c = ';' ∨ c = ',' ∧ ∃ r, fieldStart.run (skipBlank false left) = some r)

lemma FieldEnds.next_eq {cs : List Char} (h : FieldEnds cs) :
    ∃ c, next cs = some c ∧ (c = ';' ∨ c = ',') := by
  obtain ⟨c, left, hcs, hc⟩ := h
  exact ⟨c, next_eq_some.mpr ⟨left, hcs⟩, hc.imp_right And.left⟩

lemma FieldEnds.ends {cs : List Char} (h : FieldEnds cs) : Ends 0 cs := by
  obtain ⟨c, hnext, hc⟩ := h.next_eq
  exact ends_of_next_eq hnext (by rcases hc with rfl | rfl <;> decide)

lemma FieldEnds.next_ne {cs : List Char} (h : FieldEnds cs) : next cs ≠ some ':' := by
  obtain ⟨c, hnext, hc⟩ := h.next_eq
  rw [hnext]
  rcases hc with rfl | rfl <;> decide

/-! ## What only a field starts with -/

lemma colon_eq_some {cs left : List Char} {u : Unit} :
    (do blank; text ":").run cs = some (u, left) ↔ skipBlank false cs = ':' :: left := by
  rw [run_blank_bind, text_eq_some]
  rfl

lemma colon_eq_none {cs : List Char} (h : next cs ≠ some ':') :
    (do blank; text ":").run cs = none :=
  Option.eq_none_iff_forall_ne_some.mpr fun ⟨_, left⟩ hr =>
    h (next_eq_some.mpr ⟨left, colon_eq_some.mp hr⟩)

/-- A pattern and a colon start a field. -/
lemma fieldStart_of_pattern {cs mid left : List Char} {p : Denoted Pattern}
    (hp : pattern.run cs = some (p, mid)) (hmid : skipBlank false mid = ':' :: left) :
    ∃ r, fieldStart.run cs = some r := by
  have hfirst : (do let _ ← pattern; blank; text ":" : Reader Unit).run cs = some ((), left) :=
    bind_eq_some.mpr ⟨p, mid, hp, colon_eq_some.mpr hmid⟩
  exact ⟨_, by rw [fieldStart, run_rule, run_or, hfirst, Option.some_or]⟩

/-- No field starts where an expression stands that a separator follows. -/
lemma fieldStart_eq_none {cs left : List Char} {e : Denoted Expr} {c : Char}
    (he : expr.run cs = some (e, left)) (hleft : next left = some c) (hc : c = ';' ∨ c = ',') :
    fieldStart.run cs = none := by
  refine Option.eq_none_iff_forall_ne_some.mpr fun r hr => ?_
  rw [fieldStart, run_rule] at hr
  rcases or_eq_some hr with hr | hr
  · obtain ⟨p, mid, hp, hr⟩ := bind_eq_some.mp hr
    have hnext : next mid = some ':' := next_eq_some.mpr ⟨_, colon_eq_some.mp hr⟩
    exact expr_firstMark he hleft hc (pattern_firstMark hp hnext)
  · obtain ⟨u, mid, hwildcard, -⟩ := bind_eq_some.mp hr
    have hexpr : ExprAt cs := (expr_operands .nil).begins he
    rw [hexpr.wildcard_eq_none] at hwildcard
    cases hwildcard

/-! ## Qualifiers -/

/-- A comma and the qualifier after it. -/
def nextQualifier : Reader (Denoted Expr) := rule do
  blank
  text ","
  blank
  absent fieldStart
  expr

lemma nextQualifier_eq_some {cs : List Char} {r : Denoted Expr × List Char} :
    nextQualifier.run cs = some r ↔ ∃ mid, skipBlank false cs = ',' :: mid ∧
      fieldStart.run (skipBlank false mid) = none ∧ expr.run (skipBlank false mid) = some r := by
  rw [nextQualifier, run_rule, run_blank_bind]
  simp only [bind_eq_some, text_eq_some, run_blank_bind, absent_eq_some]
  constructor
  · rintro ⟨u, mid, hmid, v, rest, ⟨hnone, heq⟩, hr⟩
    cases heq
    exact ⟨mid, hmid, hnone, hr⟩
  · rintro ⟨mid, hmid, hnone, hr⟩
    exact ⟨(), mid, hmid, (), _, ⟨hnone, rfl⟩, hr⟩

lemma nextQualifier_extends (h : Behind more) :
    Extends more (fun left => ∃ c, next (left ++ more) = some c ∧ (c = ';' ∨ c = ','))
      nextQualifier nextQualifier := by
  rintro cs e left hr ⟨c, hnext, hc⟩
  obtain ⟨mid, hmid, -, he⟩ := nextQualifier_eq_some.mp hr
  have hends : Ends 0 (left ++ more) :=
    ends_of_next_eq hnext (by rcases hc with rfl | rfl <;> decide)
  have hne : skipBlank false mid ≠ [] := fun hnil => by
    rw [hnil, ExprAt.begins_nil (expr_operands .nil).begins] at he
    cases he
  have he' := (expr_operands h).reads he hends
  refine nextQualifier_eq_some.mpr ⟨mid ++ more, ?_, ?_, ?_⟩
  · rw [skipBlank_append more (by simp [hmid]), hmid, List.cons_append]
  · rw [skipBlank_append more hne]
    exact fieldStart_eq_none he' hnext hc
  · rw [skipBlank_append more hne]
    exact he'

lemma qualifiers_extends (h : Behind more) :
    Extends more (fun left => FieldEnds (left ++ more)) qualifiers qualifiers := by
  have hexpr : Extends more (fun left => ∃ c, next (left ++ more) = some c ∧ (c = ';' ∨ c = ','))
      expr expr :=
    (expr_operands h).reads.mono fun left ⟨c, hnext, hc⟩ =>
      ends_of_next_eq hnext (by rcases hc with rfl | rfl <;> decide)
  refine .rule (hexpr.bind_many (nextQualifier_extends h) rfl (fun _ hq _ => ?_)
    (fun _ _ => .pure _) ?_)
  · obtain ⟨mid, hmid, -⟩ := nextQualifier_eq_some.mp hq
    exact ⟨',', next_eq_some.mpr ⟨mid, hmid⟩, .inr rfl⟩
  · intro first rest mid e left hr _ hleft
    cases hr
    refine ⟨hleft.next_eq, Option.eq_none_iff_forall_ne_some.mpr fun r hr => ?_⟩
    obtain ⟨mid, hmid, hnone, -⟩ := nextQualifier_eq_some.mp hr
    obtain ⟨c, rest, hcs, rfl | ⟨-, r', hstart⟩⟩ := hleft
    · cases hcs.symm.trans hmid
    · cases hcs.symm.trans hmid
      rw [hnone] at hstart
      cases hstart

/-! ## Fields with a length -/

/-- A colon and the qualifiers after it. -/
def qualifierPart : Reader (Denoted Expr) := rule do
  blank
  text ":"
  blank
  qualifiers

lemma qualifierPart_next {cs : List Char} {r : Denoted Expr × List Char}
    (h : qualifierPart.run cs = some r) : next cs = some ':' := by
  rw [qualifierPart, run_rule, run_blank_bind] at h
  obtain ⟨u, mid, hmid, -⟩ := bind_eq_some.mp h
  exact next_eq_some.mpr ⟨mid, text_eq_some.mp hmid⟩

/-- What a field with a length consists of. -/
abbrev FieldParts : Type :=
  Denoted Pattern × Denoted Expr × Option (Denoted Expr)

/-- The pattern, the length and the qualifiers of a field. -/
def fieldParts : Reader FieldParts := do
  let p ← pattern
  blank
  text ":"
  blank
  let length ← expr
  let quals ← optional qualifierPart
  pure (p, length, quals)

lemma fieldParts_extends (h : Behind more) :
    Extends more (fun left => FieldEnds (left ++ more)) fieldParts fieldParts := by
  have hpart : Extends more (fun left => FieldEnds (left ++ more)) qualifierPart qualifierPart :=
    .rule (blank_extends (.local_bind (text_local h ":" (by decide)) fun _ =>
      blank_extends (qualifiers_extends h) rfl) rfl)
  have hquals : Extends more (fun left => FieldEnds (left ++ more)) (optional qualifierPart)
      (optional qualifierPart) :=
    hpart.optional.mono fun left hleft => ⟨hleft, Option.eq_none_iff_forall_ne_some.mpr
      fun r hr => hleft.next_ne (qualifierPart_next hr)⟩
  refine (pattern_extends h).bind (fun p => blank_extends (.local_bind
    (text_local h ":" (by decide)) fun _ => blank_extends ((expr_operands h).reads.bind
      (fun length => hquals.bind_pure fun quals => (p, length, quals)) ?_) rfl) rfl) ?_
  · intro length mid parts left hr hr' hleft
    obtain ⟨quals, left', hquals, heq⟩ := bind_eq_some.mp hr
    cases heq
    rcases optional_eq_some hquals with ⟨-, rfl, -⟩ | ⟨-, e, -, he⟩
    · exact hleft.ends
    · exact ends_of_next_eq (next_append more (qualifierPart_next he)) (by decide)
  · intro p mid parts left hr _ _
    rw [run_blank_bind] at hr
    obtain ⟨u, mid', hmid, -⟩ := bind_eq_some.mp hr
    exact .inl (next_append more (next_eq_some.mpr ⟨mid', text_eq_some.mp hmid⟩))

/-- The form of a field with a length. -/
def FieldParts.form (start : Nat) (parts : FieldParts) (text : List Char) : Denoted FieldForm := do
  let p ← parts.1
  let length ← parts.2.1
  let quals ← parts.2.2.mapM id
  pure ⟨start, String.ofList text, some (p, length, quals)⟩

/-- A field with a length begins with a pattern and a colon. -/
lemma fieldParts_start {cs : List Char} {r : FieldParts × List Char}
    (h : fieldParts.run cs = some r) :
    ∃ p mid left, pattern.run cs = some (p, mid) ∧ skipBlank false mid = ':' :: left := by
  obtain ⟨p, mid, hp, h⟩ := bind_eq_some.mp h
  rw [run_blank_bind] at h
  obtain ⟨u, left, hmid, -⟩ := bind_eq_some.mp h
  exact ⟨p, mid, left, hp, text_eq_some.mp hmid⟩

lemma fullField_eq_some {cs left : List Char} {form : Denoted FieldForm} :
    fullField.run cs = some (form, left) ↔ ∃ r, (withText fieldParts).run cs = some (r, left) ∧
      form = FieldParts.form cs.length r.1 r.2 := by
  have hfull : fullField = rule (do
      let start ← Reader.left
      let r ← withText fieldParts
      pure (FieldParts.form start r.1 r.2)) := rfl
  rw [hfull, run_rule]
  simp only [bind_eq_some, run_left, run_pure]
  constructor
  · rintro ⟨start, rest, hstart, r, mid, hr, h⟩
    cases hstart
    cases h
    exact ⟨r, hr, rfl⟩
  · rintro ⟨r, hr, rfl⟩
    exact ⟨_, _, rfl, r, left, hr, rfl⟩

lemma fieldParts_of_withText {cs left : List Char} {r : FieldParts × List Char}
    (h : (withText fieldParts).run cs = some (r, left)) :
    fieldParts.run cs = some (r.1, left) := by
  rw [run_withText] at h
  obtain ⟨⟨parts, left'⟩, hparts, heq⟩ := Option.map_eq_some_iff.mp h
  cases heq
  exact hparts

/-! ## Fields -/

/-- A form without its place. -/
def FieldForm.unplaced (form : FieldForm) : FieldForm :=
  { form with left := 0 }

lemma FieldParts.unplaced_form (start : Nat) (parts : FieldParts) (text : List Char) :
    FieldForm.unplaced <$> FieldParts.form start parts text = FieldParts.form 0 parts text := by
  simp [FieldParts.form, FieldForm.unplaced]

lemma restField_eq_some {cs left : List Char} {form : Denoted FieldForm} :
    restField.run cs = some (form, left) ↔ wildcard.run cs = some ((), left) ∧
      next left ≠ some ':' ∧ form = .ok ⟨cs.length, "_", none⟩ := by
  rw [restField, run_rule]
  simp only [bind_eq_some, run_left, absent_eq_some, run_pure]
  constructor
  · rintro ⟨start, rest, hstart, u, mid, hwildcard, v, mid', ⟨hnone, heq⟩, h⟩
    cases hstart
    cases heq
    cases h
    refine ⟨hwildcard, fun hnext => ?_, rfl⟩
    obtain ⟨rest, hrest⟩ := next_eq_some.mp hnext
    rw [(colon_eq_some (u := ())).mpr hrest] at hnone
    cases hnone
  · rintro ⟨hwildcard, hnext, rfl⟩
    exact ⟨_, _, rfl, (), left, hwildcard, (), left, ⟨colon_eq_none hnext, rfl⟩, rfl⟩

/-- Where a lone wildcard stands that a separator follows, there is no field with a length. -/
lemma fullField_eq_none {cs left : List Char} (hwildcard : wildcard.run cs = some ((), left))
    (hleft : FieldEnds left) : fullField.run cs = none := by
  refine Option.eq_none_iff_forall_ne_some.mpr fun ⟨form, rest⟩ hr => ?_
  obtain ⟨r, hparts, -⟩ := fullField_eq_some.mp hr
  obtain ⟨p, mid, rest, hp, hmid⟩ := fieldParts_start (fieldParts_of_withText hparts)
  have hcolon := pattern_firstMark hp (next_eq_some.mpr ⟨rest, hmid⟩)
  have hshows : Shows marks cs left := wordOf_shows (fun _ => id) _ hwildcard
  obtain ⟨c, hnext, hc⟩ := hleft.next_eq
  rw [hshows.firstMark_eq, firstMark_of_next hnext (by rcases hc with rfl | rfl <;> decide)]
    at hcolon
  cases hcolon
  rcases hc with hc | hc <;> cases hc

/-- A field is read from a text with more behind it as from the text alone, but for its place, if a
separator follows, and a field after it if it is a comma. -/
theorem field_extends (h : Behind more) :
    Extends more (fun left => FieldEnds (left ++ more)) ((FieldForm.unplaced <$> ·) <$> field)
      ((FieldForm.unplaced <$> ·) <$> field) := by
  intro cs form left hr hleft
  obtain ⟨form, hform, rfl⟩ := map_eq_some.mp hr
  rw [field, run_rule] at hform
  refine map_eq_some.mpr ?_
  rw [field, run_rule, run_or]
  rcases or_eq_some hform with hfull | hrest
  · obtain ⟨r, hparts, rfl⟩ := fullField_eq_some.mp hfull
    have hfull' := fullField_eq_some.mpr ⟨r, (fieldParts_extends h).withText hparts hleft, rfl⟩
    exact ⟨_, by rw [hfull', Option.some_or], by
      rw [FieldParts.unplaced_form, FieldParts.unplaced_form]⟩
  · obtain ⟨hwildcard, -, rfl⟩ := restField_eq_some.mp hrest
    have hwildcard' := (keyword_local h "_").run_eq_some hwildcard
    have hrest' := restField_eq_some.mpr ⟨hwildcard', hleft.next_ne, rfl⟩
    exact ⟨.ok ⟨(cs ++ more).length, "_", none⟩,
      by rw [fullField_eq_none hwildcard' hleft, Option.none_or, hrest'], rfl⟩

/-- Where a field is read that a separator or nothing follows, the lookahead finds its start. -/
lemma fieldStart_of_field {cs left : List Char} {form : Denoted FieldForm}
    (h : field.run cs = some (form, left)) (hleft : ∀ c ∈ next left, c = ';' ∨ c = ',') :
    ∃ r, fieldStart.run cs = some r := by
  rw [field, run_rule] at h
  -- A field with a length begins with a pattern and a colon; the other kind is a last wildcard.
  rcases or_eq_some h with hfull | hrest
  · obtain ⟨r, hparts, -⟩ := fullField_eq_some.mp hfull
    obtain ⟨p, mid, rest, hp, hmid⟩ := fieldParts_start (fieldParts_of_withText hparts)
    exact fieldStart_of_pattern hp hmid
  · obtain ⟨hwildcard, -, -⟩ := restField_eq_some.mp hrest
    have hlast : ∃ r, (separator <|> endOfText).run (skipBlank false left) = some r := by
      cases hcs : skipBlank false left with
      | nil => exact ⟨_, rfl⟩
      | cons c rest =>
          have hseparator : separator.run (c :: rest) = some ((), rest) :=
            separator_eq_some.mpr (by
              rcases hleft c (next_eq_some.mpr ⟨rest, hcs⟩) with rfl | rfl
              · exact .inl rfl
              · exact .inr rfl)
          exact ⟨_, by rw [run_or, hseparator, Option.some_or]⟩
    obtain ⟨r, hr⟩ := hlast
    have hsecond : (do wildcard; blank; separator <|> endOfText : Reader Unit).run cs = some r :=
      bind_eq_some.mpr ⟨(), left, hwildcard, by rw [run_blank_bind, hr]⟩
    rw [fieldStart, run_rule, run_or, hsecond]
    cases (do let _ ← pattern; blank; text ":" : Reader Unit).run cs with
    | none => exact ⟨r, rfl⟩
    | some r => exact ⟨r, rfl⟩

/-! ## Lists of fields -/

/-- A separator and the field after it. -/
def nextField : Reader (Denoted FieldForm) := rule do
  blank
  separator
  blank
  field

lemma nextField_eq_some {cs : List Char} {r : Denoted FieldForm × List Char} :
    nextField.run cs = some r ↔ ∃ c mid, skipBlank false cs = c :: mid ∧ (c = ';' ∨ c = ',') ∧
      field.run (skipBlank false mid) = some r := by
  rw [nextField, run_rule, run_blank_bind]
  simp only [bind_eq_some, separator_eq_some, run_blank_bind]
  constructor
  · rintro ⟨u, mid, hmid | hmid, hr⟩
    · exact ⟨';', mid, hmid, .inl rfl, hr⟩
    · exact ⟨',', mid, hmid, .inr rfl, hr⟩
  · rintro ⟨c, mid, hmid, rfl | rfl, hr⟩
    · exact ⟨(), mid, .inl hmid, hr⟩
    · exact ⟨(), mid, .inr hmid, hr⟩

/-- Nothing but a separator and blanks is left. -/
def Finished (cs : List Char) : Prop :=
  skipBlank false cs = [] ∨
    ∃ c rest, skipBlank false cs = c :: rest ∧ (c = ';' ∨ c = ',') ∧ skipBlank false rest = []

lemma Finished.nextField_eq_none {cs : List Char} (h : Finished cs) : nextField.run cs = none := by
  refine Option.eq_none_iff_forall_ne_some.mpr fun r hr => ?_
  obtain ⟨c, mid, hmid, -, hfield⟩ := nextField_eq_some.mp hr
  rcases h with hnil | ⟨d, rest, hcs, -, hrest⟩
  · cases hnil.symm.trans hmid
  · cases hcs.symm.trans hmid
    rw [hrest] at hfield
    cases hfield

/-- What a list of fields is read as: a field and a row of further ones, with a separator at the
end or not. -/
lemma fieldList_eq_some {cs : List Char} {forms : Denoted (List FieldForm)} :
    fieldList.run cs = some (forms, []) ↔ ∃ first rest mid left,
      field.run (skipBlank false cs) = some (first, mid) ∧ Row nextField mid rest left ∧
        rest.length ≤ mid.length ∧ Finished left ∧ forms = (first :: rest).mapM id := by
  have hlist : fieldList = rule (do
      blank
      let first ← field
      let rest ← many nextField
      blank
      let _ ← optional separator
      blank
      pure ((first :: rest).mapM id)) := rfl
  rw [hlist, run_rule, run_blank_bind]
  simp only [bind_eq_some, run_blank_bind, run_pure]
  constructor
  · rintro ⟨first, mid, hfirst, rest, left, hrest, _, left', hseparator, h⟩
    obtain ⟨hrow, hlength⟩ := row_of_many hrest
    have hforms : (first :: rest).mapM id = forms := congrArg Prod.fst (Option.some.inj h)
    have hend : skipBlank false left' = [] := congrArg Prod.snd (Option.some.inj h)
    refine ⟨first, rest, mid, left, hfirst, hrow, hlength, ?_, hforms.symm⟩
    -- A separator that is left out is not there to be read: then only blanks are left.
    rcases optional_eq_some hseparator with ⟨-, rfl, -⟩ | ⟨-, u, -, hu⟩
    · exact .inl (by rwa [skipBlank_skipBlank] at hend)
    · rcases separator_eq_some.mp hu with hleft | hleft
      · exact .inr ⟨';', left', hleft, .inl rfl, hend⟩
      · exact .inr ⟨',', left', hleft, .inr rfl, hend⟩
  · rintro ⟨first, rest, mid, left, hfirst, hrow, hlength, hfinished, rfl⟩
    refine ⟨first, mid, hfirst, rest, left,
      hrow.run_manyWithin rfl hfinished.nextField_eq_none hlength, ?_⟩
    rcases hfinished with hnil | ⟨c, rest', hleft, hc, hend⟩
    · exact ⟨none, [], by rw [hnil]; rfl, rfl⟩
    · have hseparator : separator.run (skipBlank false left) = some ((), rest') :=
        separator_eq_some.mpr (by
          rw [hleft]
          rcases hc with rfl | rfl
          · exact .inl rfl
          · exact .inr rfl)
      exact ⟨some (), rest', run_optional_some hseparator (by simp [hleft]), by rw [hend]⟩

/-- The field that a form denotes, wherever the form stands. -/
def Denotes (implicitInt : Bool) (form : Denoted FieldForm) (f : Field) : Prop :=
  ∃ a, form = .ok a ∧ ∀ origin size, Field.ofForm implicitInt origin size a = .ok f

/-- Where a form stands matters only to what is wrong with it. -/
lemma ofForm_eq_ok {implicitInt : Bool} {origin origin' : Origin} {size size' : Nat}
    {a b : FieldForm} {f : Field} (hab : a.unplaced = b.unplaced)
    (h : Field.ofForm implicitInt origin size a = .ok f) :
    Field.ofForm implicitInt origin' size' b = .ok f := by
  obtain ⟨start, text, description⟩ := a
  obtain ⟨start', text', description'⟩ := b
  cases hab
  rcases description with _ | ⟨pattern, length, qualifiers⟩
  · exact h
  · simp only [Field.ofForm] at h ⊢
    cases hspec : Spec.ofQualifiers implicitInt qualifiers with
    | ok spec => simpa [hspec] using h
    | error cause => simp [hspec] at h

lemma denotes_unplaced {implicitInt : Bool} {form : Denoted FieldForm} {f : Field} :
    Denotes implicitInt (FieldForm.unplaced <$> form) f ↔ Denotes implicitInt form f := by
  constructor
  · rintro ⟨a, hform, ha⟩
    obtain ⟨b, rfl, hb⟩ := result_map_eq_ok.mp hform
    exact ⟨b, rfl, fun origin size => ofForm_eq_ok (by rw [← hb]; rfl) (ha origin size)⟩
  · rintro ⟨a, rfl, ha⟩
    exact ⟨a.unplaced, rfl, fun origin size => ofForm_eq_ok rfl (ha origin size)⟩

/-- Forms that differ in their places only denote the same fields. -/
lemma denotes_of_unplaced {implicitInt : Bool} {forms forms' : List (Denoted FieldForm)}
    {fs : List Field} (h : List.Forall₂ (Denotes implicitInt) forms fs)
    (hsame : forms'.map (FieldForm.unplaced <$> ·) = forms.map (FieldForm.unplaced <$> ·)) :
    List.Forall₂ (Denotes implicitInt) forms' fs := by
  have hunplaced (forms : List (Denoted FieldForm)) :
      List.Forall₂ (Denotes implicitInt) (forms.map (FieldForm.unplaced <$> ·)) fs ↔
        List.Forall₂ (Denotes implicitInt) forms fs := by
    rw [List.forall₂_map_left_iff]
    simp only [denotes_unplaced]
  rwa [← hunplaced, hsame, hunplaced]

/-- A list of forms makes a list of fields if each of them denotes one. -/
lemma denotes_mapM {implicitInt : Bool} (origin : Origin) (size : Nat)
    {forms : List (Denoted FieldForm)} {fs : List Field} :
    (∃ as, forms.mapM id = .ok as ∧ as.mapM (Field.ofForm implicitInt origin size) = .ok fs) ↔
      List.Forall₂ (Denotes implicitInt) forms fs := by
  simp only [result_mapM_eq_ok, id_eq]
  constructor
  · rintro ⟨as, has, hfs⟩
    induction has generalizing fs with
    | nil =>
        cases hfs
        exact .nil
    | cons ha _ ih =>
        cases hfs with
        | cons hf hfs => exact .cons ⟨_, ha, fun _ _ => ofForm_eq_ok rfl hf⟩ (ih hfs)
  · intro h
    induction h with
    | nil => exact ⟨[], .nil, .nil⟩
    | cons hf _ ih =>
        obtain ⟨as, has, hfs⟩ := ih
        obtain ⟨a, ha, hf⟩ := hf
        exact ⟨a :: as, .cons ha has, .cons (hf origin size) hfs⟩

lemma readText_eq_ok {α : Type} {reader : Reader (Denoted α)} {what : String}
    {code : Report.Code} {origin : Origin} {text : String} {a : α} :
    readText reader what code origin text = .ok a ↔
      reader.run text.toList = some (.ok a, []) := by
  rw [← readAll_eq_ok, readText]
  cases readAll reader text.toList with
  | error offset => simp
  | ok x => cases x <;> simp

/-- A text parses to the fields that the forms in it denote. -/
lemma parseList_eq_ok {implicitInt : Bool} {origin : Origin} {text : String} {fs : List Field} :
    Field.parseList implicitInt origin text = .ok fs ↔ ∃ first rest mid left,
      field.run (skipBlank false text.toList) = some (first, mid) ∧ Row nextField mid rest left ∧
        rest.length ≤ mid.length ∧ Finished left ∧
          List.Forall₂ (Denotes implicitInt) (first :: rest) fs := by
  rw [Field.parseList, result_bind_eq_ok]
  simp only [readText_eq_ok, fieldList_eq_some]
  constructor
  · rintro ⟨as, ⟨first, rest, mid, left, hfirst, hrow, hlength, hfinished, has⟩, hfs⟩
    exact ⟨first, rest, mid, left, hfirst, hrow, hlength, hfinished,
      (denotes_mapM origin text.length).mp ⟨as, has.symm, hfs⟩⟩
  · rintro ⟨first, rest, mid, left, hfirst, hrow, hlength, hfinished, hfs⟩
    obtain ⟨as, has, hfs⟩ := (denotes_mapM origin text.length).mpr hfs
    exact ⟨as, ⟨first, rest, mid, left, hfirst, hrow, hlength, hfinished, has.symm⟩, hfs⟩

/-- Where a list of fields comes from makes no difference to the fields. -/
lemma parseList_origin {implicitInt : Bool} {origin : Origin} {text : String} {fs : List Field}
    (h : Field.parseList implicitInt origin text = .ok fs) (origin' : Origin) :
    Field.parseList implicitInt origin' text = .ok fs :=
  parseList_eq_ok.mpr (parseList_eq_ok.mp h)

/-! ## What lists of fields show -/

lemma fieldParts_shows : Tracks (Shows []) fieldParts := by
  have htext (s : String) (hs : s.toList.all isPlain = true) : Tracks (Shows []) (text s) :=
    text_shows s hs fun _ hc => by cases hc
  have hexpr : Tracks (Shows []) expr := expr_shows (by simp) (by simp)
  have hqualifiers : Tracks (Shows []) qualifiers :=
    .rule (hexpr.bind fun _ => (Tracks.rule (blank_shows.bind fun _ =>
      (htext "," (by decide)).bind fun _ => blank_shows.bind fun _ =>
        (Tracks.absent _).bind fun _ => hexpr)).many.bind fun _ => .pure _)
  have hpart : Tracks (Shows []) qualifierPart :=
    .rule (blank_shows.bind fun _ => (htext ":" (by decide)).bind fun _ =>
      blank_shows.bind fun _ => hqualifiers)
  exact (pattern_shows (by simp)).bind fun _ => blank_shows.bind fun _ =>
    (htext ":" (by decide)).bind fun _ => blank_shows.bind fun _ => hexpr.bind fun _ =>
      hpart.optional.bind fun _ => .pure _

lemma field_shows : Tracks (Shows []) field := by
  have hwildcard : Tracks (Shows []) wildcard := wordOf_shows (by simp) _
  exact .rule (.or (.rule (Tracks.left.bind fun _ => (Tracks.withText fieldParts_shows).bind
    fun _ => .pure _)) (.rule (Tracks.left.bind fun _ => hwildcard.bind fun _ =>
      (Tracks.absent _).bind fun _ => .pure _)))

lemma nextField_shows : Tracks (Shows []) nextField := by
  have htext (s : String) (hs : s.toList.all isPlain = true) : Tracks (Shows []) (text s) :=
    text_shows s hs fun _ hc => by cases hc
  exact .rule (blank_shows.bind fun _ => (Tracks.rule (.or (htext ";" (by decide))
    (htext "," (by decide)))).bind fun _ => blank_shows.bind fun _ => field_shows)

/-! ## One list behind the other -/

lemma nextField_extends (h : Behind more) :
    Extends more (fun left => FieldEnds (left ++ more)) ((FieldForm.unplaced <$> ·) <$> nextField)
      ((FieldForm.unplaced <$> ·) <$> nextField) := by
  intro cs form left hr hleft
  obtain ⟨form, hform, rfl⟩ := map_eq_some.mp hr
  obtain ⟨c, mid, hmid, hc, hfield⟩ := nextField_eq_some.mp hform
  obtain ⟨form', hfield', hsame⟩ :=
    map_eq_some.mp (field_extends h (map_eq_some.mpr ⟨form, hfield, rfl⟩) hleft)
  have hne : skipBlank false mid ≠ [] := fun hnil => by
    rw [hnil] at hfield
    cases hfield
  refine map_eq_some.mpr ⟨form', nextField_eq_some.mpr ⟨c, mid ++ more, ?_, hc, ?_⟩, hsame⟩
  · rw [skipBlank_append more (by simp [hmid]), hmid, List.cons_append]
  · rw [skipBlank_append more hne, hfield']

/-- A separator and a field end the field before them. -/
lemma nextField_ends {cs left : List Char} {form : Denoted FieldForm}
    (h : nextField.run cs = some (form, left)) (hleft : ∀ c ∈ next left, c = ';' ∨ c = ',') :
    FieldEnds cs := by
  obtain ⟨c, mid, hmid, hc, hfield⟩ := nextField_eq_some.mp h
  exact ⟨c, mid, hmid, hc.imp_right fun hc => ⟨hc, fieldStart_of_field hfield hleft⟩⟩

/-- A separator follows a field in a list, or nothing does. -/
lemma next_of_row {cs left : List Char} {rest : List (Denoted FieldForm)}
    (hrow : Row nextField cs rest left) (hfinished : Finished left) :
    ∀ c ∈ next cs, c = ';' ∨ c = ',' := by
  intro c hc
  obtain ⟨tail, htail⟩ := next_eq_some.mp hc
  cases hrow with
  | nil =>
      rcases hfinished with hnil | ⟨d, rest, hcs, hd, -⟩
      · cases hnil.symm.trans htail
      · cases hcs.symm.trans htail
        exact hd
  | cons hform _ =>
      obtain ⟨d, mid, hcs, hd, -⟩ := nextField_eq_some.mp hform
      cases hcs.symm.trans htail
      exact hd

/-- The fields of a list are read from a text with more behind it, too. -/
lemma fields_append (h : Behind more) {cs mid left : List Char} {first : Denoted FieldForm}
    {rest : List (Denoted FieldForm)} (hfirst : field.run cs = some (first, mid))
    (hrow : Row nextField mid rest left) (hleft : FieldEnds (left ++ more)) :
    ∃ first' rest', field.run (cs ++ more) = some (first', mid ++ more) ∧
      Row nextField (mid ++ more) rest' (left ++ more) ∧
        (first' :: rest').map (FieldForm.unplaced <$> ·) =
          (first :: rest).map (FieldForm.unplaced <$> ·) := by
  have hnext {cs left : List Char} {form : Denoted FieldForm}
      (hform : ((FieldForm.unplaced <$> ·) <$> nextField).run cs = some (form, left))
      (hleft : FieldEnds left) : FieldEnds cs := by
    obtain ⟨form, hform, -⟩ := map_eq_some.mp hform
    obtain ⟨c, hc, hsep⟩ := hleft.next_eq
    refine nextField_ends hform fun d hd => ?_
    cases hc.symm.trans hd
    exact hsep
  obtain ⟨hrow', hmid⟩ := (nextField_extends h).row (fun _ hform hleft => hnext hform hleft)
    (hrow.map (FieldForm.unplaced <$> ·)) hleft
  obtain ⟨rest', hrest', hrow'⟩ := hrow'.of_map
  obtain ⟨first', hfirst', hsame⟩ :=
    map_eq_some.mp (field_extends h (map_eq_some.mpr ⟨first, hfirst, rfl⟩) hmid)
  refine ⟨first', rest', hfirst', hrow', ?_⟩
  rw [List.map_cons, List.map_cons, hsame, hrest']

end BitPattern.Grammar

namespace BitPattern.Field

open Grammar Reader

/-- The last thing that a text shows is a separator. -/
def EndsInSeparator (text : String) : Prop :=
  ∃ c ∈ (visible .plain text.toList).getLast?, c = ';' ∨ c = ','

instance (text : String) : Decidable (EndsInSeparator text) :=
  decidable_of_iff
    ((visible .plain text.toList).getLast?.any (fun c => c == ';' || c == ',') = true) (by
      simp [EndsInSeparator, Option.any_eq_true])

/-- A list that does not end in a separator ends in a field and blanks. -/
lemma skipBlank_eq_nil {text : String} {mid left : List Char} {first : Denoted FieldForm}
    {rest : List (Denoted FieldForm)}
    (hfirst : field.run (skipBlank false text.toList) = some (first, mid))
    (hrow : Row nextField mid rest left) (hfinished : Finished left)
    (hlast : ¬EndsInSeparator text) : skipBlank false left = [] := by
  rcases hfinished with hnil | ⟨c, last, hleft, hc, hend⟩
  · exact hnil
  · have hblank : Shows [] text.toList (skipBlank false text.toList) := blank_shows rfl
    have hfields := IsTrans.trans _ _ _ (field_shows hfirst) (nextField_shows.row hrow)
    obtain ⟨-, shown, hshown, -⟩ := IsTrans.trans _ _ _ hblank hfields
    have hvisible := visible_of_skipBlank hleft (by rcases hc with rfl | rfl <;> decide)
    have hempty : visible .plain last = [] := by
      have hlast := visible_skipBlank false last
      rw [hend] at hlast
      exact hlast.symm
    refine absurd ⟨c, ?_, hc⟩ hlast
    rw [hshown, hvisible, hempty, List.append_nil, List.getLast?_concat, Option.mem_some]

/-- Lists of fields concatenate: a text without a separator at its end, a line feed, a separator and
another text are the fields of the first text and then those of the second one. -/
theorem parseList_append {implicitInt : Bool} {origin₁ origin₂ : Origin} {a b s : String}
    {fs gs : List Field} (ha : parseList implicitInt origin₁ a = .ok fs)
    (hb : parseList implicitInt origin₂ b = .ok gs) (hlast : ¬EndsInSeparator a)
    (hs : s = "," ∨ s = ";") (origin : Origin) :
    parseList implicitInt origin (a ++ "\n" ++ s ++ b) = .ok (fs ++ gs) := by
  obtain ⟨first, rest, mid, left, hfirst, hrow, hlength, hfinished, hfs⟩ := parseList_eq_ok.mp ha
  obtain ⟨first', rest', mid', left', hfirst', hrow', hlength', hfinished', hgs⟩ :=
    parseList_eq_ok.mp hb
  have hleft := skipBlank_eq_nil hfirst hrow hfinished hlast
  obtain ⟨c, hc, htext⟩ : ∃ c, (c = ';' ∨ c = ',') ∧
      (a ++ "\n" ++ s ++ b).toList = a.toList ++ '\n' :: c :: b.toList := by
    rcases hs with rfl | rfl
    · exact ⟨',', .inr rfl, by simp⟩
    · exact ⟨';', .inl rfl, by simp⟩
  have hbehind := Behind.line (c :: b.toList)
  -- The second list is read behind the separator as it is read alone.
  have hrest : skipBlank false (left ++ '\n' :: c :: b.toList) = c :: b.toList := by
    obtain ⟨inComment, hskip⟩ := skipBlank_append_of_eq_nil ('\n' :: c :: b.toList) hleft
    rw [hskip, skipBlank_line, skipBlank_cons]
    · rcases hc with rfl | rfl <;> decide
    · rcases hc with rfl | rfl <;> decide
  have hnext : nextField.run (left ++ '\n' :: c :: b.toList) = some (first', mid') :=
    nextField_eq_some.mpr ⟨c, b.toList, hrest, hc, hfirst'⟩
  have hends : FieldEnds (left ++ '\n' :: c :: b.toList) :=
    nextField_ends hnext (next_of_row hrow' hfinished')
  -- The first list is read alike in front of it, since its last field ends there.
  obtain ⟨first'', rest'', hfirst'', hrow'', hsame⟩ := fields_append hbehind hfirst hrow hends
  refine parseList_eq_ok.mpr ⟨first'', rest'' ++ first' :: rest', _, left', ?_,
    hrow''.append (.cons hnext hrow'), ?_, hfinished', ?_⟩
  · have hne : skipBlank false a.toList ≠ [] := fun hnil => by
      rw [hnil] at hfirst
      cases hfirst
    rw [htext, skipBlank_append _ hne, hfirst'']
  · have hrest'' : rest''.length = rest.length := by simpa using congrArg List.length hsame
    have hmid' : mid'.length ≤ b.toList.length :=
      ((field_shows hfirst').1.trans (skipBlank_suffix false b.toList)).length_le
    simp only [List.length_append, List.length_cons]
    omega
  · exact List.rel_append (denotes_of_unplaced hfs hsame) hgs

/-- A comma behind a qualifier and in front of a lone wildcard separates two fields. -/
theorem parseList_append_wildcard :
    parseList true (.alone "") "n:8:int" =
        .ok [⟨.var "n", some (.int 8), some .default, "n:8:int"⟩] ∧
      parseList true (.alone "") "_" = .ok [⟨.wildcard, none, none, "_"⟩] ∧
        ¬EndsInSeparator "n:8:int" ∧
          parseList true (.alone "") ("n:8:int" ++ "\n" ++ "," ++ "_") =
            .ok ([⟨.var "n", some (.int 8), some .default, "n:8:int"⟩] ++
              [⟨.wildcard, none, none, "_"⟩]) := by
  have ha : parseList true (.alone "") "n:8:int" =
      .ok [⟨.var "n", some (.int 8), some .default, "n:8:int"⟩] := by decide +kernel
  have hb : parseList true (.alone "") "_" = .ok [⟨.wildcard, none, none, "_"⟩] := by decide +kernel
  have hlast : ¬EndsInSeparator "n:8:int" := by decide
  exact ⟨ha, hb, hlast, parseList_append ha hb hlast (.inl rfl) _⟩

end BitPattern.Field
