import BitPattern.Proofs.Grammar.Field

/-!
# Match sources, one after the other

Two match sources on consecutive lines are the source of the arms of both:
`Case.parseSource_append`.  The bar that introduces an arm could go on with the body before it, but
no operator is read in front of the head of an arm (`ends_of_arm`), so a body ends there.  Blanks
behind the last arm run on into the second source, which they may.
-/

namespace BitPattern.Grammar

open BitPattern.Text Reader

/-! ## Arms -/

/-- The bar that may introduce an arm. -/
def armBar : Reader Unit := rule do
  text "|"
  blank

/-- The text behind the bar that introduces an arm, if there is one. -/
def afterBar : List Char → List Char
  | '|' :: rest => skipBlank false rest
  | cs => cs

/-- The text behind a semicolon, if there is one. -/
def dropSemicolon : List Char → List Char
  | ';' :: rest => rest
  | cs => cs

lemma dropSemicolon_eq_self {cs : List Char} (h : ∀ rest, cs ≠ ';' :: rest) :
    dropSemicolon cs = cs := by
  unfold dropSemicolon
  split
  · rename_i rest
    exact absurd rfl (h rest)
  · rfl

/-- The text behind the semicolon that ends an arm, if there is one, and the blanks around it. -/
def afterEnd (cs : List Char) : List Char :=
  skipBlank false (dropSemicolon (skipBlank false cs))

/-- The form of an arm. -/
def armForm (start : Nat) (fields : Denoted (List UInt8)) (body : Denoted Expr) :
    Denoted ArmForm := do
  let fields ← fields
  let body ← body
  pure ⟨start - 1, fields, body⟩

lemma run_armBar (cs : List Char) :
    ∃ bar, (optional armBar).run cs = some (bar, afterBar cs) := by
  unfold afterBar
  split
  · rename_i rest
    refine ⟨some (), run_optional_some ?_ (by simp)⟩
    rw [armBar, run_rule]
    exact bind_eq_some.mpr ⟨(), rest, text_eq_some.mpr rfl, rfl⟩
  · rename_i hbar
    refine ⟨none, run_optional_none ?_⟩
    rw [armBar, run_rule, run_bind, text_eq_none.mpr, Option.bind_none]
    rintro ⟨rest, rfl⟩
    exact hbar rest rfl

lemma run_semicolon (cs : List Char) :
    ∃ last, (optional (rule (text ";"))).run cs = some (last, dropSemicolon cs) := by
  unfold dropSemicolon
  split
  · rename_i rest
    exact ⟨some (), run_optional_some (by rw [run_rule]; exact text_eq_some.mpr rfl) (by simp)⟩
  · rename_i hlast
    refine ⟨none, run_optional_none ?_⟩
    rw [run_rule, text_eq_none]
    rintro ⟨rest, rfl⟩
    exact hlast rest rfl

lemma arm_eq_some {cs left : List Char} {form : Denoted ArmForm} :
    arm.run cs = some (form, left) ↔ ∃ start fields mid body rest,
      armHead.run (afterBar cs) = some ((start, fields), mid) ∧
        expr.run (skipBlank false mid) = some (body, rest) ∧ left = afterEnd rest ∧
          form = armForm start fields body := by
  have harm : arm = rule (do
      let _ ← optional armBar
      let head ← armHead
      blank
      let body ← expr
      blank
      let _ ← optional (rule (text ";"))
      blank
      pure (armForm head.1 head.2 body)) := rfl
  rw [harm, run_rule]
  obtain ⟨bar, hbar⟩ := run_armBar cs
  simp only [bind_eq_some, run_blank_bind, run_pure, hbar, Option.some.injEq, Prod.mk.injEq]
  constructor
  · rintro ⟨_, _, ⟨rfl, rfl⟩, ⟨start, fields⟩, mid, hhead, body, rest, hbody, _, _, hlast, hform,
      hleft⟩
    obtain ⟨last, hlast'⟩ := run_semicolon (skipBlank false rest)
    cases hlast.symm.trans hlast'
    exact ⟨start, fields, mid, body, rest, hhead, hbody, hleft.symm, hform.symm⟩
  · rintro ⟨start, fields, mid, body, rest, hhead, hbody, rfl, rfl⟩
    obtain ⟨last, hlast⟩ := run_semicolon (skipBlank false rest)
    exact ⟨_, _, ⟨rfl, rfl⟩, _, mid, hhead, body, rest, hbody, _, _, hlast, rfl, rfl⟩

lemma arm_nil : arm.run [] = none := rfl

/-! ## Where arms end -/

/-- Nothing follows, or an arm does. -/
def ArmEnds (cs : List Char) : Prop :=
  cs = [] ∨ ∃ r, arm.run cs = some r

/-- An arm begins with a string literal or with a bar in front of one. -/
lemma arm_begins {cs : List Char} {r : Denoted ArmForm × List Char} (h : arm.run cs = some r) :
    (∃ rest, cs = '"' :: rest) ∨ ∃ rest r', cs = '|' :: rest ∧
      armHead.run (skipBlank false rest) = some r' := by
  obtain ⟨form, left⟩ := r
  obtain ⟨start, fields, mid, body, rest, hhead, -⟩ := arm_eq_some.mp h
  unfold afterBar at hhead
  split at hhead
  · exact .inr ⟨_, _, rfl, hhead⟩
  · obtain ⟨fields', mid', hfields, -⟩ := armHead_eq_some.mp hhead
    exact .inl (stringLiteral_begins hfields)

/-- No operator is read in front of an arm. -/
lemma ends_of_arm {cs : List Char} (h : ArmEnds (skipBlank false cs)) : Ends 0 cs := by
  rcases h with hnil | ⟨r, hr⟩
  · exact ends_of_next fun c hc => by
      obtain ⟨rest, hrest⟩ := next_eq_some.mp hc
      cases hnil.symm.trans hrest
  · rcases arm_begins hr with ⟨rest, hcs⟩ | ⟨rest, r', hcs, hhead⟩
    · exact ends_of_next_eq (next_eq_some.mpr ⟨rest, hcs⟩) (by decide)
    · refine ⟨fun hnext => ?_, fun harrow => ?_, fun l _ => ?_⟩
      · obtain ⟨rest', hrest'⟩ := next_eq_some.mp hnext
        cases hcs.symm.trans hrest'
      · obtain ⟨rest', hrest'⟩ := harrow
        cases hcs.symm.trans hrest'.symm
      · rw [hcs, l.op_bar_eq_none hhead]

/-! ## Arms with more text behind -/

/-- An arm without its place. -/
def ArmForm.unplaced (arm : ArmForm) : ArmForm :=
  { arm with left := 0 }

lemma unplaced_armForm {start start' : Nat} {fields : Denoted (List UInt8)} {body : Denoted Expr} :
    ArmForm.unplaced <$> armForm start fields body =
      ArmForm.unplaced <$> armForm start' fields body := by
  simp [armForm, ArmForm.unplaced]

lemma armHead_append {cs left : List Char} {start : Nat} {fields : Denoted (List UInt8)}
    (hr : armHead.run cs = some ((start, fields), left)) (more : List Char) :
    ∃ start', armHead.run (cs ++ more) = some ((start', fields), left ++ more) := by
  obtain ⟨fields', mid, hfields, harrow, heq⟩ := armHead_eq_some.mp hr
  cases heq
  have hextends : Extends more (fun _ => True) stringLiteral stringLiteral := stringLiteral_extends
  refine ⟨_, armHead_eq_some.mpr ⟨fields, mid ++ more, hextends hfields trivial, ?_, rfl⟩⟩
  rw [skipBlank_append more (by simp [harrow]), harrow, List.append_assoc]

/-- The bar in front of an arm is found with more text behind, too. -/
lemma afterBar_append {cs : List Char} {r : (Nat × Denoted (List UInt8)) × List Char}
    (h : armHead.run (afterBar cs) = some r) (more : List Char) :
    afterBar (cs ++ more) = afterBar cs ++ more := by
  obtain ⟨fields, mid, hfields, -⟩ := armHead_eq_some.mp h
  obtain ⟨rest, hrest⟩ := stringLiteral_begins hfields
  cases cs with
  | nil => cases hrest
  | cons c cs =>
      by_cases hc : c = '|'
      · subst hc
        have hskip : skipBlank false cs ≠ [] := by
          change skipBlank false cs = _ at hrest
          simp [hrest]
        exact skipBlank_append more hskip
      · have hbar (tail : List Char) : afterBar (c :: tail) = c :: tail := by
          unfold afterBar
          split
          · rename_i heq
            cases heq
            exact absurd rfl hc
          · rfl
        rw [List.cons_append, hbar, hbar, List.cons_append]

/-- Where another arm or nothing follows, a body ends, and its end is the same with further lines
behind it. -/
lemma afterEnd_append {cs more : List Char}
    (h : ArmEnds (skipBlank false (afterEnd cs ++ '\n' :: more))) :
    Ends 0 (cs ++ '\n' :: more) ∧
      afterEnd (cs ++ '\n' :: more) = skipBlank false (afterEnd cs ++ '\n' :: more) := by
  by_cases hlast : ∃ rest, skipBlank false cs = ';' :: rest
  · obtain ⟨rest, hrest⟩ := hlast
    have hskip : skipBlank false (cs ++ '\n' :: more) = ';' :: (rest ++ '\n' :: more) := by
      rw [skipBlank_append _ (by simp [hrest]), hrest, List.cons_append]
    refine ⟨ends_of_next_eq (next_eq_some.mpr ⟨_, hskip⟩) (by decide), ?_⟩
    rw [afterEnd, hskip, afterEnd, hrest]
    exact skipBlank_append_line false rest more
  · have hend : afterEnd cs = skipBlank false cs := by
      rw [afterEnd, dropSemicolon_eq_self fun rest hrest => hlast ⟨rest, hrest⟩,
        skipBlank_skipBlank]
    rw [hend, ← skipBlank_append_line] at h ⊢
    refine ⟨ends_of_arm h, ?_⟩
    rw [afterEnd, dropSemicolon_eq_self, skipBlank_skipBlank]
    intro rest hrest
    rw [hrest] at h
    rcases h with hnil | ⟨r, hr⟩
    · cases hnil
    · rcases arm_begins hr with ⟨_, hcs⟩ | ⟨_, _, hcs, -⟩ <;> cases hcs

/-- An arm is read from a text with further lines behind it as from the text alone, but for its
place, if another arm or nothing follows. -/
lemma arm_append {cs left more : List Char} (h : Behind ('\n' :: more)) {form : Denoted ArmForm}
    (hr : arm.run cs = some (form, left))
    (hleft : ArmEnds (skipBlank false (left ++ '\n' :: more))) :
    ∃ form', arm.run (cs ++ '\n' :: more) =
        some (form', skipBlank false (left ++ '\n' :: more)) ∧
      ArmForm.unplaced <$> form' = ArmForm.unplaced <$> form := by
  obtain ⟨start, fields, mid, body, rest, hhead, hbody, rfl, rfl⟩ := arm_eq_some.mp hr
  obtain ⟨start', hhead'⟩ := armHead_append hhead ('\n' :: more)
  obtain ⟨hends, hend⟩ := afterEnd_append hleft
  have hmid : skipBlank false mid ≠ [] := fun hnil => by
    rw [hnil, ExprAt.begins_nil (expr_operands .nil).begins] at hbody
    cases hbody
  refine ⟨armForm start' fields body, arm_eq_some.mpr ⟨start', fields, mid ++ '\n' :: more, body,
    rest ++ '\n' :: more, ?_, ?_, hend.symm, rfl⟩, unplaced_armForm⟩
  · rw [afterBar_append hhead, hhead']
  · rw [skipBlank_append _ hmid]
    exact (expr_operands h).reads hbody hends

/-! ## Rows of arms -/

/-- The arms of a text are read in front of the arms of another one, too. -/
lemma arms_append {cs more : List Char} (h : Behind ('\n' :: more))
    (hmore : ArmEnds (skipBlank false more)) {forms : List (Denoted ArmForm)}
    (hrow : Row arm cs forms []) (hcs : skipBlank false cs = cs) :
    ArmEnds (skipBlank false (cs ++ '\n' :: more)) ∧ ∃ forms',
      Row arm (skipBlank false (cs ++ '\n' :: more)) forms' (skipBlank false more) ∧
        forms'.map (ArmForm.unplaced <$> ·) = forms.map (ArmForm.unplaced <$> ·) := by
  generalize hnil : ([] : List Char) = left at hrow
  induction hrow with
  | nil cs =>
      subst hnil
      rw [List.nil_append, skipBlank_line]
      exact ⟨hmore, [], .nil _, rfl⟩
  | @cons cs mid left form forms hform hrow ih =>
      obtain ⟨start, fields, _, body, rest, -, -, hmid, -⟩ := arm_eq_some.mp hform
      obtain ⟨hends, forms', hrow', hsame⟩ := ih (by rw [hmid, afterEnd, skipBlank_skipBlank]) hnil
      obtain ⟨form', hform', hsame'⟩ := arm_append h hform hends
      have hne : skipBlank false cs ≠ [] := fun heq => by
        rw [← hcs, heq, arm_nil] at hform
        cases hform
      rw [skipBlank_append _ hne, hcs]
      exact ⟨.inr ⟨_, hform'⟩, form' :: forms', .cons hform' hrow', by
        rw [List.map_cons, List.map_cons, hsame', hsame]⟩

/-- What a source is read as: a row of arms that takes all of it. -/
lemma source_eq_some {cs : List Char} {forms : Denoted (List ArmForm)} :
    source.run cs = some (forms, []) ↔ ∃ row, Row arm (skipBlank false cs) row [] ∧
      row.length ≤ (skipBlank false cs).length ∧ forms = row.mapM id := by
  rw [source, run_rule, run_blank_bind]
  simp only [bind_eq_some, run_pure, Option.some.injEq, Prod.mk.injEq]
  constructor
  · rintro ⟨row, left, hmany, rfl, rfl⟩
    obtain ⟨hrow, hlength⟩ := row_of_many hmany
    exact ⟨row, hrow, hlength, rfl⟩
  · rintro ⟨row, hrow, hlength, rfl⟩
    exact ⟨row, [], hrow.run_manyWithin arm_nil arm_nil hlength, rfl, rfl⟩

lemma length_skipBlank_line (cs more : List Char) :
    (skipBlank false cs).length + (skipBlank false more).length ≤
      (skipBlank false (cs ++ '\n' :: more)).length := by
  have hmore := (skipBlank_suffix false more).length_le
  rw [skipBlank_append_line]
  by_cases hnil : skipBlank false cs = []
  · rw [hnil, List.nil_append, skipBlank_line, List.length_nil, Nat.zero_add]
  · rw [skipBlank_append _ (by rwa [skipBlank_skipBlank]), skipBlank_skipBlank, List.length_append,
      List.length_cons]
    omega

/-- Rows of arms concatenate, with a line feed between their texts. -/
lemma source_append {a b : List Char} {as bs : List (Denoted ArmForm)}
    (ha : Row arm (skipBlank false a) as []) (hb : Row arm (skipBlank false b) bs []) :
    ∃ as', Row arm (skipBlank false (a ++ '\n' :: b)) (as' ++ bs) [] ∧
      as'.map (ArmForm.unplaced <$> ·) = as.map (ArmForm.unplaced <$> ·) := by
  have hends : ArmEnds (skipBlank false b) := by
    generalize skipBlank false b = cs at hb
    generalize hnil : ([] : List Char) = left at hb
    cases hb with
    | nil => exact .inl hnil.symm
    | cons hform _ => exact .inr ⟨_, hform⟩
  obtain ⟨-, as', has, hsame⟩ := arms_append (.line b) hends ha (skipBlank_skipBlank false a)
  rw [← skipBlank_append_line] at has
  exact ⟨as', has.append hb, hsame⟩

/-! ## Cases -/

/-- The case that an arm describes, wherever it stands. -/
lemma ofArm_eq_ok {implicitInt : Bool} {file source : String} {index : Nat} {arm : ArmForm}
    {c : Case} : Case.ofArm implicitInt file source index arm = .ok c ↔
      ∃ fields, (∀ origin, Field.parseList implicitInt origin (latin arm.fields) = .ok fields) ∧
        c = ⟨latin arm.fields, fields, .expr arm.body, index⟩ := by
  simp only [Case.ofArm, result_bind_eq_ok]
  constructor
  · rintro ⟨fields, hfields, h⟩
    cases h
    exact ⟨fields, parseList_origin hfields, rfl⟩
  · rintro ⟨fields, hfields, rfl⟩
    exact ⟨fields, hfields _, rfl⟩

/-- Arms that differ in their places only are all there if one list of them is. -/
lemma exists_of_unplaced {forms : List (Denoted ArmForm)} {as : List ArmForm}
    (h : forms.map (ArmForm.unplaced <$> ·) =
      (as.map Except.ok : List (Denoted ArmForm)).map (ArmForm.unplaced <$> ·)) :
    ∃ as' : List ArmForm, forms = as'.map .ok ∧
      as'.map ArmForm.unplaced = as.map ArmForm.unplaced := by
  induction as generalizing forms with
  | nil => exact ⟨[], by simpa using h, rfl⟩
  | cons a as ih =>
      cases forms with
      | nil => cases h
      | cons form forms =>
          obtain ⟨hform, hforms⟩ := List.cons.inj h
          obtain ⟨a', rfl, ha⟩ := result_map_eq_ok.mp hform
          obtain ⟨as', rfl, has⟩ := ih hforms
          exact ⟨a' :: as', rfl, by rw [List.map_cons, List.map_cons, ha, has]⟩

end BitPattern.Grammar

namespace BitPattern.Case

open Grammar Reader

/-- The case with an index that is larger by a number. -/
def shift (n : Nat) (c : Case) : Case :=
  { c with index := c.index + n }

lemma shift_zero (c : Case) : c.shift 0 = c := by
  simp [shift]

lemma ofArms_cons {implicitInt : Bool} {file source : String} {n : Nat} {a : ArmForm}
    {as : List ArmForm} {cs : List Case} :
    ofArms implicitInt file source n (a :: as) = .ok cs ↔ ∃ c cs',
      ofArm implicitInt file source n a = .ok c ∧
        ofArms implicitInt file source (n + 1) as = .ok cs' ∧ cs = c :: cs' := by
  rw [ofArms]
  simp only [result_bind_eq_ok]
  constructor
  · rintro ⟨c, hc, cs', hcs, h⟩
    cases h
    exact ⟨c, cs', hc, hcs, rfl⟩
  · rintro ⟨c, cs', hc, hcs, rfl⟩
    exact ⟨c, hc, cs', hcs, rfl⟩

lemma length_of_ofArms {implicitInt : Bool} {file source : String} {n : Nat} {as : List ArmForm}
    {cs : List Case} (h : ofArms implicitInt file source n as = .ok cs) :
    cs.length = as.length := by
  induction as generalizing n cs with
  | nil =>
      cases h
      rfl
  | cons a as ih =>
      obtain ⟨c, cs, -, hcs, rfl⟩ := ofArms_cons.mp h
      rw [List.length_cons, List.length_cons, ih hcs]

lemma ofArms_append {implicitInt : Bool} {file source : String} {n : Nat} {as bs : List ArmForm}
    {cs ds : List Case} (has : ofArms implicitInt file source n as = .ok cs)
    (hbs : ofArms implicitInt file source (n + as.length) bs = .ok ds) :
    ofArms implicitInt file source n (as ++ bs) = .ok (cs ++ ds) := by
  induction as generalizing n cs with
  | nil =>
      cases has
      exact hbs
  | cons a as ih =>
      obtain ⟨c, cs, hc, hcs, rfl⟩ := ofArms_cons.mp has
      have hcount : n + (a :: as).length = n + 1 + as.length := by
        rw [List.length_cons]
        omega
      rw [hcount] at hbs
      exact ofArms_cons.mpr ⟨c, cs ++ ds, hc, ih hcs hbs, rfl⟩

/-- Where arms stand does not matter to their cases, and neither does the number they are counted
from, but for the indices. -/
lemma ofArms_shift {implicitInt : Bool} {file file' source source' : String} {n : Nat} (k : Nat)
    {as as' : List ArmForm} {cs : List Case} (h : ofArms implicitInt file source n as = .ok cs)
    (hsame : as'.map ArmForm.unplaced = as.map ArmForm.unplaced) :
    ofArms implicitInt file' source' (n + k) as' = .ok (cs.map (shift k)) := by
  induction as generalizing n cs as' with
  | nil =>
      cases h
      obtain rfl := List.map_eq_nil_iff.mp hsame
      rfl
  | cons a as ih =>
      cases as' with
      | nil => cases hsame
      | cons a' as' =>
          obtain ⟨ha, has⟩ := List.cons.inj hsame
          obtain ⟨c, cs, hc, hcs, rfl⟩ := ofArms_cons.mp h
          obtain ⟨fields, hfields, rfl⟩ := ofArm_eq_ok.mp hc
          have hrest := ih hcs has
          rw [Nat.add_right_comm] at hrest
          obtain ⟨start, fieldBytes, body⟩ := a
          obtain ⟨start', fieldBytes', body'⟩ := a'
          cases ha
          exact ofArms_cons.mpr ⟨_, _, ofArm_eq_ok.mpr ⟨fields, hfields, rfl⟩, hrest, by
            simp [shift]⟩

/-- A source parses to the cases that the arms in it describe. -/
lemma parseSource_eq_ok {implicitInt : Bool} {file text : String} {cs : List Case} :
    parseSource implicitInt file text = .ok cs ↔ ∃ as,
      Row arm (skipBlank false text.toList) (as.map .ok) [] ∧
        as.length ≤ (skipBlank false text.toList).length ∧
          ofArms implicitInt file text 0 as = .ok cs := by
  rw [parseSource, result_bind_eq_ok]
  simp only [readText_eq_ok, source_eq_some]
  constructor
  · rintro ⟨as, ⟨row, hrow, hlength, hforms⟩, hcs⟩
    obtain rfl := result_mapM_id_eq_ok.mp hforms.symm
    exact ⟨as, hrow, by simpa using hlength, hcs⟩
  · rintro ⟨as, hrow, hlength, hcs⟩
    exact ⟨as, ⟨_, hrow, by simpa using hlength, (result_mapM_id_eq_ok.mpr rfl).symm⟩, hcs⟩

/-- A source whose arms are read parses to what they describe. -/
lemma parseSource_of_read {implicitInt : Bool} {file text : String} {as : List ArmForm}
    (hread : readAll source text.toList = .ok (.ok as)) :
    parseSource implicitInt file text = ofArms implicitInt file text 0 as := by
  rw [parseSource, readText, hread]
  rfl

/-- Match sources concatenate: two sources with a line feed between them are the cases of the first
one and then those of the second one, which are counted on. -/
theorem parseSource_append {implicitInt : Bool} {file₁ file₂ a b : String} {cs ds : List Case}
    (ha : parseSource implicitInt file₁ a = .ok cs) (hb : parseSource implicitInt file₂ b = .ok ds)
    (file : String) :
    parseSource implicitInt file (a ++ "\n" ++ b) = .ok (cs ++ ds.map (shift cs.length)) := by
  obtain ⟨as, hrow, hlength, hcs⟩ := parseSource_eq_ok.mp ha
  obtain ⟨bs, hrow', hlength', hds⟩ := parseSource_eq_ok.mp hb
  -- The arms are read one after the other, only at other places.
  obtain ⟨forms, hforms, hsame⟩ := source_append hrow hrow'
  obtain ⟨as', rfl, hunplaced⟩ := exists_of_unplaced hsame
  have htext : (a ++ "\n" ++ b).toList = a.toList ++ '\n' :: b.toList := by simp
  have hcount : as'.length = as.length := by simpa using congrArg List.length hunplaced
  have hfirst : ofArms implicitInt file (a ++ "\n" ++ b) (0 + 0) as' = .ok (cs.map (shift 0)) :=
    ofArms_shift 0 hcs hunplaced
  have hsecond : ofArms implicitInt file (a ++ "\n" ++ b) (0 + cs.length) bs =
      .ok (ds.map (shift cs.length)) := ofArms_shift cs.length hds rfl
  refine parseSource_eq_ok.mpr ⟨as' ++ bs, ?_, ?_, ofArms_append ?_ ?_⟩
  · rwa [htext, List.map_append]
  · have hlines := length_skipBlank_line a.toList b.toList
    rw [htext, List.length_append, hcount]
    omega
  · rwa [List.map_id'' shift_zero] at hfirst
  · rw [hcount, ← length_of_ofArms hcs, hsecond]

/-- The bar in front of an arm does not go on with the body of the source before it. -/
theorem parseSource_append_bar :
    parseSource true "" "\"_\" -> 1" =
        .ok [⟨"_", [⟨.wildcard, none, none, "_"⟩], .expr (.int 1), 0⟩] ∧
      parseSource true "" "| \"_\" -> 2;" =
          .ok [⟨"_", [⟨.wildcard, none, none, "_"⟩], .expr (.int 2), 0⟩] ∧
        parseSource true "" ("\"_\" -> 1" ++ "\n" ++ "| \"_\" -> 2;") =
          .ok ([⟨"_", [⟨.wildcard, none, none, "_"⟩], .expr (.int 1), 0⟩] ++
            [⟨"_", [⟨.wildcard, none, none, "_"⟩], .expr (.int 2), 0⟩].map (shift 1)) := by
  have hfirst : readAll source "\"_\" -> 1".toList = .ok (.ok [⟨7, [0x5F], .int 1⟩]) := by
    decide +kernel
  have hsecond : readAll source "| \"_\" -> 2;".toList = .ok (.ok [⟨8, [0x5F], .int 2⟩]) := by
    decide +kernel
  have ha : parseSource true "" "\"_\" -> 1" =
      .ok [⟨"_", [⟨.wildcard, none, none, "_"⟩], .expr (.int 1), 0⟩] :=
    parseSource_of_read hfirst
  have hb : parseSource true "" "| \"_\" -> 2;" =
      .ok [⟨"_", [⟨.wildcard, none, none, "_"⟩], .expr (.int 2), 0⟩] :=
    parseSource_of_read hsecond
  exact ⟨ha, hb, parseSource_append ha hb ""⟩

end BitPattern.Case
