import BitPattern.Proofs.Plan.Lexical
import BitPattern.Proofs.Text.Hidden
import BitPattern.Proofs.Text.Lines

/-!
# The lines of a listing

Of all that a listing shows, only the texts of the fields, which are its comments, can bring in a
character that quoting hides and names do not have: numbers and quoted texts lack it, locals are
made of plain characters, and the names of an environment are identifiers (`planCase_clean`).  A
comment shows the words of a text, so no line break is in it, either.

Hence what is emitted as a line is read as a line.  `CasePlan.listing_eq` says which lines the
function of a case has, and `moduleText_eq` which lines make a module.
-/

namespace BitPattern

open BitPattern.Text

variable {c : Char}

/-! ## Expressions -/

lemma BinOp.code_lacks (h : Hidden c) (op : BinOp) :
    (∀ sign, op.code = .inl sign → Lacks c sign) ∧
      ∀ function, op.code = .inr function → Lacks c function := by
  cases op <;> simp (disch := decide) [BinOp.code, h.literal]

lemma UnOp.code_lacks (h : Hidden c) (op : UnOp) : Lacks c op.code := by
  cases op <;> exact h.literal (by decide)

namespace Expr

lemma codesOf_eq_map (es : List Expr) : codesOf es = es.map code := by
  induction es with
  | nil => rfl
  | cons e es ih => rw [codesOf, ih, List.map_cons]

/-- The code of an expression lacks a hidden character if its names do. -/
lemma code_lacks (h : Hidden c) {e : Expr} (hnames : ∀ x ∈ e.freeNames, Lacks c x) :
    Lacks c e.code := by
  induction e with
  | int n => exact h.decimal n
  | bytes b => exact h.quotedBytes b
  | bool b => exact h.dumpBool b
  | name x => exact hnames x (by simp)
  | binary op left right ihl ihr =>
      have hleft := ihl fun x hx => hnames x (by simp [hx])
      have hright := ihr fun x hx => hnames x (by simp [hx])
      rw [code]
      split
      · rename_i sign hsign
        simp (disch := decide) [h.literal, hleft, hright, (op.code_lacks h).1 sign hsign]
      · rename_i function hfunction
        simp (disch := decide) [h.literal, hleft, hright, (op.code_lacks h).2 function hfunction]
  | unary op operand ih =>
      have hoperand := ih fun x hx => hnames x (by simpa using hx)
      rw [code]
      simp (disch := decide) [h.literal, hoperand, op.code_lacks h]
  | call function args ih =>
      have hfunction := hnames function (by simp)
      have hsep : Lacks c ", " := h.literal (by decide)
      have hargs : ∀ s ∈ args.map code, Lacks c s := by
        intro s hs
        obtain ⟨e, he, rfl⟩ := List.mem_map.mp hs
        exact ih e he fun x hx => hnames x (by simp; exact Or.inr ⟨e, he, hx⟩)
      rw [code, codesOf_eq_map]
      simp (disch := decide) only [lacks_append, h.literal, hfunction, lacks_intercalate hsep,
        true_and, and_true]
      exact hargs
  | tuple items ih =>
      rw [code, codesOf_eq_map]
      refine h.dumpTuple fun s hs => ?_
      obtain ⟨e, he, rfl⟩ := List.mem_map.mp hs
      exact ih e he fun x hx => hnames x (by simp; exact ⟨e, he, hx⟩)

end Expr

namespace Plan

/-! ## Fields -/

/-- A line with something on it, which lacks the character. -/
def Solid (c : Char) (line : String) : Prop :=
  Nonblank line ∧ Lacks c line

lemma fresh_lacks (h : Hidden c) {kind : String} (hkind : Lacks c kind) (number : Nat) :
    Lacks c (fresh kind number) := by
  simp (disch := decide) [fresh, h.literal, hkind, h.repr]

/-- The plan of a field whose comment, locals and expressions lack the character. -/
structure FieldPlan.Clean (c : Char) (plan : FieldPlan) : Prop where
  text : Lacks c (joinWords plan.text)
  locals : ∀ x ∈ plan.locals, Lacks c x
  length : ∀ e, plan.length = .computed e → Lacks c e.code
  order : ∀ e native, plan.order = .computed e native → Lacks c e.code
  rebind : ∀ e ∈ plan.rebind, Lacks c e.code
  check : ∀ e ∈ plan.check, Lacks c e.code
  jump : ∀ e ∈ plan.jump, Lacks c e.code

/-- The names of a cursor lack the character. -/
structure Cursor.Clean (c : Char) (cursor : Cursor) : Prop where
  off : Lacks c cursor.off
  len : Lacks c cursor.len

lemma Cursor.start_clean (h : Hidden c) : Cursor.start.Clean c :=
  ⟨h.literal (by decide), h.literal (by decide)⟩

lemma cursor_clean (h : Hidden c) (number : Nat) :
    Cursor.Clean c ⟨fresh "off" (number + 1), fresh "len" (number + 2)⟩ :=
  ⟨fresh_lacks h (h.literal (by decide)) _, fresh_lacks h (h.literal (by decide)) _⟩

variable {plan : FieldPlan} {cursor : Cursor}

lemma FieldPlan.Clean.widthLines (h : Hidden c) (hplan : plan.Clean c) (hcursor : cursor.Clean c)
    (number : Nat) : (∀ line ∈ (plan.widthLines cursor number).1, Solid c line) ∧
      Lacks c (plan.widthLines cursor number).2.1 := by
  have hlen := hcursor.len
  have hn : Lacks c (fresh "n" (number + 1)) := fresh_lacks h (h.literal (by decide)) _
  unfold FieldPlan.widthLines
  split
  · rename_i n _
    refine ⟨?_, h.decimal n⟩
    simp (disch := decide) [giveUp, Solid, Nonblank.literal, h.literal, hlen, h.decimal]
  · refine ⟨?_, hlen⟩
    split <;> simp (disch := decide) [giveUp, Solid, Nonblank.literal, h.literal, hlen]
  · rename_i e he
    have hcode := hplan.length e he
    refine ⟨?_, hn⟩
    split <;> simp (disch := decide) [giveUp, Solid, Nonblank.literal, h.literal, hlen, hn, hcode]

lemma Test.code_lacks (h : Hidden c) {value : String} (hvalue : Lacks c value) (test : Test) :
    Lacks c (test.code value) := by
  cases test with
  | equal d => simp (disch := decide) [Test.code, h.literal, hvalue, h.constant d]
  | among d e ds =>
      have hsep : Lacks c ", " := h.literal (by decide)
      simp (disch := decide) [Test.code, h.literal, hvalue, lacks_intercalate hsep, h.constant]

lemma FieldPlan.Clean.readCode (h : Hidden c) (hplan : plan.Clean c) (hcursor : cursor.Clean c)
    {width : String} (hwidth : Lacks c width) : Lacks c (plan.readCode cursor width) := by
  have hoff := hcursor.off
  have horder : Lacks c plan.order.code := by
    cases hcase : plan.order with
    | named name => exact h.quoted name
    | computed e native =>
        change Lacks c ("_bm_resolve_endian(" ++ e.code ++ ", " ++ Text.quoted native ++ ")")
        simp only [lacks_append]
        exact ⟨⟨⟨⟨h.literal (by decide), hplan.order e native hcase⟩, h.literal (by decide)⟩,
          h.quoted native⟩, h.literal (by decide)⟩
  have hbytes : Lacks c (plan.bytesCode width) := by
    unfold FieldPlan.bytesCode
    split
    · exact h.decimal _
    all_goals simp (disch := decide) [h.literal, hwidth]
  unfold FieldPlan.readCode
  split <;> simp (disch := decide) [h.literal, hoff, hwidth, horder, hbytes, h.dumpBool]

lemma FieldPlan.Clean.bindLines (h : Hidden c) (hplan : plan.Clean c) {value : String}
    (hvalue : Lacks c value) : ∀ line ∈ plan.bindLines value, Solid c line := by
  intro line hline
  obtain ⟨x, hx, rfl⟩ := List.mem_map.mp hline
  simp (disch := decide) [Solid, Nonblank.literal, h.literal, hplan.locals x hx, hvalue]

lemma FieldPlan.Clean.valueLines (h : Hidden c) (hplan : plan.Clean c) {value : String}
    (hvalue : Lacks c value) : ∀ line ∈ plan.valueLines value, Solid c line := by
  have hbind := hplan.bindLines h hvalue
  -- What is tested and checked, in one condition.
  have hconditions : ∀ s ∈ (plan.test.map (Test.code value)).toList
      ++ (plan.check.map Expr.code).toList, Lacks c s := by
    intro s hs
    rcases List.mem_append.mp hs with hs | hs
    · obtain ⟨test, -, rfl⟩ := Option.map_eq_some_iff.mp (Option.mem_toList.mp hs)
      exact Test.code_lacks h hvalue test
    · obtain ⟨e, he, rfl⟩ := Option.map_eq_some_iff.mp (Option.mem_toList.mp hs)
      exact hplan.check e he
  have hand : Lacks c " and " := h.literal (by decide)
  have hall := (lacks_intercalate hand).mpr hconditions
  unfold FieldPlan.valueLines
  refine List.forall_mem_append.mpr ⟨List.forall_mem_append.mpr ⟨hbind, ?_⟩, ?_⟩
  · split
    · rename_i e he
      have hcode := hplan.rebind e he
      refine List.forall_mem_cons.mpr ⟨?_, hbind⟩
      simp (disch := decide) [Solid, Nonblank.literal, h.literal, hvalue, hcode]
    · simp
  · split
    · simp
    · generalize " and ".intercalate _ = code at hall
      simp (disch := decide) [Solid, Nonblank.literal, h.literal, hall, giveUp]

lemma FieldPlan.advanceLines_clean (h : Hidden c) (plan : FieldPlan) (hcursor : cursor.Clean c)
    {width : String} (hwidth : Lacks c width) (number : Nat) :
    (∀ line ∈ (plan.advanceLines cursor width number).1, Solid c line) ∧
      (plan.advanceLines cursor width number).2.Clean c := by
  have hnext := cursor_clean h number
  have hnextOff := hnext.off
  have hnextLen := hnext.len
  have hoff := hcursor.off
  have hlen := hcursor.len
  refine ⟨?_, hnext⟩
  unfold FieldPlan.advanceLines
  split <;>
    simp (disch := decide) [Solid, Nonblank.literal, h.literal, hnextOff, hnextLen, hoff, hlen,
      hwidth]

lemma jumpLines_clean (h : Hidden c) {e : Expr} (he : Lacks c e.code) (number : Nat) :
    (∀ line ∈ (jumpLines e number).1, Solid c line) ∧ (jumpLines e number).2.Clean c := by
  have hnext := cursor_clean h number
  have hoff := hnext.off
  have hlen := hnext.len
  refine ⟨?_, hnext⟩
  unfold jumpLines
  simp (disch := decide) [Solid, Nonblank.literal, h.literal, hoff, hlen, he, giveUp]

lemma FieldPlan.Clean.listing (h : Hidden c) (hplan : plan.Clean c) (hcursor : cursor.Clean c)
    (number : Nat) : (∀ line ∈ (plan.listing cursor number).1, Solid c line) ∧
      (plan.listing cursor number).2.1.Clean c := by
  obtain ⟨hwidthLines, hwidth⟩ := hplan.widthLines h hcursor number
  have hcomment : Solid c ("# " ++ joinWords plan.text) := by
    simp (disch := decide) [Solid, Nonblank.literal, h.literal, hplan.text]
  unfold FieldPlan.listing
  -- Each part of a listing is replaced by what is known of it, in the order of its numbers.
  generalize plan.widthLines cursor number = found at hwidthLines hwidth
  obtain ⟨widthLines, width, number⟩ := found
  have hreading : ∀ reading : List String × List String × Nat,
      reading = (if plan.reads = true then
        ([fresh "v" (number + 1) ++ " = " ++ plan.readCode cursor width],
          plan.valueLines (fresh "v" (number + 1)), number + 1)
        else ([], [], number)) →
      (∀ line ∈ reading.1, Solid c line) ∧ ∀ line ∈ reading.2.1, Solid c line := by
    rintro _ rfl
    have hvalue : Lacks c (fresh "v" (number + 1)) := fresh_lacks h (h.literal (by decide)) _
    have hread := hplan.readCode h hcursor hwidth
    split
    · refine ⟨List.forall_mem_singleton.mpr ?_, hplan.valueLines h hvalue⟩
      generalize plan.readCode cursor width = code at hread
      simp (disch := decide) [Solid, Nonblank.literal, h.literal, hvalue, hread]
    · simp
  dsimp only
  generalize hreads : (if plan.reads = true then
      ([fresh "v" (number + 1) ++ " = " ++ plan.readCode cursor width],
        plan.valueLines (fresh "v" (number + 1)), number + 1)
      else ([], [], number)) = reading
  obtain ⟨hread, hlines⟩ := hreading reading hreads.symm
  obtain ⟨readLines, valueLines, number⟩ := reading
  obtain ⟨hadvance, hnext⟩ := plan.advanceLines_clean h hcursor hwidth number
  generalize plan.advanceLines cursor width number = advance at hadvance hnext
  obtain ⟨advance, next⟩ := advance
  -- The lines of the field, before it jumps.
  have hall : ∀ line ∈ ["# " ++ joinWords plan.text] ++ widthLines ++ readLines ++ advance
      ++ valueLines, Solid c line := by
    simp only [List.forall_mem_append, List.forall_mem_singleton]
    exact ⟨⟨⟨⟨hcomment, hwidthLines⟩, hread⟩, hadvance⟩, hlines⟩
  split
  · exact ⟨hall, hnext⟩
  · rename_i e he
    obtain ⟨hjump, hafter⟩ := jumpLines_clean h (hplan.jump e he) (number + 2)
    exact ⟨List.forall_mem_append.mpr ⟨hall, hjump⟩, hafter⟩

lemma fieldsListing_clean (h : Hidden c) {plans : List FieldPlan}
    (hplans : ∀ plan ∈ plans, plan.Clean c) (hcursor : cursor.Clean c) (number : Nat) :
    ∀ line ∈ (fieldsListing cursor number plans).1, Solid c line := by
  induction plans generalizing cursor number with
  | nil => simp [fieldsListing]
  | cons plan plans ih =>
      obtain ⟨hplan, hplans⟩ := List.forall_mem_cons.mp hplans
      obtain ⟨hlines, hnext⟩ := hplan.listing h hcursor number
      unfold fieldsListing
      exact List.forall_mem_append.mpr ⟨hlines, ih hplans hnext _⟩

/-- The listing of a field starts with its text, as a comment. -/
lemma FieldPlan.mem_listing (plan : FieldPlan) (cursor : Cursor) (number : Nat) :
    "# " ++ joinWords plan.text ∈ (plan.listing cursor number).1 := by
  unfold FieldPlan.listing
  cases plan.jump <;> simp

lemma mem_fieldsListing {plans : List FieldPlan} (hplan : plan ∈ plans) (cursor : Cursor)
    (number : Nat) : "# " ++ joinWords plan.text ∈ (fieldsListing cursor number plans).1 := by
  induction plans generalizing cursor number with
  | nil => cases hplan
  | cons first plans ih =>
      unfold fieldsListing
      rcases List.mem_cons.mp hplan with rfl | hplan
      · exact List.mem_append_left _ (plan.mem_listing cursor number)
      · exact List.mem_append_right _ (ih hplan _ _)

/-! ## Cases -/

/-- The plan of a case of which nothing brings the character into a listing. -/
structure CasePlan.Clean (c : Char) (plan : CasePlan) : Prop where
  fields : ∀ field ∈ plan.fields, field.Clean c
  body : Solid c (plan.body.line plan.index)

lemma CasePlan.Clean.bodyListing (h : Hidden c) {plan : CasePlan} (hplan : plan.Clean c)
    (hcursor : cursor.Clean c) (number : Nat) :
    ∀ line ∈ (plan.bodyListing cursor number).1, Solid c line :=
  List.forall_mem_append.mpr
    ⟨fieldsListing_clean h hplan.fields hcursor number, List.forall_mem_singleton.mpr hplan.body⟩

/-! ## Planned cases -/

section Planned

variable {ctx : Context} {bound : List String}

/-- Environments whose names can be referred to show no hidden character. -/
lemma lacks_of_checkEnv (h : Hidden c) {env : List String} (henv : checkEnv env = .ok ()) :
    ∀ x ∈ env, Lacks c x := by
  intro x hx
  unfold checkEnv at henv
  split at henv
  · cases henv
  · rename_i hnone
    have husable := List.find?_eq_none.mp hnone x hx
    simp only [isUsable, Bool.not_eq_true, Bool.not_eq_false', Bool.and_eq_true] at husable
    exact h.of_isIdentifier husable.1.1

lemma lacks_of_isExpressionName (h : Hidden c) {x : String} (hx : isExpressionName x = true) :
    Lacks c x := by
  have hplain : ∀ y ∈ expressionNames.map Prod.fst, y.toList.all isPlainAscii = true := by
    decide
  exact h.literal (hplain x (by simpa [isExpressionName] using hx))

lemma localOf_lacks (h : Hidden c) (henv : ∀ x ∈ ctx.env, Lacks c x) {x : String}
    (hx : Known bound ctx.env x) : Lacks c (localOf bound x) := by
  unfold localOf
  split
  · exact h.localName x
  · rename_i hbound
    rcases hx with hx | hx | hx
    · exact absurd hx hbound
    · exact henv x hx
    · exact lacks_of_isExpressionName h hx

lemma renamed_code_lacks (h : Hidden c) (henv : ∀ x ∈ ctx.env, Lacks c x) {e : Expr}
    (hknown : ∀ x ∈ e.freeNames, Known bound ctx.env x) :
    Lacks c (e.rename (localOf bound)).code := by
  refine Expr.code_lacks h fun y hy => ?_
  obtain ⟨x, hx, rfl⟩ := Expr.mem_freeNames_rename.mp hy
  exact localOf_lacks h henv (hknown x hx)

lemma FieldPlan.resolved_clean (h : Hidden c) (henv : ∀ x ∈ ctx.env, Lacks c x)
    (htext : Lacks c (joinWords plan.text)) (hknown : KnownUses ctx.env (plan.uses bound)) :
    (plan.resolved bound).Clean c := by
  have hinner : ∀ e, e ∈ plan.rebind ∨ e ∈ plan.check ∨ e ∈ plan.jump →
      Lacks c (e.rename (localOf (plan.namesAfter bound))).code := fun e he =>
    renamed_code_lacks h henv
      (hknown (plan.namesAfter bound, e) (FieldPlan.inner_mem_uses he))
  -- The text, the locals, the length, the byte order, the new value, the check and the jump.
  refine ⟨htext, ?_, ?_, ?_, ?_, ?_, ?_⟩
  · intro y hy
    obtain ⟨x, -, rfl⟩ := List.mem_map.mp hy
    exact h.localName x
  · intro e' he'
    cases hlength : plan.length with
    | fixed n => simp [FieldPlan.resolved, Length.rename, hlength] at he'
    | rest => simp [FieldPlan.resolved, Length.rename, hlength] at he'
    | computed e =>
        simp only [FieldPlan.resolved, Length.rename, hlength, Length.computed.injEq] at he'
        rw [← he']
        exact renamed_code_lacks h henv (hknown (bound, e) (by simp [FieldPlan.uses, hlength]))
  · intro e' native he'
    cases horder : plan.order with
    | named name => simp [FieldPlan.resolved, Order.rename, horder] at he'
    | computed e native =>
        simp only [FieldPlan.resolved, Order.rename, horder, Order.computed.injEq] at he'
        rw [← he'.1]
        exact renamed_code_lacks h henv (hknown (bound, e) (by simp [FieldPlan.uses, horder]))
  · intro e' he'
    obtain ⟨e, he, rfl⟩ := Option.map_eq_some_iff.mp he'
    exact hinner e (.inl he)
  · intro e' he'
    obtain ⟨e, he, rfl⟩ := Option.map_eq_some_iff.mp he'
    exact hinner e (.inr (.inl he))
  · intro e' he'
    obtain ⟨e, he, rfl⟩ := Option.map_eq_some_iff.mp he'
    exact hinner e (.inr (.inr he))

lemma resolvedFields_clean (h : Hidden c) (henv : ∀ x ∈ ctx.env, Lacks c x)
    {plans : List FieldPlan} (htexts : ∀ plan ∈ plans, Lacks c (joinWords plan.text))
    (hknown : KnownUses ctx.env (usesOf bound plans)) :
    ∀ plan ∈ resolvedFields bound plans, plan.Clean c := by
  induction plans generalizing bound with
  | nil => simp [resolvedFields]
  | cons plan plans ih =>
      obtain ⟨htext, htexts⟩ := List.forall_mem_cons.mp htexts
      refine List.forall_mem_cons.mpr ⟨?_, ih htexts fun use huse => ?_⟩
      · exact FieldPlan.resolved_clean h henv htext fun use huse =>
          hknown use (List.mem_append_left _ huse)
      · exact hknown use (List.mem_append_right _ huse)

lemma argumentsCode_lacks (h : Hidden c) {args : List (String × String)}
    (hargs : ∀ arg ∈ args, Lacks c arg.2) : Lacks c (argumentsCode args) := by
  have hsep : Lacks c ", " := h.literal (by decide)
  refine (lacks_intercalate hsep).mpr fun s hs => ?_
  rcases List.mem_append.mp hs with hs | hs
  · obtain ⟨arg, harg, rfl⟩ := List.mem_map.mp hs
    obtain ⟨harg, hsame⟩ := List.mem_filter.mp harg
    have hname : Lacks c arg.1 := by
      rw [← (by simpa using hsame : arg.2 = arg.1)]
      exact hargs arg harg
    simp (disch := decide) [plainArgument, h.literal, hname]
  · split at hs
    · cases hs
    · rw [List.mem_singleton.mp hs]
      have hall : Lacks c (", ".intercalate ((args.filter fun arg => arg.2 != arg.1).map
          fun arg => Text.quoted arg.1 ++ ": " ++ arg.2)) := by
        refine (lacks_intercalate hsep).mpr fun s hs => ?_
        obtain ⟨arg, harg, rfl⟩ := List.mem_map.mp hs
        simp only [lacks_append]
        exact ⟨⟨h.quoted _, h.literal (by decide)⟩, hargs arg (List.mem_of_mem_filter harg)⟩
      simp only [renamedArguments, lacks_append]
      exact ⟨⟨h.literal (by decide), hall⟩, h.literal (by decide)⟩

lemma BodyPlan.resolved_line_solid (h : Hidden c) (henv : ∀ x ∈ ctx.env, Lacks c x)
    {body : BodyPlan} (hknown : KnownUses ctx.env (body.uses bound)) (index : Int) :
    Solid c ((body.resolved bound).line index) := by
  cases body with
  | value e =>
      have hcode := renamed_code_lacks h henv (hknown (bound, e) (by simp [BodyPlan.uses]))
      change Solid c ("return _bm_Matched(" ++ (e.rename (localOf bound)).code ++ ")")
      simp (disch := decide) [Solid, Nonblank.literal, h.literal, hcode]
  | call callable args =>
      have hargs : Lacks c (argumentsCode (args.map fun arg => (arg.1, localOf bound arg.2))) := by
        refine argumentsCode_lacks h fun arg harg => ?_
        obtain ⟨arg', harg', rfl⟩ := List.mem_map.mp harg
        exact localOf_lacks h henv
          (hknown (bound, .name arg'.2) (List.mem_map.mpr ⟨arg', harg', rfl⟩) arg'.2 (by simp))
      have hindex := h.decimal index
      change Solid c ("return _bm_Matched(" ++ ("_bm_body_" ++ Text.decimal index) ++ "("
        ++ argumentsCode (args.map fun arg => (arg.1, localOf bound arg.2)) ++ "))")
      generalize argumentsCode _ = code at hargs ⊢
      generalize Text.decimal index = digits at hindex ⊢
      simp (disch := decide) [Solid, Nonblank.literal, h.literal, hindex, hargs]

/-- Only the text of a field can bring a hidden character into the listing of a planned case. -/
lemma planCase_clean (h : Hidden c) (henv : checkEnv ctx.env = .ok ()) {case : Case}
    {plan : CasePlan} (hplan : planCase ctx case = .ok plan)
    (htexts : ∀ field ∈ effectiveFields case, Lacks c (joinWords field.text)) :
    plan.Clean c := by
  have hnames := lacks_of_checkEnv h henv
  obtain ⟨rfl, hknown⟩ := planCase_eq_resolved hplan
  refine ⟨resolvedFields_clean h hnames ?_ fun use huse => hknown use (List.mem_append_left _ huse),
    BodyPlan.resolved_line_solid h hnames (fun use huse =>
      hknown use (List.mem_append_right _ huse)) _⟩
  intro plan hplan
  obtain ⟨field, hfield, rfl⟩ := List.mem_map.mp hplan
  exact htexts field hfield

end Planned

end Plan

end BitPattern
