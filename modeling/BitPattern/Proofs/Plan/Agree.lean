import BitPattern.Proofs.Plan.Scoping

/-!
# Names that a case does not mention

Two runs of a case that differ only in what some names stand for, none of which the case mentions,
are the same run.  `AgreeOff` is agreement of values with those names left out, and everything that
a run carries along agrees in this sense at every boundary between fields (`runFields_agree`), so
the bodies give the same value (`CasePlan.runWith_agree`).

The two runs may also differ in the plan.  `FieldPlan.Agree` is what two plans of a field need to
have in common: the same widths and byte orders, however they come about, and locals that differ in
names that are left out.  A plan whose expressions have none of these names agrees with itself
(`FieldPlan.agree_self`), and the plan of a case that does not mention them has such expressions
(`avoids_of_free`).
-/

namespace BitPattern

/-- Renaming an expression depends on what its names are renamed to. -/
lemma Expr.rename_congr {f g : String → String} {e : Expr} (h : ∀ x ∈ e.freeNames, f x = g x) :
    e.rename f = e.rename g := by
  have hall : ∀ es : List Expr, (∀ e ∈ es, e.rename f = e.rename g) →
      renameAll f es = renameAll g es := by
    intro es hes
    rw [renameAll_eq_map, renameAll_eq_map]
    exact List.map_congr_left hes
  induction e with
  | int n => rfl
  | bytes b => rfl
  | bool b => rfl
  | name x => rw [rename, rename, h x (by simp)]
  | binary op left right ihl ihr =>
      rw [rename, rename, ihl fun x hx => h x (by simp [hx]), ihr fun x hx => h x (by simp [hx])]
  | unary op operand ih => rw [rename, rename, ih fun x hx => h x (by simpa using hx)]
  | call function args ih =>
      rw [rename, rename, h function (by simp),
        hall args fun e he => ih e he fun x hx => h x (by simp; exact .inr ⟨e, he, hx⟩)]
  | tuple items ih =>
      rw [rename, rename,
        hall items fun e he => ih e he fun x hx => h x (by simp; exact ⟨e, he, hx⟩)]

namespace Plan

open BitPattern.Text Run

variable {out : List String} {names names' : Names} {subject : Bitstring}

/-! ## Values and names -/

/-- Values of names that agree, some names being left out. -/
def AgreeOff (out : List String) (a b : List (String × Value)) : Prop :=
  ∀ x, x ∉ out → a.lookup x = b.lookup x

lemma AgreeOff.refl (a : List (String × Value)) : AgreeOff out a a :=
  fun _ _ => rfl

/-- Names that stand for the same where values agree, some names being left out. -/
def NamesAgree (out : List String) (names names' : Names) : Prop :=
  ∀ bound bound', AgreeOff out bound bound' → ∀ x, x ∉ out → names bound x = names' bound' x

/-- Locals that are the same, some names being left out. -/
def LocalsAgree (out locals locals' : List String) : Prop :=
  ∀ x, x ∉ out → (x ∈ locals ↔ x ∈ locals')

lemma LocalsAgree.map {locals locals' : List String} (h : LocalsAgree out locals locals')
    (f : String → String) : LocalsAgree (out.map f) (locals.map f) (locals'.map f) := by
  intro y hy
  have hnew : ∀ x, f x = y → x ∉ out := by
    rintro x rfl hx
    exact hy (List.mem_map_of_mem hx)
  simp only [List.mem_map]
  exact exists_congr fun x => and_congr_left fun hxy => h x (hnew x hxy)

lemma lookup_bindLocals (bound : List (String × Value)) (locals : List String) (v : Value)
    (x : String) :
    (bindLocals bound locals v).lookup x = if x ∈ locals then some v else bound.lookup x := by
  unfold bindLocals
  induction locals generalizing bound with
  | nil => simp
  | cons y locals ih =>
      rw [List.foldl_cons, ih, lookup_cons_eq]
      by_cases hx : x ∈ locals
      · simp [hx]
      · by_cases hxy : x = y <;> simp [hx, hxy]

lemma AgreeOff.bindLocals {bound bound' : List (String × Value)} (h : AgreeOff out bound bound')
    {locals locals' : List String} (hlocals : LocalsAgree out locals locals') (v : Value) :
    AgreeOff out (bindLocals bound locals v) (bindLocals bound' locals' v) := by
  intro x hx
  simp only [lookup_bindLocals, hlocals x hx, h x hx]

/-- Frames agree if their locals do and everything else that no local hides. -/
lemma namesAgree_lookup {locals locals' : List String} {globals globals' : List (String × Value)}
    (hlocals : LocalsAgree out locals locals')
    (hglobals : ∀ x, x ∉ out → x ∉ locals → globals.lookup x = globals'.lookup x) :
    NamesAgree out (Frame.lookup ⟨locals, globals⟩) (Frame.lookup ⟨locals', globals'⟩) := by
  intro bound bound' hbound x hx
  by_cases hconstant : x = constantName
  · rw [hconstant, lookup_constant, lookup_constant]
  · by_cases hlocal : x ∈ locals
    · rw [lookup_local hconstant hlocal, lookup_local hconstant ((hlocals x hx).mp hlocal),
        hbound x hx]
    · have hlocal' : x ∉ locals' := fun h => hlocal ((hlocals x hx).mpr h)
      rw [lookup_global hconstant hlocal, lookup_global hconstant hlocal', hglobals x hx hlocal]

/-- An expression without the names that are left out has the same value. -/
lemma eval_agree (hnames : NamesAgree out names names') {bound bound' : List (String × Value)}
    (hbound : AgreeOff out bound bound') {e : Expr} (he : ∀ x ∈ e.freeNames, x ∉ out) :
    e.eval (names bound) = e.eval (names' bound') :=
  Expr.eval_congr fun x hx => hnames bound bound' hbound x (he x hx)

/-! ## Fields -/

/-- Two states at one place with values that agree, some names being left out. -/
structure State.Agree (out : List String) (s s' : State) : Prop where
  off : s.off = s'.off
  len : s.len = s'.len
  bound : AgreeOff out s.bound s'.bound

/-- Two runs of states that are the same run up to the values of names that are left out. -/
abbrev StatesAgree (out : List String) (r r' : Run (Option State)) : Prop :=
  Related Eq Eq (Option.Rel (State.Agree out)) r r'

/-- A field none of whose expressions has a name that is left out. -/
def FieldPlan.Avoids (out : List String) (plan : FieldPlan) : Prop :=
  ∀ use ∈ plan.uses [], ∀ x ∈ use.2.freeNames, x ∉ out

/-- Two plans of a field that read the same values and do the same to them, under names that agree
where some are left out. -/
structure FieldPlan.Agree (out : List String) (names names' : Names) (plan plan' : FieldPlan) :
    Prop where
  type : plan.type = plan'.type
  signed : plan.signed = plan'.signed
  reads : plan.reads = plan'.reads
  locals : LocalsAgree out plan.locals plan'.locals
  rebind : plan.rebind = plan'.rebind
  test : plan.test = plan'.test
  check : plan.check = plan'.check
  jump : plan.jump = plan'.jump
  avoids : plan.Avoids out
  width : ∀ bound bound', AgreeOff out bound bound' → ∀ len : Scalar, 0 ≤ len.toInt →
    plan.width (names bound) len = plan'.width (names' bound') len
  order : plan.type = .int → ∀ bound bound', AgreeOff out bound bound' →
    plan.order.eval (names bound) = plan'.order.eval (names' bound')

section Fields

variable {plan plan' : FieldPlan} {bound bound' : List (String × Value)} {s s' : State}

lemma FieldPlan.Avoids.inner (h : plan.Avoids out) {e : Expr}
    (he : e ∈ plan.rebind ∨ e ∈ plan.check ∨ e ∈ plan.jump) : ∀ x ∈ e.freeNames, x ∉ out :=
  h (plan.namesAfter [], e) (FieldPlan.inner_mem_uses he)

lemma FieldPlan.Avoids.width_eq (h : plan.Avoids out) (hnames : NamesAgree out names names')
    (hbound : AgreeOff out bound bound') (len : Scalar) :
    plan.width (names bound) len = plan.width (names' bound') len := by
  unfold FieldPlan.width
  split
  · rfl
  · rfl
  · rename_i e he
    rw [eval_agree hnames hbound (h ([], e) (by simp [FieldPlan.uses, he]))]

lemma FieldPlan.Avoids.order_eq (h : plan.Avoids out) (hnames : NamesAgree out names names')
    (hbound : AgreeOff out bound bound') :
    plan.order.eval (names bound) = plan.order.eval (names' bound') := by
  unfold Order.eval
  split
  · rfl
  · rename_i e native he
    rw [eval_agree hnames hbound (h ([], e) (by simp [FieldPlan.uses, he]))]

lemma FieldPlan.Avoids.read_eq (h : plan.Avoids out) (hnames : NamesAgree out names names')
    (hbound : AgreeOff out bound bound') (data : Bytes) (off : Int) (width : Scalar) :
    plan.read (names bound) data off width = plan.read (names' bound') data off width := by
  rw [FieldPlan.read_eq, FieldPlan.read_eq, h.order_eq hnames hbound]

lemma FieldPlan.Avoids.passes_eq (h : plan.Avoids out) (hnames : NamesAgree out names names')
    (hbound : AgreeOff out bound bound') (v : Value) :
    plan.passes names bound v = plan.passes names' bound' v := by
  unfold FieldPlan.passes
  split
  · split
    · rfl
    · rename_i e he
      rw [eval_agree hnames hbound (h.inner (.inr (.inl he)))]
  · rfl

/-- A field agrees with itself if its expressions have none of the names that are left out. -/
lemma FieldPlan.agree_self (hnames : NamesAgree out names names') (h : plan.Avoids out) :
    plan.Agree out names names' plan where
  type := rfl
  signed := rfl
  reads := rfl
  locals _ _ := Iff.rfl
  rebind := rfl
  test := rfl
  check := rfl
  jump := rfl
  avoids := h
  width _ _ hbound len _ := h.width_eq hnames hbound len
  order _ _ _ hbound := h.order_eq hnames hbound

lemma FieldPlan.Agree.read_eq (h : plan.Agree out names names' plan')
    (hbound : AgreeOff out bound bound') (data : Bytes) (off : Int) (width : Scalar) :
    plan.read (names bound) data off width = plan'.read (names' bound') data off width := by
  rw [FieldPlan.read_eq, FieldPlan.read_eq, ← h.type, ← h.signed]
  by_cases htype : plan.type = .int
  · rw [if_pos htype, if_pos htype, h.order htype bound bound' hbound]
  · rw [if_neg htype, if_neg htype]

/-- Two fields make the same of a value if they replace it by the same and a value passes the one
exactly if it passes the other. -/
lemma FieldPlan.accept_agree_of (hnames : NamesAgree out names names')
    (hbound : AgreeOff out bound bound') (hlocals : LocalsAgree out plan.locals plan'.locals)
    (hrebind : plan.rebind = plan'.rebind) (havoids : plan.Avoids out)
    (hpasses : ∀ w, plan.passes names (bindLocals bound plan.locals w) w =
      plan'.passes names' (bindLocals bound' plan'.locals w) w) (v : Value) :
    Related Eq Eq (Option.Rel (AgreeOff out)) (plan.accept names bound v)
      (plan'.accept names' bound' v) := by
  have hreplace : plan.replace names bound v = plan'.replace names' bound' v := by
    unfold FieldPlan.replace
    rw [← hrebind]
    split
    · rfl
    · rename_i e he
      exact eval_agree hnames (hbound.bindLocals hlocals v) (havoids.inner (.inl he))
  refine .bind (related_eq_iff.mpr hreplace) ?_
  rintro w _ - - rfl
  refine .bind (related_eq_iff.mpr (hpasses w)) ?_
  rintro passed _ - - rfl
  refine .pure ?_
  split
  · exact .some (hbound.bindLocals hlocals w)
  · exact .none

lemma FieldPlan.Agree.accept (h : plan.Agree out names names' plan')
    (hnames : NamesAgree out names names') (hbound : AgreeOff out bound bound') (v : Value) :
    Related Eq Eq (Option.Rel (AgreeOff out)) (plan.accept names bound v)
      (plan'.accept names' bound' v) := by
  refine FieldPlan.accept_agree_of hnames hbound h.locals h.rebind h.avoids (fun w => ?_) v
  rw [h.avoids.passes_eq hnames (hbound.bindLocals h.locals w)]
  unfold FieldPlan.passes
  rw [h.test, h.check]

lemma FieldPlan.Agree.consume (h : plan.Agree out names names' plan')
    (hnames : NamesAgree out names names') (hs : State.Agree out s s') (data : Bytes)
    (width : Scalar) :
    Related Eq Eq (Option.Rel (AgreeOff out)) (plan.consume names data s width)
      (plan'.consume names' data s' width) := by
  unfold FieldPlan.consume
  rw [← h.reads, ← hs.off]
  split
  · refine .bind (related_eq_iff.mpr (h.read_eq hs.bound data s.off width)) ?_
    rintro v _ - - rfl
    exact h.accept hnames hs.bound v
  · exact .pure (.some hs.bound)

/-- Where matching goes on depends on the jump alone. -/
lemma FieldPlan.goOn_agree (hnames : NamesAgree out names names') (hs : State.Agree out s s')
    (hjump : plan.jump = plan'.jump) (havoids : plan.Avoids out) :
    StatesAgree out (plan.goOn names subject s) (plan'.goOn names' subject s') := by
  unfold FieldPlan.goOn
  rw [← hjump]
  split
  · exact .pure (.some hs)
  · rename_i e he
    unfold jumpTo
    refine .bind (related_eq_iff.mpr
      (eval_agree hnames hs.bound (havoids.inner (.inr (.inr he))))) ?_
    rintro v _ - - rfl
    refine .bind (related_eq_iff.mpr rfl) ?_
    rintro n _ - - rfl
    refine .pure ?_
    split
    · exact .none
    · exact .some ⟨rfl, rfl, hs.bound⟩

/-- A field runs the same if it has the same width, consumes the same and goes on at the same
place. -/
lemma FieldPlan.run_agree_of (hnames : NamesAgree out names names')
    (hs : State.Agree out s s')
    (hwidth : plan.width (names s.bound) s.len = plan'.width (names' s'.bound) s'.len)
    (hconsume : ∀ width, (plan.width (names s.bound) s.len).result = .ok (some width) →
      Related Eq Eq (Option.Rel (AgreeOff out)) (plan.consume names subject.data s width)
        (plan'.consume names' subject.data s' width))
    (hjump : plan.jump = plan'.jump) (havoids : plan.Avoids out) :
    StatesAgree out (plan.run names subject s) (plan'.run names' subject s') := by
  refine .bind (related_eq_iff.mpr hwidth) ?_
  rintro width _ hfound - rfl
  cases width with
  | none => exact .pure .none
  | some width =>
      refine .bind (hconsume width hfound) ?_
      intro bound bound' _ _ hbound
      cases hbound with
      | none => exact .pure .none
      | some hbound =>
          refine FieldPlan.goOn_agree hnames ⟨?_, ?_, hbound⟩ hjump havoids
          · simp only [State.past, hs.off]
          · simp only [State.past, hs.len]

lemma FieldPlan.Agree.run (h : plan.Agree out names names' plan')
    (hnames : NamesAgree out names names') (hs : State.Agree out s s')
    (hwithin : s.Within subject) :
    StatesAgree out (plan.run names subject s) (plan'.run names' subject s') := by
  refine FieldPlan.run_agree_of hnames hs ?_ ?_ h.jump h.avoids
  · rw [h.width s.bound s'.bound hs.bound s.len hwithin.len_nonneg, hs.len]
  · intro width _
    exact h.consume hnames hs subject.data width

/-- **Lists of fields run the same**, up to the values of names that are left out. -/
lemma runFields_agree (hnames : NamesAgree out names names') {plans plans' : List FieldPlan}
    (h : List.Forall₂ (FieldPlan.Agree out names names') plans plans')
    (hplans : ∀ plan ∈ plans, plan.Measured) (hs : State.Agree out s s')
    (hwithin : s.Within subject) :
    StatesAgree out (runFields names subject s plans) (runFields names' subject s' plans') := by
  induction h generalizing s s' with
  | nil => exact .pure (.some hs)
  | @cons plan plan' plans plans' hplan _ ih =>
      obtain ⟨hmeasured, hplans⟩ := List.forall_mem_cons.mp hplans
      rw [runFields_cons, runFields_cons]
      refine .bind (hplan.run hnames hs hwithin) ?_
      intro next next' hnext _ hnexts
      cases hnexts with
      | none => exact .pure .none
      | some hnexts => exact ih hplans hnexts (FieldPlan.run_within hmeasured hwithin hnext)

/-- Fields that have none of the names that are left out run the same under names that agree. -/
lemma runFields_avoiding {plans : List FieldPlan} (hnames : NamesAgree out names names')
    (hplans : ∀ field ∈ plans, field.Measured ∧ field.Avoids out) (hs : State.Agree out s s')
    (hwithin : s.Within subject) :
    StatesAgree out (runFields names subject s plans) (runFields names' subject s' plans) :=
  runFields_agree hnames
    (List.forall₂_same.mpr fun field hfield => FieldPlan.agree_self hnames (hplans field hfield).2)
    (fun field hfield => (hplans field hfield).1) hs hwithin

end Fields

/-! ## Cases -/

lemma State.start_agree (subject : Bitstring) :
    State.Agree out (.start subject) (.start subject) :=
  ⟨rfl, rfl, AgreeOff.refl _⟩

/-- Bodies have the same value where the runs of their fields agree. -/
lemma CasePlan.runWith_agree_of {plan plan' : CasePlan}
    (hfields : StatesAgree out (runFields names subject (.start subject) plan.fields)
      (runFields names' subject (.start subject) plan'.fields))
    (hbody : ∀ bound bound', AgreeOff out bound bound' →
      plan.body.run (names bound) = plan'.body.run (names' bound')) :
    plan.runWith names subject = plan'.runWith names' subject := by
  have hruns : Related Eq Eq (Option.Rel Eq) (plan.runWith names subject)
      (plan'.runWith names' subject) := by
    refine .bind hfields ?_
    intro s s' _ _ hs
    cases hs with
    | none => exact .pure .none
    | @some s s' hs =>
        refine .bind (related_eq_iff.mpr (hbody s.bound s'.bound hs.bound)) ?_
        rintro v _ - - rfl
        exact .pure (.some rfl)
  refine related_eq_iff.mp (hruns.mono ?_)
  intro v v' hv
  cases hv with
  | none => rfl
  | some hv => rw [hv]

lemma BodyPlan.run_agree (hnames : NamesAgree out names names') {body : BodyPlan}
    (hbody : ∀ use ∈ body.uses [], ∀ x ∈ use.2.freeNames, x ∉ out)
    {bound bound' : List (String × Value)} (hbound : AgreeOff out bound bound') :
    body.run (names bound) = body.run (names' bound') := by
  cases body with
  | value e => exact eval_agree hnames hbound (hbody ([], e) (by simp [BodyPlan.uses]))
  | call callable args =>
      simp only [BodyPlan.run]
      congr 2
      refine result_mapM_congr ?_
      intro arg harg
      have hx : arg.2 ∉ out :=
        hbody ([], .name arg.2) (List.mem_map.mpr ⟨arg, harg, rfl⟩) arg.2 (by simp)
      rw [hnames bound bound' hbound arg.2 hx]

/-- **A case runs the same** under names that agree, if its expressions have none of those that are
left out. -/
lemma CasePlan.runWith_agree {plan : CasePlan} (hnames : NamesAgree out names names')
    (hmeasured : ∀ field ∈ plan.fields, field.Measured)
    (hfields : ∀ field ∈ plan.fields, field.Avoids out)
    (hbody : ∀ use ∈ plan.body.uses [], ∀ x ∈ use.2.freeNames, x ∉ out) :
    plan.runWith names subject = plan.runWith names' subject := by
  exact CasePlan.runWith_agree_of
    (runFields_avoiding hnames (fun field hfield => ⟨hmeasured field hfield, hfields field hfield⟩)
      (State.start_agree subject) (State.start_within subject))
    fun _ _ hbound => BodyPlan.run_agree hnames hbody hbound

/-! ## Names that a case does not mention -/

/-- A name that a case does not mention: it is not bound there nor the local of a name that is, and
no expression has it. -/
structure CasePlan.FreeOf (lexical : CasePlan) (x : String) : Prop where
  not_bound : x ∉ lexical.locals
  not_local : x ∉ lexical.locals.map localName
  not_used : ∀ use ∈ lexical.uses, x ∉ use.2.freeNames

instance (lexical : CasePlan) (x : String) : Decidable (lexical.FreeOf x) :=
  decidable_of_iff (x ∉ lexical.locals ∧ x ∉ lexical.locals.map localName ∧
      ∀ use ∈ lexical.uses, x ∉ use.2.freeNames)
    ⟨fun h => ⟨h.1, h.2.1, h.2.2⟩, fun h => ⟨h.not_bound, h.not_local, h.not_used⟩⟩

/-- The expressions of a resolved field are those of the field, renamed. -/
lemma FieldPlan.mem_uses_resolved {plan : FieldPlan} {before after : List String}
    {use : List String × Expr} (h : use ∈ (plan.resolved before).uses after) :
    ∃ use' ∈ plan.uses before, use.2 = use'.2.rename (localOf use'.1) := by
  simp only [FieldPlan.uses, List.mem_append, List.mem_map, Option.mem_toList] at h
  rcases h with (h | h) | ⟨e, he, rfl⟩
  · cases hlength : plan.length with
    | fixed n => simp [FieldPlan.resolved, Length.rename, hlength] at h
    | rest => simp [FieldPlan.resolved, Length.rename, hlength] at h
    | computed e =>
        simp only [FieldPlan.resolved, Length.rename, hlength, List.mem_singleton] at h
        exact ⟨(before, e), by simp [FieldPlan.uses, hlength], by rw [h]⟩
  · cases horder : plan.order with
    | named name => simp [FieldPlan.resolved, Order.rename, horder] at h
    | computed e native =>
        simp only [FieldPlan.resolved, Order.rename, horder, List.mem_singleton] at h
        exact ⟨(before, e), by simp [FieldPlan.uses, horder], by rw [h]⟩
  · simp only [FieldPlan.resolved, Option.map_eq_some_iff] at he
    obtain ⟨d, hd, rfl⟩ : ∃ d, (d ∈ plan.rebind ∨ d ∈ plan.check ∨ d ∈ plan.jump) ∧
        d.rename (localOf (plan.namesAfter before)) = e := by
      rcases he with (⟨d, hd, rfl⟩ | ⟨d, hd, rfl⟩) | ⟨d, hd, rfl⟩
      · exact ⟨d, .inl hd, rfl⟩
      · exact ⟨d, .inr (.inl hd), rfl⟩
      · exact ⟨d, .inr (.inr hd), rfl⟩
    exact ⟨(plan.namesAfter before, d), FieldPlan.inner_mem_uses hd, rfl⟩

lemma mem_uses_resolvedFields {before after : List String} {plans : List FieldPlan}
    {plan : FieldPlan} (hplan : plan ∈ resolvedFields before plans) {use : List String × Expr}
    (h : use ∈ plan.uses after) :
    ∃ use' ∈ usesOf before plans, use.2 = use'.2.rename (localOf use'.1) := by
  induction plans generalizing before with
  | nil => cases hplan
  | cons first plans ih =>
      rcases List.mem_cons.mp hplan with rfl | hplan
      · obtain ⟨use', huse', heq⟩ := FieldPlan.mem_uses_resolved h
        exact ⟨use', List.mem_append_left _ huse', heq⟩
      · obtain ⟨use', huse', heq⟩ := ih hplan
        exact ⟨use', List.mem_append_right _ huse', heq⟩

/-- A renamed expression of a case has none of the names that the case does not mention. -/
lemma CasePlan.FreeOf.renamed {lexical : CasePlan} {x : String} (h : lexical.FreeOf x)
    {use : List String × Expr} (huse : use ∈ lexical.uses) :
    x ∉ (use.2.rename (localOf use.1)).freeNames := by
  intro hx
  obtain ⟨y, hy, rfl⟩ := Expr.mem_freeNames_rename.mp hx
  by_cases hbound : y ∈ use.1
  · refine h.not_local ?_
    rw [localOf, if_pos hbound]
    exact List.mem_map_of_mem (mem_locals_of_mem_uses huse hbound)
  · rw [localOf, if_neg hbound] at h
    exact h.not_used use huse hy

/-- The plan of a case that does not mention some names has none of them in its expressions. -/
lemma avoids_of_free {lexical : CasePlan} (h : ∀ x ∈ out, lexical.FreeOf x) :
    (∀ plan ∈ lexical.resolved.fields, plan.Avoids out) ∧
      ∀ use ∈ lexical.resolved.body.uses [], ∀ x ∈ use.2.freeNames, x ∉ out := by
  constructor
  · intro plan hplan use huse x hx hout
    obtain ⟨use', huse', heq⟩ := mem_uses_resolvedFields hplan huse
    exact (h x hout).renamed (List.mem_append_left _ huse') (heq ▸ hx)
  · intro use huse x hx hout
    cases hbody : lexical.body with
    | value e =>
        simp only [CasePlan.resolved, hbody, BodyPlan.resolved, BodyPlan.uses,
          List.mem_singleton] at huse
        have huse' : (lexical.boundAfter, e) ∈ lexical.uses :=
          List.mem_append_right _ (by simp [hbody, BodyPlan.uses])
        refine (h x hout).renamed huse' ?_
        rw [huse] at hx
        exact hx
    | call callable args =>
        simp only [CasePlan.resolved, hbody, BodyPlan.resolved, BodyPlan.uses, List.map_map,
          List.mem_map] at huse
        obtain ⟨arg, harg, rfl⟩ := huse
        have huse' : (lexical.boundAfter, .name arg.2) ∈ lexical.uses := by
          refine List.mem_append_right _ ?_
          rw [hbody]
          exact List.mem_map.mpr ⟨arg, harg, rfl⟩
        exact (h x hout).renamed huse' hx

end Plan

end BitPattern
