import BitPattern.Proofs.Layout.Shape
import BitPattern.Proofs.Plan.Cursor

/-!
# Fields of a layout

An item of a layout is a name and a shape.  `Item.Describes` says of a field as it is parsed that it
binds the name to a value of the shape and does nothing else: its length folds to the number of
bits, its type, sign and byte order are those of the shape, whether stated or left to the defaults,
and nothing checks or replaces the value or moves matching elsewhere.

Such a field is planned without fail (`planFields_of_describes`).  Its plan reads the bits of the
shape where matching stands, binds the value that they stand for, and goes on behind them
(`run_field`).  So a run of the fields of a layout on a subject that is long enough binds the values
that the bits of the subject stand for, one after the other (`run_fields`); if the locals are
distinct, each of them still has its value at the end.
-/

namespace BitPattern

namespace Layout

open Plan Bits Report Text

/-- A name and the shape of its value. -/
structure Item where
  name : String
  shape : Shape

/-- The local that a plan binds to the value of an item. -/
def Item.localName (item : Item) : String :=
  Text.localName item.name

/-- The byte order that a field states: the most significant byte is first unless it says otherwise,
and `native` is the order of the configuration. -/
def statedOrder? (config : Config) : Option Endianness → Option ByteOrder
  | none | some (.fixed .big) => some .big
  | some (.fixed .little) => some .little
  | some (.fixed .native) => ByteOrder.ofName? config.nativeEndian
  | some (.computed _) => none

/-- The sign and the byte order that a field states are those of a shape. -/
def Shape.States (config : Config) (spec : Spec) : Shape → Prop
  | int _ signed order .. => spec.isSigned = signed ∧ statedOrder? config spec.endian = some order
  | string .. | bits _ => True

/-- A field that binds the name of an item to a value of its shape and does nothing else. -/
structure Item.Describes (config : Config) (item : Item) (field : Field) : Prop where
  pattern_eq : field.pattern = .var item.name
  length_eq : field.length.bind Expr.fold? = some (item.shape.width : Int)
  type_eq : field.spec.bind Spec.valueType = some item.shape.type
  states : ∀ spec ∈ field.spec, item.shape.States config spec
  plain : ∀ spec ∈ field.spec, spec.check = none ∧ spec.bind = none ∧ spec.offset = none

/-! ## Planning -/

/-- What the plan of a field has of a shape. -/
def Shape.PlannedAs (plan : FieldPlan) : Shape → Prop
  | int _ signed order .. => plan.signed = signed ∧ plan.order = .named order.name
  | string .. | bits _ => True

/-- The plan of a field that describes an item. -/
structure Item.PlannedAs (item : Item) (plan : FieldPlan) : Prop where
  type_eq : plan.type = item.shape.type
  length_eq : plan.length = .fixed item.shape.width
  shape : item.shape.PlannedAs plan
  kept_eq : plan.kept = true
  locals_eq : plan.locals = [item.localName]
  rebind_eq : plan.rebind = none
  test_eq : plan.test = none
  check_eq : plan.check = none
  jump_eq : plan.jump = none

variable {ctx : Context} {item : Item} {field : Field}

lemma Shape.admits_width (shape : Shape) : shape.type.admits shape.width = true := by
  cases shape with
  | int width signed order pos le =>
      have hpos : 1 ≤ (width : Int) := by omega
      have hle : (width : Int) ≤ 64 := by omega
      simp [Shape.type, Shape.width, FieldType.admits, hpos, hle]
  | string count pos => simp [Shape.type, Shape.width, FieldType.admits]; omega
  | bits width => simp [Shape.type, Shape.width, FieldType.admits]

lemma ofName?_nativeEndian {config : Config} (hconfig : config.problems = [])
    {order : ByteOrder} (h : ByteOrder.ofName? config.nativeEndian = some order) :
    config.nativeEndian = order.name := by
  have hnative : config.nativeEndian = "big" ∨ config.nativeEndian = "little" := by
    by_contra hother
    simp [Config.problems, hother] at hconfig
  rcases hnative with hnative | hnative <;>
    · rw [hnative] at h ⊢
      cases h
      rfl

lemma planOrder_of_states (hconfig : ctx.config.problems = []) {spec : Spec} {scope : Scope}
    {order : ByteOrder} (h : statedOrder? ctx.config spec.endian = some order) (text : String) :
    planOrder ctx scope .int spec.endian text = .ok (.named order.name) := by
  cases hendian : spec.endian with
  | none =>
      rw [hendian] at h
      cases h
      rfl
  | some endian =>
      rw [hendian] at h
      cases endian with
      | computed e => cases h
      | fixed endian =>
          cases endian with
          | native =>
              have hnative := ofName?_nativeEndian hconfig h
              rw [← hnative]
              rfl
          | big | little =>
              cases h
              rfl

/-- A field that describes an item is planned. -/
lemma planField_of_describes (hconfig : ctx.config.problems = [])
    (h : item.Describes ctx.config field) (scope : Scope) :
    ∃ plan, planField ctx scope field = .ok (plan, scope.bindAll [item.name]) ∧
      item.PlannedAs plan := by
  obtain ⟨length, hlength, hfold⟩ := Option.bind_eq_some_iff.mp h.length_eq
  obtain ⟨spec, hspec, htype⟩ := Option.bind_eq_some_iff.mp h.type_eq
  obtain ⟨hcheck, hbind, hoffset⟩ := h.plain spec hspec
  have hrest : ¬(item.shape.width : Int) = -1 := by omega
  obtain ⟨order, horder, hplanned⟩ : ∃ order,
      planOrder ctx scope item.shape.type spec.endian field.text = .ok order ∧
        ∀ plan : FieldPlan, plan.signed = spec.isSigned → plan.order = order →
          item.shape.PlannedAs plan := by
    have hstates := h.states spec hspec
    cases hshape : item.shape with
    | int width signed order pos le =>
        rw [hshape] at hstates
        obtain ⟨hsigned, hstated⟩ := hstates
        exact ⟨_, planOrder_of_states hconfig hstated _, fun plan hs ho => ⟨hs.trans hsigned, ho⟩⟩
    | string count pos => exact ⟨.named "big", rfl, fun _ _ _ => trivial⟩
    | bits width => exact ⟨.named "big", rfl, fun _ _ _ => trivial⟩
  have hplan : planField ctx scope field = .ok ({
      text := field.text, type := item.shape.type, length := .fixed item.shape.width
      signed := spec.isSigned, order, kept := true, locals := [item.localName], rebind := none
      test := none, check := none, jump := none }, scope.bindAll [item.name]) := by
    rw [planField, hlength, hspec, Option.bind_some, htype]
    dsimp only
    simp [planTyped, hfold, checkLength, Scalar.toInt, item.shape.admits_width, checkPattern,
      planLength, hrest, horder, hcheck, hbind, hoffset, resolveOption, planTest, isRead, bindsOnly,
      h.pattern_eq, Pattern.names, Item.localName, bind, Except.bind, pure, Except.pure]
  exact ⟨_, hplan, rfl, rfl, hplanned _ rfl rfl, rfl, rfl, rfl, rfl, rfl, rfl⟩

lemma planFields_of_describes (hconfig : ctx.config.problems = []) {items : List Item}
    {fields : List Field} (h : List.Forall₂ (Item.Describes ctx.config) items fields)
    (scope : Scope) :
    ∃ plans, planFields ctx scope fields = .ok (plans, scope.bindAll (items.map Item.name)) ∧
      List.Forall₂ Item.PlannedAs items plans := by
  induction h generalizing scope with
  | nil => exact ⟨[], rfl, .nil⟩
  | @cons item field items fields hfield _ ih =>
      obtain ⟨plan, hplan, hitem⟩ := planField_of_describes hconfig hfield scope
      obtain ⟨plans, hplans, hitems⟩ := ih (scope.bindAll [item.name])
      exact ⟨plan :: plans,
        planFields_cons_eq_ok.mpr ⟨plan, _, plans, rfl, hplan, hplans⟩, .cons hitem hitems⟩

/-! ## Running -/

/-- A run that stands so many bits behind the start of its subject. -/
structure StandsAt (subject : Bitstring) (k : Nat) (s : State) : Prop where
  off_eq : s.off = subject.offset + k
  len_eq : s.len.toInt = subject.length - k

variable {subject : Bitstring} {plan : FieldPlan} {s : State} {k : Nat}

lemma start_standsAt (subject : Bitstring) : StandsAt subject 0 (.start subject) := by
  have hreach := (State.start_within subject).reach
  refine ⟨by simp [State.start], ?_⟩
  simp only [State.start] at hreach ⊢
  omega

lemma StandsAt.past (h : StandsAt subject k s) (width : Nat) (bound : List (String × Value)) :
    StandsAt subject (k + width) (s.past (.number width) bound) := by
  obtain ⟨hoff, hlen⟩ := h
  constructor <;> simp only [State.past, Scalar.toInt_number] <;> omega

lemma StandsAt.fits (h : StandsAt subject k s) {width : Nat} (hwidth : k + width ≤ subject.length) :
    Fits subject.data s.off width := by
  have hfits := subject.fits
  obtain ⟨hoff, -⟩ := h
  exact ⟨by omega, by omega, by omega⟩

/-- What is read where a run stands are bits of the subject. -/
lemma StandsAt.window_eq (h : StandsAt subject k s) {width : Nat}
    (hwidth : k + width ≤ subject.length) :
    window subject.data s.off.toNat width = (subject.bits.drop k).take width := by
  obtain ⟨hoff, -⟩ := h
  have hk : s.off.toNat - subject.offset = k := by omega
  rw [subject.window_eq (by omega) (by omega), hk]

lemma Order.eval_named (order : ByteOrder) (lookup : String → Except Fault Value) :
    (Plan.Order.named order.name).eval lookup = pure order := by
  cases order <;> rfl

/-- What the bits of a planned field stand for is what they stand for in its shape. -/
lemma meaning_eq_decode (hplan : item.PlannedAs plan) {bits : List Bool}
    (hlen : bits.length = item.shape.width) (lookup : String → Except Fault Value) :
    ∃ order, (plan.type = .int → plan.order.eval lookup = pure order) ∧
      meaning plan.type plan.signed order bits = item.shape.decode bits := by
  have hshape := hplan.shape
  rw [hplan.type_eq]
  cases hitem : item.shape with
  | int width signed order pos le =>
      rw [hitem] at hshape
      obtain ⟨hsigned, horder⟩ := hshape
      refine ⟨order, fun _ => ?_, ?_⟩
      · rw [horder, Order.eval_named]
      · rw [hsigned]
        rfl
  | string count pos =>
      rw [hitem] at hlen
      have hcount : bits.length / 8 = count := by
        rw [hlen, Shape.width]
        omega
      refine ⟨.big, by rintro ⟨⟩, ?_⟩
      rw [Shape.type, meaning, hcount]
      rfl
  | bits width => exact ⟨.big, by rintro ⟨⟩, rfl⟩

/-- A field of a layout reads the value that its bits stand for. -/
lemma read_field (hplan : item.PlannedAs plan) (h : StandsAt subject k s)
    (hwidth : k + item.shape.width ≤ subject.length) (lookup : String → Except Fault Value) :
    ∃ v, plan.read lookup subject.data s.off (.number item.shape.width) = pure v ∧
      v.content = item.shape.decode ((subject.bits.drop k).take item.shape.width) := by
  have hlen : ((subject.bits.drop k).take item.shape.width).length = item.shape.width := by
    rw [List.length_take, List.length_drop, subject.length_bits]
    omega
  have hwhole : plan.type = .string → (item.shape.width : Int) % 8 = 0 := by
    intro htype
    rw [hplan.type_eq] at htype
    cases hitem : item.shape <;> rw [hitem] at htype
    · cases htype
    · rw [Shape.width]
      omega
    · cases htype
  obtain ⟨order, horder, hmeaning⟩ := meaning_eq_decode hplan hlen lookup
  obtain ⟨v, hv, hcontent⟩ := @readBits_content plan.type plan.signed subject.data s.off
    (.number (item.shape.width : Int)) order (h.fits hwidth) hwhole
  refine ⟨v, ?_, ?_⟩
  · rw [FieldPlan.read_eq]
    split
    · rename_i htype
      rw [horder htype, Run.pure_bind, hv, Run.ofExcept_ok]
    · rename_i htype
      rw [readBits_order htype _ _ _ _ .big order, hv, Run.ofExcept_ok]
  · rw [hcontent, ← hmeaning]
    exact congrArg _ (h.window_eq hwidth)

/-- A field of a layout binds the value that its bits stand for, and goes on behind them. -/
lemma run_field (hplan : item.PlannedAs plan) (h : StandsAt subject k s)
    (hwidth : k + item.shape.width ≤ subject.length) (names : Names) :
    ∃ v, plan.run names subject s = pure (some (s.past (.number item.shape.width)
        ((item.localName, v) :: s.bound))) ∧
      v.content = item.shape.decode ((subject.bits.drop k).take item.shape.width) := by
  obtain ⟨v, hread, hv⟩ := read_field hplan h hwidth (names s.bound)
  have hwidth' : plan.width (names s.bound) s.len =
      pure (some (.number (item.shape.width : Int))) := by
    have hlen := h.len_eq
    have henough : ¬s.len.toInt < (item.shape.width : Int) := by omega
    simp [FieldPlan.width, hplan.length_eq, henough]
  have hreads : plan.reads = true := by
    unfold FieldPlan.reads
    rw [hplan.length_eq]
    split <;> simp_all [hplan.kept_eq]
  have hconsume : plan.consume names subject.data s (.number item.shape.width) =
      pure (some ((item.localName, v) :: s.bound)) := by
    simp [FieldPlan.consume, hreads, hread, FieldPlan.accept, FieldPlan.replace, FieldPlan.passes,
      hplan.rebind_eq, hplan.test_eq, hplan.check_eq, hplan.locals_eq, bindLocals]
  refine ⟨v, ?_, hv⟩
  simp [FieldPlan.run, hwidth', hconsume, FieldPlan.goOn, hplan.jump_eq]

/-- **Running.** The fields of a layout bind the values that the bits of the subject stand for; if
the locals are distinct, each of them has its value at the end. -/
theorem run_fields {items : List Item} {plans : List FieldPlan}
    (hplans : List.Forall₂ Item.PlannedAs items plans) (h : StandsAt subject k s)
    (hwidth : k + totalWidth (items.map Item.shape) ≤ subject.length)
    (hdistinct : (items.map Item.localName).Nodup) (names : Names) :
    ∃ vs next, runFields names subject s plans = pure (some next) ∧
      vs.map Value.content = decodeAll (items.map Item.shape) (subject.bits.drop k) ∧
      List.Forall₂ (fun item v => next.bound.lookup item.localName = some v) items vs ∧
      ∀ x ∉ items.map Item.localName, next.bound.lookup x = s.bound.lookup x := by
  induction hplans generalizing s k with
  | nil => exact ⟨[], s, rfl, rfl, .nil, fun _ _ => rfl⟩
  | @cons item plan items plans hplan _ ih =>
      rw [List.map_cons, totalWidth_cons] at hwidth
      obtain ⟨hfresh, hdistinct⟩ := List.nodup_cons.mp hdistinct
      obtain ⟨v, hrun, hv⟩ := run_field hplan h (by omega) names
      obtain ⟨vs, next, hnext, hvs, hbound, hothers⟩ :=
        ih (h.past item.shape.width ((item.localName, v) :: s.bound)) (by omega) hdistinct
      refine ⟨v :: vs, next, ?_, ?_, .cons ?_ hbound, fun x hx => ?_⟩
      · rw [runFields_cons, hrun, Run.pure_bind]
        exact hnext
      · rw [List.map_cons, List.map_cons, decodeAll, hv, hvs, List.drop_drop]
      · rw [hothers _ hfresh, State.past, lookup_cons_eq, if_pos rfl]
      · obtain ⟨hne, hx⟩ := not_or.mp (mt List.mem_cons.mpr hx)
        rw [hothers x hx, State.past, lookup_cons_eq, if_neg hne]

end Layout

end BitPattern
