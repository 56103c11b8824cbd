import BitPattern.Proofs.Layout.Field
import Mathlib.Data.List.TakeWhile

/-!
# Matching and writing are inverse

The case of a layout has a field for each item and gives the tuple of their names.  It is planned
without fail (`planCase_of_isCaseOf`), and its plan gives the values that the bits of the subject
stand for (`run_case`).  Together with the writing of values (`writeAll_of_fits`,
`writeAll_of_decodeAll`) this is the round trip in both directions: `RoundTrips` says that a matcher
gives back the values that a writer was given, and that a writer gives back the bits that a matcher
was given.

`layout_round_trip` says for every layout which of three things becomes of its case.  A listing with
a NUL character in it cannot be loaded; neither can one that assigns to the constant `__debug__`,
which a local name may be, since no reserved word keeps it out (`constant_named_layout`); and in
every other case there is a matcher, and both round trips hold.
-/

namespace BitPattern

namespace Layout

open Plan Bits Report Text

/-- The case of a layout: a field for each item, and the tuple of their names. -/
structure IsCaseOf (config : Config) (items : List Item) (c : Case) : Prop where
  fields : List.Forall₂ (Item.Describes config) items c.fields
  body_eq : c.body = .expr (.tuple (items.map fun item => .name item.name))

/-! ## The plan of a layout -/

variable {ctx : Context} {items : List Item} {c : Case}

lemma IsCaseOf.effectiveFields_eq (hc : IsCaseOf ctx.config items c) :
    effectiveFields c = c.fields := by
  refine List.takeWhile_eq_self_iff.mpr fun field hfield => ?_
  obtain ⟨i, hi, rfl⟩ := List.mem_iff_getElem.mp hfield
  have hi' : i < items.length := by rwa [hc.fields.length_eq]
  have hpattern : c.fields[i].pattern = .var items[i].name := (hc.fields.get hi' hi).pattern_eq
  simp [Field.isRest, hpattern]

lemma locals_of_plannedAs {plans : List FieldPlan} (h : List.Forall₂ Item.PlannedAs items plans) :
    plans.flatMap FieldPlan.locals = items.map Item.localName := by
  induction h with
  | nil => rfl
  | cons hplan _ ih =>
      rw [List.flatMap_cons, hplan.locals_eq, ih, List.map_cons, List.singleton_append]

/-- The case of a layout is planned: each field as its item says, and the body with the local of
every name. -/
lemma planCase_of_isCaseOf (hconfig : ctx.config.problems = [])
    (hc : IsCaseOf ctx.config items c) :
    ∃ plan, planCase ctx c = .ok plan ∧ List.Forall₂ Item.PlannedAs items plan.fields ∧
      plan.body = .value (.tuple (items.map fun item => .name item.localName)) := by
  obtain ⟨plans, hplans, hitems⟩ := planFields_of_describes hconfig hc.fields []
  have hholds := Scope.holds_nil.bindAll (items.map Item.name)
  have hbound : ∀ item ∈ items, item.name ∈ (items.map Item.name).reverse ++ [] := by
    intro item hitem
    simpa using ⟨item, hitem, rfl⟩
  -- Every name of the body is bound by a field, so it is resolved to the local of that field.
  have hbody : planBody ctx (Scope.bindAll [] (items.map Item.name)) c.fieldsText c.body =
      .ok (.value (.tuple (items.map fun item => .name item.localName))) := by
    rw [hc.body_eq, planBody_expr_eq_ok]
    refine ⟨_, (resolve_eq_ok hholds).mpr ⟨?_, ?_⟩, rfl⟩
    · intro x hx
      simp only [Expr.mem_freeNames_tuple, List.mem_map] at hx
      obtain ⟨_, ⟨item, hitem, rfl⟩, hx⟩ := hx
      rw [Expr.mem_freeNames_name.mp hx]
      exact .inl (hbound item hitem)
    · rw [Expr.rename, Expr.renameAll_eq_map, List.map_map]
      congr 1
      refine List.map_congr_left fun item hitem => ?_
      rw [Function.comp_apply, Expr.rename, localOf, if_pos (hbound item hitem), Item.localName]
  refine ⟨⟨c.index, c.fieldsText, plans, _⟩, ?_, hitems, rfl⟩
  rw [planCase, hc.effectiveFields_eq, hplans]
  simp only [bind, Except.bind, hbody]
  rfl

/-- **Matching.** On a subject that is long enough, the plan of a layout gives the values that the
bits of the subject stand for. -/
lemma run_case {plan : CasePlan} (hfields : List.Forall₂ Item.PlannedAs items plan.fields)
    (hbody : plan.body = .value (.tuple (items.map fun item => .name item.localName)))
    (hdistinct : (items.map Item.localName).Nodup)
    (hconstant : constantName ∉ items.map Item.localName) (globals : List (String × Value))
    {subject : Bitstring} (hlen : totalWidth (items.map Item.shape) ≤ subject.length) :
    ∃ vs, plan.run globals subject = pure (some (.tuple vs)) ∧
      vs.map Value.content = decodeAll (items.map Item.shape) subject.bits := by
  have hlocals : plan.locals = items.map Item.localName := locals_of_plannedAs hfields
  obtain ⟨vs, last, hrun, hvs, hbound, -⟩ := run_fields hfields (start_standsAt subject)
    (by omega) hdistinct (Frame.lookup ⟨plan.locals, globals⟩)
  refine ⟨vs, ?_, by simpa using hvs⟩
  have hnames : List.Forall₂ (fun item v =>
      Frame.lookup ⟨plan.locals, globals⟩ last.bound item.localName = .ok v) items vs := by
    refine List.forall₂_iff_get.mpr ⟨hbound.length_eq, fun i hi hi' => ?_⟩
    have hmem : (items.get ⟨i, hi⟩).localName ∈ items.map Item.localName :=
      List.mem_map_of_mem (List.get_mem items ⟨i, hi⟩)
    have hne : (items.get ⟨i, hi⟩).localName ≠ constantName := fun h => hconstant (h ▸ hmem)
    rw [lookup_local hne (hlocals ▸ hmem), hbound.get hi hi']
    rfl
  have hvalues : Expr.evalAll (Frame.lookup ⟨plan.locals, globals⟩ last.bound)
      (items.map fun item => .name item.localName) = pure vs := by
    rw [← Expr.evalAll_names (List.forall₂_map_left_iff.mpr hnames), List.map_map]
    rfl
  rw [CasePlan.run, CasePlan.runWith, hrun, Run.pure_bind, hbody]
  simp only [BodyPlan.run, Expr.eval, hvalues, Run.pure_bind]

/-! ## Matchers -/

/-- Both round trips: the matcher gives back the values that are written, and the bits that it
matches are those of the values that it gives. -/
structure RoundTrips (items : List Item) (m : Matcher) : Prop where
  values : ∀ vs, List.Forall₂ Shape.Fits (items.map Item.shape) vs →
    ∃ w us, writeAll .empty (items.map Item.shape) vs = .ok w ∧
      m.tryMatch (.bits w.build) = pure ⟨some (0, .tuple us)⟩ ∧
      us.map Value.content = vs.map fun v => v.asRead.content
  bits : ∀ (subject : Value) (b : Bitstring), subject.subject = .ok b →
    totalWidth (items.map Item.shape) ≤ b.length →
    ∃ us w, m.tryMatch subject = pure ⟨some (0, .tuple us)⟩ ∧
      writeAll .empty (items.map Item.shape) us = .ok w ∧
      w.build.bits = b.bits.take (totalWidth (items.map Item.shape))

lemma tryMatch_singleton {m : Matcher} {plan : CasePlan} (hm : m.plans = [plan]) {subject : Value}
    {b : Bitstring} (hsubject : subject.subject = .ok b) {v : Value}
    (hrun : plan.run m.globals b = pure (some v)) :
    m.tryMatch subject = pure ⟨some (0, v)⟩ := by
  rw [Matcher.tryMatch, hsubject, Run.ofExcept_ok, Run.pure_bind, Matcher.functions, hm]
  simp [dispatch, dispatchFrom, hrun]

lemma roundTrips_of_plan {m : Matcher} {plan : CasePlan} (hm : m.plans = [plan])
    (hfields : List.Forall₂ Item.PlannedAs items plan.fields)
    (hbody : plan.body = .value (.tuple (items.map fun item => .name item.localName)))
    (hdistinct : (items.map Item.localName).Nodup)
    (hconstant : constantName ∉ items.map Item.localName) : RoundTrips items m := by
  constructor
  · intro vs hvs
    obtain ⟨w, bits, hwrite, hbits, hlen, hdecode⟩ := writeAll_of_fits hvs .empty
    have hbuild : w.build.bits = bits := by
      rw [w.build_bits, hbits, Writer.bits_empty, List.nil_append]
    have hlength : totalWidth (items.map Item.shape) ≤ w.build.length := by
      rw [← w.build.length_bits, hbuild, hlen]
    obtain ⟨us, hrun, hus⟩ := run_case hfields hbody hdistinct hconstant m.globals hlength
    refine ⟨w, us, hwrite, tryMatch_singleton hm rfl hrun, ?_⟩
    rw [hus, hbuild, hdecode]
  · intro subject b hsubject hlen
    obtain ⟨us, hrun, hus⟩ := run_case hfields hbody hdistinct hconstant m.globals hlen
    obtain ⟨w, hwrite, hbits⟩ := writeAll_of_decodeAll (by simpa using hlen) hus .empty
    refine ⟨us, w, tryMatch_singleton hm hsubject hrun, hwrite, ?_⟩
    rw [w.build_bits, hbits, Writer.bits_empty, List.nil_append]

/-- **Matching and writing are inverse.** The case of a layout whose locals are distinct cannot be
loaded if its listing has a NUL character in it or if a local is the name of the constant; otherwise
there is a matcher, and both round trips hold. -/
theorem layout_round_trip {config : Config} {env : List (String × Value)}
    (hconfig : config.problems = []) (henv : checkEnv (env.map Prod.fst) = .ok ())
    {items : List Item} {c : Case} (hc : IsCaseOf config items c)
    (hdistinct : (items.map Item.localName).Nodup) :
    (¬Matcher.Printable config [c] → Matcher.ofCases config env [c] = .error (.fault .value)) ∧
    (Matcher.Printable config [c] → constantName ∈ items.map Item.localName →
      Matcher.ofCases config env [c] = .error (.fault .unloadable)) ∧
    (Matcher.Printable config [c] → constantName ∉ items.map Item.localName →
      ∃ m, Matcher.ofCases config env [c] = .ok m ∧ RoundTrips items m) := by
  set numbered : Case := { c with index := 0 } with hnumbered
  have hcase : IsCaseOf (Matcher.context config env).config items numbered :=
    ⟨hc.fields, hc.body_eq⟩
  obtain ⟨plan, hplan, hfields, hbody⟩ := planCase_of_isCaseOf hconfig hcase
  have hplans : planCases (Matcher.context config env) [numbered] = .ok [plan] := by
    have henv' : checkEnv (Matcher.context config env).env = .ok () := henv
    simp [planCases, henv', hplan, bind, Except.bind, pure, Except.pure]
  have hlocals : plan.locals = items.map Item.localName := locals_of_plannedAs hfields
  have hprintable : Matcher.Printable config [numbered] ↔ Matcher.Printable config [c] := by
    simp [Matcher.Printable, hnumbered, effectiveFields]
  -- Everything but the loading goes well, so the two checks there decide.
  have hmade : Matcher.ofCases config env [c] =
      if ¬Matcher.Printable config [c] then .error (.fault .value)
      else if constantName ∈ items.map Item.localName then .error (.fault .unloadable)
      else .ok ⟨config, [numbered], [plan], Matcher.globalsOf [plan] env⟩ := by
    rw [Matcher.ofCases_eq hconfig]
    refine (Matcher.ofNumbered_eq hplans).trans ?_
    simp only [hprintable, List.any_cons, List.any_nil, Bool.or_false, List.contains_iff_mem,
      hlocals]
  rw [hmade]
  refine ⟨fun h => if_pos h, fun h hconstant => ?_, fun h hconstant => ?_⟩
  · rw [if_neg (not_not.mpr h), if_pos hconstant]
  · rw [if_neg (not_not.mpr h), if_neg hconstant]
    exact ⟨_, rfl, roundTrips_of_plan rfl hfields hbody hdistinct hconstant⟩

/-- A signed integer whose last chunk is short, a byte that starts inside one, and three bits. -/
def mixedItems : List Item := [
  ⟨"level", .int 12 true .little (by decide) (by decide)⟩,
  ⟨"tag", .string 1 (by decide)⟩,
  ⟨"flags", .bits 3⟩]

/-- The case of the layout of mixed items. -/
def mixedCase : Case where
  fieldsText := "level:12:signed, littleendian; tag:8:string; flags:3:bitstring"
  fields := [
    ⟨.var "level", some (.int 12),
      some { valueType := some .int, sign := some .signed, endian := some (.fixed .little) },
      "level:12:signed, littleendian"⟩,
    ⟨.var "tag", some (.int 8), some { valueType := some .string }, "tag:8:string"⟩,
    ⟨.var "flags", some (.int 3), some { valueType := some .bitstring }, "flags:3:bitstring"⟩]
  body := .expr (.tuple [.name "level", .name "tag", .name "flags"])
  index := 0

/-- The values minus three, one byte and three bits are written and given back. -/
theorem layout_round_trip_mixed :
    ∃ m w us, Matcher.ofCases {} [] [mixedCase] = .ok m ∧
      writeAll .empty (mixedItems.map Item.shape)
        [.int (-3), .ofBytes [0x41], .bits (.ofBits [true, false, true])] = .ok w ∧
      m.tryMatch (.bits w.build) = pure ⟨some (0, .tuple us)⟩ ∧
      us.map Value.content =
        [.int (-3), .ofBytes [0x41], .bits (Bitstring.ofBits [true, false, true]).content] := by
  have hcase : IsCaseOf {} mixedItems mixedCase := by
    refine ⟨.cons ?_ (.cons ?_ (.cons ?_ .nil)), rfl⟩ <;>
      exact ⟨rfl, rfl, rfl, by rintro _ ⟨⟩; trivial, by rintro _ ⟨⟩; exact ⟨rfl, rfl, rfl⟩⟩
  obtain ⟨m, hm, htrips⟩ :=
    (@layout_round_trip {} [] rfl rfl mixedItems mixedCase hcase (by decide)).2.2 (by decide)
      (by decide)
  obtain ⟨w, us, hwrite, hmatch, hus⟩ := htrips.values
    [.int (-3), .ofBytes [0x41], .bits (.ofBits [true, false, true])]
    (.cons ⟨-3, rfl, by decide, by decide⟩
      (.cons ⟨.constant, [0x41], rfl, rfl⟩ (.cons ⟨_, rfl, rfl⟩ .nil)))
  exact ⟨m, w, us, hm, hwrite, hmatch, hus⟩

/-- The case of the layout of a single integer with the name of the constant. -/
def constantCase : Case where
  fieldsText := "__debug__:8"
  fields := [⟨.var constantName, some (.int 8), some .default, "__debug__:8"⟩]
  body := .expr (.tuple [.name constantName])
  index := 0

/-- Not every layout has a matcher: one with the name of the constant has none. -/
theorem constant_named_layout :
    ¬∀ (items : List Item) (c : Case), IsCaseOf {} items c → (items.map Item.localName).Nodup →
      Matcher.Printable {} [c] →
        ∃ m, Matcher.ofCases {} [] [c] = .ok m ∧ RoundTrips items m := by
  intro h
  have hcase : IsCaseOf {} [⟨constantName, .int 8 false .big (by decide) (by decide)⟩]
      constantCase := by
    refine ⟨.cons ⟨rfl, rfl, rfl, ?_, ?_⟩ .nil, rfl⟩
    · rintro _ ⟨⟩
      exact ⟨rfl, rfl⟩
    · rintro _ ⟨⟩
      exact ⟨rfl, rfl, rfl⟩
  have hprintable : Matcher.Printable {} [constantCase] := by decide
  obtain ⟨m, hm, -⟩ := h _ constantCase hcase (by decide) hprintable
  obtain ⟨plan, hplan, hlocals⟩ : ∃ plan,
      planCases (Matcher.context {} []) [constantCase] = .ok [plan] ∧
        plan.locals = [constantName] := ⟨_, rfl, by decide⟩
  have hrefused : Matcher.ofCases {} [] [constantCase] = .error (.fault .unloadable) := by
    rw [Matcher.ofCases_eq rfl, Matcher.renumber]
    refine (Matcher.ofNumbered_eq hplan).trans ?_
    rw [if_neg (fun hnot => hnot hprintable), if_pos (by simp [hlocals])]
  rw [hrefused] at hm
  cases hm

end Layout

end BitPattern
