import BitPattern.Field.Qualifier
import BitPattern.Proofs.Expr.Eval
import BitPattern.Proofs.Run.Lift
import Mathlib.Data.List.Perm.Basic

/-!
# Resolving qualifiers

A qualifier expression is a tree of tuples, and only its leaves say something.  `Says` is the
vocabulary: what each of the twelve kinds of leaves writes.  Resolving an expression writes what its
leaves say, one after the other (`resolve_eq_foldlM`), and nothing may be written twice, so that a
resolved specification is a disjoint union of the base and the leaves (`Union`).  No order is left
in a disjoint union, and this is why the leaves may be regrouped and permuted.

The order of the leaves shows in errors only: the first leaf that is no vocabulary, or that writes
what the base or a leaf before it has written, is the one that is reported (`Offends`).
-/

namespace BitPattern

/-! ## Attributes -/

namespace Spec

/-- The value of an attribute as the setting that writes it. -/
def get? (spec : Spec) : Attribute → Option Setting
  | .valueType => spec.valueType.map .valueType
  | .sign => spec.sign.map .sign
  | .endian => spec.endian.map .endian
  | .check => spec.check.map .check
  | .bind => spec.bind.map .bind
  | .offset => spec.offset.map .offset

lemma isSet_eq (spec : Spec) (a : Attribute) : spec.isSet a = (spec.get? a).isSome := by
  cases a <;> simp [isSet, get?]

@[simp] lemma get?_put_self (spec : Spec) (s : Setting) :
    (spec.put s).get? s.attribute = some s := by
  cases s <;> rfl

lemma get?_put_of_ne (spec : Spec) {s : Setting} {a : Attribute} (h : a ≠ s.attribute) :
    (spec.put s).get? a = spec.get? a := by
  cases s <;> cases a <;> first | rfl | exact absurd rfl h

lemma isSet_put {spec : Spec} {s : Setting} {a : Attribute} :
    (spec.put s).isSet a = true ↔ spec.isSet a = true ∨ a = s.attribute := by
  rw [isSet_eq, isSet_eq]
  by_cases h : a = s.attribute
  · subst h
    simp
  · simp [get?_put_of_ne spec h, h]

/-- A specification is the values of its attributes. -/
lemma ext_get? {spec spec' : Spec} (h : ∀ a, spec.get? a = spec'.get? a) : spec = spec' := by
  have hinj {α : Type} {f : α → Setting} (hf : Function.Injective f) {x y : Option α}
      (hxy : x.map f = y.map f) : x = y := Option.map_injective hf hxy
  obtain ⟨valueType, sign, endian, check, bind, offset⟩ := spec
  obtain ⟨valueType', sign', endian', check', bind', offset'⟩ := spec'
  obtain rfl := hinj (fun _ _ => Setting.valueType.inj) (h .valueType)
  obtain rfl := hinj (fun _ _ => Setting.sign.inj) (h .sign)
  obtain rfl := hinj (fun _ _ => Setting.endian.inj) (h .endian)
  obtain rfl := hinj (fun _ _ => Setting.check.inj) (h .check)
  obtain rfl := hinj (fun _ _ => Setting.bind.inj) (h .bind)
  obtain rfl := hinj (fun _ _ => Setting.offset.inj) (h .offset)
  rfl

end Spec

namespace Qualifier

open BitPattern.Report

/-! ## Leaves -/

mutual

/-- The qualifiers of an expression that are no tuples, from left to right. -/
def leaves : Expr → List Expr
  | .tuple items => leavesAll items
  | qualifier => [qualifier]

/-- The leaves of several expressions, one after the other. -/
def leavesAll : List Expr → List Expr
  | [] => []
  | e :: rest => leaves e ++ leavesAll rest

end

/-- Writing what several expressions say is writing what their leaves say, if it is for each of
them. -/
lemma resolveAll_eq_foldlM {es : List Expr} (spec : Spec)
    (h : ∀ e ∈ es, ∀ spec, resolve spec e = (leaves e).foldlM write spec) :
    resolveAll spec es = (leavesAll es).foldlM write spec := by
  induction es generalizing spec with
  | nil => rfl
  | cons e es ih =>
      obtain ⟨he, hes⟩ := List.forall_mem_cons.mp h
      rw [resolveAll, leavesAll, List.foldlM_append, he]
      exact congrArg _ (funext fun spec => ih spec hes)

/-- Resolving an expression is writing what its leaves say, from left to right. -/
lemma resolve_eq_foldlM (spec : Spec) (q : Expr) :
    resolve spec q = (leaves q).foldlM write spec := by
  have hleaf {spec : Spec} {e : Expr} (hwrite : resolve spec e = write spec e)
      (he : leaves e = [e]) : resolve spec e = (leaves e).foldlM write spec := by
    rw [hwrite, he, List.foldlM_cons]
    exact (bind_pure _).symm
  induction q generalizing spec with
  | tuple items ih =>
      rw [resolve, leaves]
      exact resolveAll_eq_foldlM spec ih
  | int | bytes | bool | name | binary | unary | call => exact hleaf rfl rfl

/-! ## The vocabulary -/

/-- What a leaf writes. -/
inductive Says : Expr → Setting → Prop where
  | int : Says (.name "int") (.valueType .int)
  | string : Says (.name "string") (.valueType .string)
  | bitstring : Says (.name "bitstring") (.valueType .bitstring)
  | signed : Says (.name "signed") (.sign .signed)
  | unsigned : Says (.name "unsigned") (.sign .unsigned)
  | littleendian : Says (.name "littleendian") (.endian (.fixed .little))
  | bigendian : Says (.name "bigendian") (.endian (.fixed .big))
  | nativeendian : Says (.name "nativeendian") (.endian (.fixed .native))
  | endian (e : Expr) : Says (.call "endian" [e]) (.endian (.computed e))
  | bind (e : Expr) : Says (.call "bind" [e]) (.bind e)
  | check (e : Expr) : Says (.call "check" [e]) (.check e)
  | offset (e : Expr) : Says (.call "set_offset_at" [e]) (.offset e)

lemma says_of_ofName? {x : String} {s : Setting} (h : ofName? x = some s) : Says (.name x) s := by
  unfold ofName? at h
  split at h <;> cases h <;> constructor

lemma says_of_ofFunction? {f : String} {e : Expr} {s : Setting} (h : ofFunction? f e = some s) :
    Says (.call f [e]) s := by
  unfold ofFunction? at h
  split at h <;> cases h <;> constructor

lemma setting?_eq_some {leaf : Expr} {s : Setting} : setting? leaf = some s ↔ Says leaf s := by
  constructor
  · intro h
    unfold setting? at h
    split at h
    · exact says_of_ofName? h
    · exact says_of_ofFunction? h
    · cases h
  · intro h
    cases h <;> rfl

lemma write_eq_ok {base spec : Spec} {leaf : Expr} :
    write base leaf = .ok spec ↔
      ∃ s, Says leaf s ∧ base.isSet s.attribute = false ∧ spec = base.put s := by
  simp only [← setting?_eq_some, write, Spec.set?]
  cases setting? leaf with
  | none => simp
  | some s =>
      by_cases hset : base.isSet s.attribute = true
      · simp [hset]
      · rw [Bool.not_eq_true] at hset
        simp only [hset, Bool.false_eq_true, if_false]
        constructor
        · intro h
          cases h
          exact ⟨s, rfl, hset, rfl⟩
        · rintro ⟨_, hs, -, rfl⟩
          cases hs
          rfl

/-- Why a leaf cannot be written where some settings have been written on top of a base. -/
inductive Offends (base : Spec) (settings : List Setting) (leaf : Expr) : Cause → Prop where
  | unknown (h : ∀ s, ¬Says leaf s) :
    Offends base settings leaf (.unknownQualifier leaf.qualifierText)
  | duplicate {s : Setting} (h : Says leaf s)
    (hset : base.isSet s.attribute = true ∨ s.attribute ∈ settings.map Setting.attribute) :
    Offends base settings leaf (.duplicateAttribute s.attribute.label leaf.qualifierText)

lemma write_eq_error {base : Spec} {leaf : Expr} {cause : Cause} :
    write base leaf = .error cause ↔ Offends base [] leaf cause := by
  constructor
  · intro h
    unfold write at h
    split at h
    · rename_i hnone
      cases h
      refine .unknown fun s hs => ?_
      rw [setting?_eq_some.mpr hs] at hnone
      cases hnone
    · rename_i s hs
      split at h
      · rename_i hset
        cases h
        refine .duplicate (setting?_eq_some.mp hs) (.inl ?_)
        by_contra hfree
        simp [Spec.set?, hfree] at hset
      · cases h
  · rintro (hnone | ⟨hs, hset | hmem⟩)
    · have hnone : setting? leaf = none :=
        Option.eq_none_iff_forall_ne_some.mpr fun s hs => hnone s (setting?_eq_some.mp hs)
      simp [write, hnone]
    · simp [write, setting?_eq_some.mpr hs, Spec.set?, hset]
    · cases hmem

/-! ## Disjoint unions -/

/-- A specification has the attributes of a base and those of some settings, none of them twice. -/
structure Union (base : Spec) (settings : List Setting) (spec : Spec) : Prop where
  distinct : (settings.map Setting.attribute).Nodup
  unset : ∀ s ∈ settings, base.isSet s.attribute = false
  written : ∀ s ∈ settings, spec.get? s.attribute = some s
  kept : ∀ a ∉ settings.map Setting.attribute, spec.get? a = base.get? a

namespace Union

variable {base spec spec' : Spec} {settings settings' : List Setting} {s : Setting}

lemma nil : Union base [] spec ↔ spec = base := by
  constructor
  · intro h
    exact Spec.ext_get? fun a => h.kept a List.not_mem_nil
  · rintro rfl
    exact ⟨List.nodup_nil, by simp, by simp, fun _ _ => rfl⟩

/-- The union with a first setting and others is the union of the base with that setting written and
the others. -/
lemma cons : Union base (s :: settings) spec ↔
    base.isSet s.attribute = false ∧ Union (base.put s) settings spec := by
  constructor
  · rintro ⟨hdistinct, hunset, hwritten, hkept⟩
    rw [List.map_cons, List.nodup_cons] at hdistinct
    obtain ⟨hs, hsettings⟩ := List.forall_mem_cons.mp hunset
    obtain ⟨hspec, hwritten⟩ := List.forall_mem_cons.mp hwritten
    refine ⟨hs, hdistinct.2, fun t ht => ?_, hwritten, fun a ha => ?_⟩
    · -- Another attribute, which is set after the first one exactly if it was set before.
      have hne : t.attribute ≠ s.attribute := fun heq =>
        hdistinct.1 (heq ▸ List.mem_map_of_mem ht)
      rw [Spec.isSet_eq, Spec.get?_put_of_ne _ hne, ← Spec.isSet_eq, hsettings t ht]
    · by_cases has : a = s.attribute
      · rw [has, hspec, Spec.get?_put_self]
      · rw [Spec.get?_put_of_ne _ has]
        exact hkept a (by simp [has, ha])
  · rintro ⟨hs, hdistinct, hunset, hwritten, hkept⟩
    -- None of the others writes the first attribute, which is set by then.
    have hfree : s.attribute ∉ settings.map Setting.attribute := by
      intro hmem
      obtain ⟨t, ht, heq⟩ := List.mem_map.mp hmem
      have hset := hunset t ht
      rw [heq, Spec.isSet_eq, Spec.get?_put_self] at hset
      cases hset
    refine ⟨List.nodup_cons.mpr ⟨hfree, hdistinct⟩,
      List.forall_mem_cons.mpr ⟨hs, fun t ht => ?_⟩,
      List.forall_mem_cons.mpr ⟨?_, hwritten⟩, fun a ha => ?_⟩
    · by_contra hset
      rw [Bool.not_eq_false] at hset
      have hset' : (base.put s).isSet t.attribute = true := Spec.isSet_put.mpr (.inl hset)
      rw [hunset t ht] at hset'
      cases hset'
    · rw [hkept _ hfree, Spec.get?_put_self]
    · rw [List.map_cons, List.mem_cons, not_or] at ha
      rw [hkept a ha.2, Spec.get?_put_of_ne _ ha.1]

/-- What is set in a union is set in the base or by one of the settings. -/
lemma isSet_iff (h : Union base settings spec) (a : Attribute) :
    spec.isSet a = true ↔ base.isSet a = true ∨ a ∈ settings.map Setting.attribute := by
  by_cases ha : a ∈ settings.map Setting.attribute
  · obtain ⟨s, hs, rfl⟩ := List.mem_map.mp ha
    simp [Spec.isSet_eq, h.written s hs, ha]
  · simp [Spec.isSet_eq, h.kept a ha, ha]

/-- A union does not depend on the order of the settings. -/
lemma perm (h : Union base settings spec) (hperm : settings.Perm settings') :
    Union base settings' spec where
  distinct := (hperm.map _).nodup_iff.mp h.distinct
  unset s hs := h.unset s (hperm.mem_iff.mpr hs)
  written s hs := h.written s (hperm.mem_iff.mpr hs)
  kept a ha := h.kept a fun hmem => ha ((hperm.map _).mem_iff.mp hmem)

end Union

lemma foldlM_write_eq_ok {base spec : Spec} {leaves : List Expr} :
    leaves.foldlM write base = .ok spec ↔
      ∃ settings, List.Forall₂ Says leaves settings ∧ Union base settings spec := by
  induction leaves generalizing base with
  | nil => simp [Union.nil, pure, Except.pure, eq_comm]
  | cons leaf leaves ih =>
      simp only [List.foldlM_cons, result_bind_eq_ok, write_eq_ok, ih,
        List.forall₂_cons_left_iff]
      constructor
      · rintro ⟨_, ⟨s, hs, hfree, rfl⟩, settings, hsettings, hunion⟩
        exact ⟨s :: settings, ⟨s, settings, hs, hsettings, rfl⟩, Union.cons.mpr ⟨hfree, hunion⟩⟩
      · rintro ⟨_, ⟨s, settings, hs, hsettings, rfl⟩, hunion⟩
        obtain ⟨hfree, hunion⟩ := Union.cons.mp hunion
        exact ⟨_, ⟨s, hs, hfree, rfl⟩, settings, hsettings, hunion⟩

/-- The first leaf that cannot be written, and why. -/
def FirstOffence (base : Spec) (leaves : List Expr) (cause : Cause) : Prop :=
  ∃ before leaf after settings spec, leaves = before ++ leaf :: after ∧
    List.Forall₂ Says before settings ∧ Union base settings spec ∧
      Offends base settings leaf cause

/-- A leaf offends against a union as it offends against the base and the settings. -/
lemma Union.offends_iff {base spec : Spec} {settings : List Setting} (h : Union base settings spec)
    {leaf : Expr} {cause : Cause} :
    Offends spec [] leaf cause ↔ Offends base settings leaf cause := by
  constructor
  · rintro (hnone | ⟨hs, hset | hmem⟩)
    · exact .unknown hnone
    · exact .duplicate hs ((h.isSet_iff _).mp hset)
    · cases hmem
  · rintro (hnone | ⟨hs, hset⟩)
    · exact .unknown hnone
    · exact .duplicate hs (.inl ((h.isSet_iff _).mpr hset))

lemma foldlM_write_eq_error {base : Spec} {leaves : List Expr} {cause : Cause} :
    leaves.foldlM write base = .error cause ↔ FirstOffence base leaves cause := by
  constructor
  · intro h
    induction leaves generalizing base with
    | nil => cases h
    | cons leaf leaves ih =>
        rw [List.foldlM_cons] at h
        rcases result_bind_eq_error.mp h with h | ⟨mid, hmid, h⟩
        · exact ⟨[], leaf, leaves, [], base, rfl, .nil, Union.nil.mpr rfl, write_eq_error.mp h⟩
        · -- The first leaf is written, and the offence is one against the settings behind it.
          obtain ⟨s, hs, hfree, rfl⟩ := write_eq_ok.mp hmid
          obtain ⟨before, bad, after, settings, spec, rfl, hsettings, hunion, hbad⟩ := ih h
          have hunion' := Union.cons.mpr ⟨hfree, hunion⟩
          exact ⟨leaf :: before, bad, after, s :: settings, spec, rfl, .cons hs hsettings, hunion',
            hunion'.offends_iff.mp (hunion.offends_iff.mpr hbad)⟩
  · rintro ⟨before, leaf, after, settings, spec, rfl, hsettings, hunion, hbad⟩
    have hbefore := foldlM_write_eq_ok.mpr ⟨settings, hsettings, hunion⟩
    have hleaf : write spec leaf = .error cause :=
      write_eq_error.mpr (hunion.offends_iff.mpr hbad)
    rw [List.foldlM_append]
    refine result_bind_eq_error.mpr (.inr ⟨spec, hbefore, ?_⟩)
    rw [List.foldlM_cons]
    exact result_bind_eq_error.mpr (.inl hleaf)

/-! ## Resolving -/

/-- **Resolving qualifiers is a disjoint union.**  It succeeds exactly if every leaf is vocabulary
and what the leaves write is distinct and unset in the base, and gives the base with just that
written; it fails exactly with the offence of the first offending leaf; and no regrouping or
permutation of the leaves makes a difference to its success and its result. -/
theorem resolve_disjoint_union (base : Spec) (q : Expr) :
    (∀ spec, resolve base q = .ok spec ↔
      ∃ settings, List.Forall₂ Says (leaves q) settings ∧ Union base settings spec) ∧
    (∀ cause, resolve base q = .error cause ↔ FirstOffence base (leaves q) cause) ∧
    ∀ q', (leaves q).Perm (leaves q') → ∀ spec,
      resolve base q = .ok spec ↔ resolve base q' = .ok spec := by
  have hregrouped {q q' : Expr} (hperm : (leaves q).Perm (leaves q')) {spec : Spec}
      (h : resolve base q = .ok spec) : resolve base q' = .ok spec := by
    rw [resolve_eq_foldlM, foldlM_write_eq_ok] at h ⊢
    obtain ⟨settings, hsettings, hunion⟩ := h
    obtain ⟨settings', hsettings', hp⟩ := List.perm_comp_forall₂ hperm.symm hsettings
    exact ⟨settings', hsettings', hunion.perm hp.symm⟩
  refine ⟨fun spec => ?_, fun cause => ?_, fun q' hperm spec => ⟨hregrouped hperm,
    hregrouped hperm.symm⟩⟩
  · rw [resolve_eq_foldlM, foldlM_write_eq_ok]
  · rw [resolve_eq_foldlM, foldlM_write_eq_error]

/-- On top of a signedness, `int, (check(x), littleendian)` and `(littleendian, int), check(x)` are
the same. -/
theorem resolve_disjoint_union_regrouped :
    let base : Spec := { sign := some .signed }
    let check := Expr.call "check" [.name "x"]
    let q := Expr.tuple [.name "int", .tuple [check, .name "littleendian"]]
    let q' := Expr.tuple [.tuple [.name "littleendian", .name "int"], check]
    let spec : Spec := { base with
      valueType := some .int, endian := some (.fixed .little), check := some (.name "x") }
    (leaves q).Perm (leaves q') ∧ resolve base q = .ok spec ∧ resolve base q' = .ok spec := by
  intro base check q q' spec
  have hperm : (leaves q).Perm (leaves q') :=
    @List.perm_append_comm Expr [.name "int", check] [.name "littleendian"]
  have hq : resolve base q = .ok spec := rfl
  exact ⟨hperm, hq, ((resolve_disjoint_union base q).2.2 q' hperm spec).mp hq⟩

end Qualifier

end BitPattern
