import BitPattern.Proofs.Plan.Code
import BitPattern.Proofs.Plan.Scope

/-!
# Faithful code

In a listing an expression stands with its names resolved.  If distinct names stand for distinct
names that a listing can use (`Scope.Faithful`), then resolving can be undone by a renaming, and
since a code shows its expression, the listing of an expression shows the expression:
`code_injective`.  So no two groupings, calls, tuples or literals share a listing.
-/

namespace BitPattern.Plan

open BitPattern.Text BitPattern.Expr

/-! ## Faithful scopes -/

/-- A scope and an environment under which distinct names stand for distinct names that a listing
can use: identifiers that are neither reserved nor begin like generated names. -/
structure Scope.Faithful (scope : Scope) (env : List String) : Prop where
  distinct : ∀ x y z, resolveName? scope env x = some z → resolveName? scope env y = some z → x = y
  usable : ∀ x z, resolveName? scope env x = some z → isUsable z = true

variable {scope : Scope} {env : List String} {text : String}

lemma resolveName_eq_ok_iff {x z : String} :
    resolveName scope env text x = .ok z ↔ resolveName? scope env x = some z := by
  unfold resolveName
  cases resolveName? scope env x <;> simp

/-! ## Undoing resolution -/

/-- A resolved expression has names that others stand for, and renaming them back undoes it. -/
structure Undone (scope : Scope) (env : List String) (back : String → String) (e r : Expr) :
    Prop where
  rename : r.rename back = e
  names : ∀ z ∈ r.freeNames, ∃ x, resolveName? scope env x = some z

lemma resolveAll_undone {back : String → String} {es rs : List Expr}
    (ih : ∀ e ∈ es, ∀ r, resolve scope env text e = .ok r → Undone scope env back e r)
    (h : resolveAll scope env text es = .ok rs) :
    renameAll back rs = es ∧
      ∀ r ∈ rs, ∀ z ∈ r.freeNames, ∃ x, resolveName? scope env x = some z := by
  induction es generalizing rs with
  | nil =>
      cases h
      exact ⟨rfl, by simp⟩
  | cons e es ihes =>
      obtain ⟨he, hes⟩ := List.forall_mem_cons.mp ih
      simp only [resolveAll, result_bind_eq_ok] at h
      obtain ⟨r, hr, rs', hrs, h⟩ := h
      cases h
      obtain ⟨hrename, hnames⟩ := he r hr
      obtain ⟨hrenames, hnames'⟩ := ihes hes hrs
      exact ⟨by rw [renameAll, hrename, hrenames], List.forall_mem_cons.mpr ⟨hnames, hnames'⟩⟩

/-- Resolving can be undone if names can be told by what they stand for. -/
lemma resolve_undone {back : String → String}
    (hback : ∀ x z, resolveName? scope env x = some z → back z = x) {e r : Expr}
    (h : resolve scope env text e = .ok r) : Undone scope env back e r := by
  -- What every name stands for in the result is carried along, since the code shows only names that
  -- are usable.
  induction e generalizing r with
  | int | bytes | bool =>
      cases h
      exact ⟨rfl, by simp [freeNames, collectNames]⟩
  | name x =>
      simp only [resolve, result_bind_eq_ok, resolveName_eq_ok_iff] at h
      obtain ⟨z, hz, h⟩ := h
      cases h
      refine ⟨by rw [rename, hback x z hz], fun y hy => ⟨x, ?_⟩⟩
      rw [mem_freeNames_name.mp hy, hz]
  | binary op left right ihl ihr =>
      simp only [resolve, result_bind_eq_ok] at h
      obtain ⟨l, hl, r', hr, h⟩ := h
      cases h
      obtain ⟨hl, hlnames⟩ := ihl hl
      obtain ⟨hr, hrnames⟩ := ihr hr
      refine ⟨by rw [rename, hl, hr], fun z hz => ?_⟩
      exact (mem_freeNames_binary.mp hz).elim (hlnames z) (hrnames z)
  | unary op operand ih =>
      simp only [resolve, result_bind_eq_ok] at h
      obtain ⟨r', hr, h⟩ := h
      cases h
      obtain ⟨hr, hnames⟩ := ih hr
      exact ⟨by rw [rename, hr], fun z hz => hnames z (mem_freeNames_unary.mp hz)⟩
  | call function args ih =>
      simp only [resolve, result_bind_eq_ok, resolveName_eq_ok_iff] at h
      obtain ⟨f, hf, rs, hrs, h⟩ := h
      cases h
      obtain ⟨hrs, hnames⟩ := resolveAll_undone (fun e he _ => ih e he) hrs
      refine ⟨by rw [rename, hback function f hf, hrs], fun z hz => ?_⟩
      rcases mem_freeNames_call.mp hz with rfl | ⟨e, he, hz⟩
      · exact ⟨function, hf⟩
      · exact hnames e he z hz
  | tuple items ih =>
      simp only [resolve, result_bind_eq_ok] at h
      obtain ⟨rs, hrs, h⟩ := h
      cases h
      obtain ⟨hrs, hnames⟩ := resolveAll_undone (fun e he _ => ih e he) hrs
      refine ⟨by rw [rename, hrs], fun z hz => ?_⟩
      obtain ⟨e, he, hz⟩ := mem_freeNames_tuple.mp hz
      exact hnames e he z hz

/-! ## Codes -/

/-- **No two expressions have the same code** where distinct names stand for distinct names that a
listing can use. -/
theorem code_injective (hscope : scope.Faithful env) {text text' : String} {e e' r r' : Expr}
    (h : resolve scope env text e = .ok r) (h' : resolve scope env text' e' = .ok r')
    (hcode : r.code = r'.code) : e = e' := by
  have hback (z : String) : ∃ y, ∀ x, resolveName? scope env x = some z → y = x := by
    by_cases hz : ∃ x, resolveName? scope env x = some z
    · obtain ⟨y, hy⟩ := hz
      exact ⟨y, fun x hx => hscope.distinct y x z hy hx⟩
    · exact ⟨z, fun x hx => absurd ⟨x, hx⟩ hz⟩
  -- The name that a local or an environment name is the reading of.
  choose back hback using hback
  have hback (x z : String) (hz : resolveName? scope env x = some z) : back z = x := hback z x hz
  obtain ⟨hr, hnames⟩ := resolve_undone hback h
  obtain ⟨hr', hnames'⟩ := resolve_undone hback h'
  have husable {r : Expr} (hnames : ∀ z ∈ r.freeNames, ∃ x, resolveName? scope env x = some z) :
      r.Usable := by
    intro z hz
    obtain ⟨x, hx⟩ := hnames z hz
    exact hscope.usable x z hx
  have hsame : r.code.toList ++ [] = r'.code.toList ++ [] := by rw [hcode]
  obtain ⟨rfl, -⟩ := code_append_inj (husable hnames) (husable hnames') [] [] stops_nil stops_nil
    hsame
  exact hr.symm.trans hr'

/-- With `class` bound to `class_` and `x` in the environment, `class - -1, len(x)` is read from its
code, whether the sign of the number is written as an operator or not. -/
theorem code_injective_renamed :
    let scope : Scope := [("class", "class_")]
    let len := Expr.call "len" [.name "x"]
    let e := Expr.tuple [.binary .sub (.name "class") (Grammar.applyUnary .neg (.int 1)), len]
    let e' := Expr.tuple [.binary .sub (.name "class") (.int (-1)), len]
    let r := Expr.tuple [.binary .sub (.name "class_") (.int (-1)), len]
    scope.Faithful ["x"] ∧ resolve scope ["x"] "a" e = .ok r ∧ resolve scope ["x"] "b" e' = .ok r ∧
      r.code = "((class_ - -1), len(x))" ∧ e = e' := by
  intro scope len e e' r
  -- What a name can stand for: the one in scope for its local, any other for itself.
  have hresolve (x z : String) (h : resolveName? scope ["x"] x = some z) :
      (x = "class" ∧ z = "class_") ∨ (z = x ∧ (x = "x" ∨ isExpressionName x = true)) := by
    unfold resolveName? at h
    rw [lookup_cons_eq] at h
    by_cases hx : x = "class"
    · simp only [hx, if_true, Option.some.injEq] at h
      exact .inl ⟨hx, h.symm⟩
    · simp only [hx, if_false, List.lookup_nil, Option.ite_none_right_eq_some, Option.some.injEq,
        Bool.or_eq_true, List.contains_iff_mem, List.mem_singleton] at h
      exact .inr ⟨h.2.symm, h.1⟩
  have husable {x : String} (hx : x = "x" ∨ isExpressionName x = true) : isUsable x = true := by
    have hall : (expressionNames.map Prod.fst).all isUsable = true := by decide
    rcases hx with rfl | hx
    · decide
    · exact List.all_eq_true.mp hall x (List.contains_iff_mem.mp hx)
  have hlocal : ¬("class_" = "x" ∨ isExpressionName "class_" = true) := by decide
  have hscope : scope.Faithful ["x"] := by
    constructor
    · intro x y z hx hy
      rcases hresolve x z hx with ⟨rfl, rfl⟩ | ⟨rfl, hx⟩ <;>
        rcases hresolve y _ hy with ⟨rfl, hz⟩ | ⟨hz, hy⟩
      · rfl
      · rw [← hz] at hy
        exact absurd hy hlocal
      · rw [hz] at hx
        exact absurd hx hlocal
      · exact hz
    · intro x z hx
      rcases hresolve x z hx with ⟨rfl, rfl⟩ | ⟨rfl, hx⟩
      · decide
      · exact husable hx
  have he : resolve scope ["x"] "a" e = .ok r := rfl
  have he' : resolve scope ["x"] "b" e' = .ok r := rfl
  exact ⟨hscope, he, he', by decide, code_injective hscope he he' rfl⟩

end BitPattern.Plan
