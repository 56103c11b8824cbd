import BitPattern.Value.Run
import Mathlib.Data.List.Forall2
import Mathlib.Tactic.Common

/-!
# Reasoning about runs

A run is a list of calls and a result, and one run after another concatenates the calls and hands
the value on.  This file gives the three ways in which later proofs take such a sequence apart.

`Run.bind_eq_ok` and `Run.bind_eq_error` (and `result_bind_eq_ok`, where there are no calls) say how
a sequence ends: in a value exactly if both parts do, and in a fault exactly if one of them does.
`Faults P` says that a run can only end in the faults that `P` admits; it passes through sequences
(`Faults.bind`).  `Related C F R` compares two runs call by call and result by result, for any
relations `C` on calls, `F` on faults and `R` on values; it passes through sequences too
(`Related.bind`), and with equality in all three places it is equality of runs (`related_eq_iff`).
-/

namespace BitPattern

/-! ## Sequences of results -/

section Result

variable {ε α β γ : Type}

lemma result_bind_eq_ok {x : Except ε α} {f : α → Except ε β} {b : β} :
    (x >>= f) = .ok b ↔ ∃ a, x = .ok a ∧ f a = .ok b := by
  cases x with
  | error e => simp [bind, Except.bind]
  | ok a => simp [bind, Except.bind]

lemma result_bind_eq_error {x : Except ε α} {f : α → Except ε β} {e : ε} :
    (x >>= f) = .error e ↔ x = .error e ∨ ∃ a, x = .ok a ∧ f a = .error e := by
  cases x with
  | error e => simp [bind, Except.bind]
  | ok a => simp [bind, Except.bind]

lemma result_map_eq_ok {x : Except ε α} {f : α → β} {b : β} :
    f <$> x = .ok b ↔ ∃ a, x = .ok a ∧ f a = b := by
  cases x with
  | error e => simp [Functor.map, Except.map]
  | ok a => simp [Functor.map, Except.map]

lemma result_map_eq_error {x : Except ε α} {f : α → β} {e : ε} :
    f <$> x = .error e ↔ x = .error e := by
  cases x with
  | error e => simp [Functor.map, Except.map]
  | ok a => simp [Functor.map, Except.map]

/-- A list of results is a result exactly if each of them is. -/
lemma result_mapM_eq_ok {f : α → Except ε β} {xs : List α} {ys : List β} :
    xs.mapM f = .ok ys ↔ List.Forall₂ (fun x y => f x = .ok y) xs ys := by
  induction xs generalizing ys with
  | nil => simp [pure, Except.pure, eq_comm]
  | cons x xs ih =>
      rw [List.mapM_cons, result_bind_eq_ok]
      simp only [result_bind_eq_ok, List.forall₂_cons_left_iff, ih]
      constructor
      · rintro ⟨y, hy, ys', hys, h⟩
        cases h
        exact ⟨y, ys', hy, hys, rfl⟩
      · rintro ⟨y, ys', hy, hys, rfl⟩
        exact ⟨y, hy, ys', hys, rfl⟩

/-- A list has results exactly if each of its items has one. -/
lemma result_mapM_isOk_iff {f : α → Except ε β} {xs : List α} :
    (∃ ys, xs.mapM f = .ok ys) ↔ ∀ x ∈ xs, ∃ y, f x = .ok y := by
  induction xs with
  | nil => simp [pure, Except.pure]
  | cons x xs ih =>
      rw [List.forall_mem_cons, ← ih, List.mapM_cons]
      constructor
      · rintro ⟨ys, h⟩
        obtain ⟨y, hy, h⟩ := result_bind_eq_ok.mp h
        obtain ⟨ys', hys, -⟩ := result_bind_eq_ok.mp h
        exact ⟨⟨y, hy⟩, ys', hys⟩
      · rintro ⟨⟨y, hy⟩, ys, hys⟩
        exact ⟨y :: ys, by rw [hy, hys]; rfl⟩

lemma result_mapM_id_eq_ok {rs : List (Except ε α)} {as : List α} :
    rs.mapM id = .ok as ↔ rs = as.map .ok := by
  rw [result_mapM_eq_ok, ← List.forall₂_eq_eq_eq, List.forall₂_map_right_iff]
  rfl

/-- An error of a list is that of its first item with one. -/
lemma result_mapM_error_split {f : α → Except ε β} {xs : List α} {e : ε}
    (h : xs.mapM f = .error e) : ∃ before x after, xs = before ++ x :: after ∧
      (∀ y ∈ before, ∃ b, f y = .ok b) ∧ f x = .error e := by
  induction xs with
  | nil => cases h
  | cons x xs ih =>
      rw [List.mapM_cons] at h
      rcases result_bind_eq_error.mp h with hx | ⟨b, hb, h⟩
      · exact ⟨[], x, xs, rfl, List.forall_mem_nil _, hx⟩
      · rcases result_bind_eq_error.mp h with hxs | ⟨bs, -, h⟩
        · obtain ⟨before, y, after, rfl, hbefore, hy⟩ := ih hxs
          exact ⟨x :: before, y, after, rfl, List.forall_mem_cons.mpr ⟨⟨b, hb⟩, hbefore⟩, hy⟩
        · cases h

/-- A list of results fails only if one of them does. -/
lemma result_mapM_eq_error {f : α → Except ε β} {xs : List α} {e : ε}
    (h : xs.mapM f = .error e) : ∃ x ∈ xs, f x = .error e := by
  obtain ⟨before, x, after, rfl, -, hx⟩ := result_mapM_error_split h
  exact ⟨x, List.mem_append_right before List.mem_cons_self, hx⟩

/-- The first of a list of results that fails is how the list fails. -/
lemma result_mapM_first_error {f : α → Except ε β} {before after : List α} {x : α} {e : ε}
    (hbefore : ∀ y ∈ before, ∃ b, f y = .ok b) (hx : f x = .error e) :
    (before ++ x :: after).mapM f = .error e := by
  induction before with
  | nil =>
      rw [List.nil_append, List.mapM_cons, hx]
      rfl
  | cons y before ih =>
      obtain ⟨⟨b, hb⟩, hbefore⟩ := List.forall_mem_cons.mp hbefore
      rw [List.cons_append, List.mapM_cons, hb, ih hbefore]
      rfl

lemma result_mapM_congr {f g : α → Except ε β} {xs : List α} (h : ∀ x ∈ xs, f x = g x) :
    xs.mapM f = xs.mapM g := by
  induction xs with
  | nil => rfl
  | cons x xs ih =>
      obtain ⟨hx, hxs⟩ := List.forall_mem_cons.mp h
      rw [List.mapM_cons, List.mapM_cons, hx, ih hxs]

/-- A list of results is mapped as each of them is. -/
lemma result_mapM_map {f : α → Except ε β} {g : α → Except ε γ} {h : β → γ}
    (hg : ∀ x, g x = h <$> f x) (xs : List α) : xs.mapM g = List.map h <$> xs.mapM f := by
  induction xs with
  | nil => rfl
  | cons x xs ih =>
      rw [List.mapM_cons, List.mapM_cons, ih, hg]
      cases f x with
      | error e => rfl
      | ok y => cases xs.mapM f <;> rfl

lemma result_toOption_bind (x : Except ε α) (f : α → Except ε β) :
    (x >>= f).toOption = x.toOption.bind fun a => (f a).toOption := by
  cases x <;> rfl

/-- Lists of results that differ in their errors only have the same value. -/
lemma result_toOption_mapM {f g : α → Except ε β} {xs : List α}
    (h : ∀ x ∈ xs, (f x).toOption = (g x).toOption) :
    (xs.mapM f).toOption = (xs.mapM g).toOption := by
  induction xs with
  | nil => rfl
  | cons x xs ih =>
      obtain ⟨hx, hxs⟩ := List.forall_mem_cons.mp h
      rw [List.mapM_cons, List.mapM_cons, result_toOption_bind, result_toOption_bind, hx]
      refine congrArg _ (funext fun y => ?_)
      rw [result_toOption_bind, result_toOption_bind, ih hxs]

lemma result_toOption_eq_some {x : Except ε α} {a : α} : x.toOption = some a ↔ x = .ok a := by
  cases x <;> simp [Except.toOption]

end Result

namespace Run

variable {α β γ δ : Type}

/-! ## Sequences of runs -/

@[simp] lemma result_pure (a : α) : (pure a : Run α).result = .ok a := rfl

@[simp] lemma calls_pure (a : α) : (pure a : Run α).calls = [] := rfl

@[simp] lemma result_ofExcept (x : Except Fault α) : (ofExcept x).result = x := rfl

@[simp] lemma calls_ofExcept (x : Except Fault α) : (ofExcept x).calls = [] := rfl

@[simp] lemma ofExcept_ok (a : α) : ofExcept (.ok a) = (pure a : Run α) := rfl

/-- A sequence ends in a value exactly if its first part does and the second one does from there. -/
lemma bind_eq_ok {r : Run α} {f : α → Run β} {b : β} :
    (r >>= f).result = .ok b ↔ ∃ a, r.result = .ok a ∧ (f a).result = .ok b := by
  change (andThen r f).result = .ok b ↔ _
  unfold andThen
  cases h : r.result with
  | error e => simp
  | ok a => simp

/-- A sequence ends in a fault exactly if its first part does, or the second one does from the value
of the first. -/
lemma bind_eq_error {r : Run α} {f : α → Run β} {e : Fault} :
    (r >>= f).result = .error e ↔
      r.result = .error e ∨ ∃ a, r.result = .ok a ∧ (f a).result = .error e := by
  change (andThen r f).result = .error e ↔ _
  unfold andThen
  cases h : r.result with
  | error e' => simp
  | ok a => simp

lemma ext {r s : Run α} (hcalls : r.calls = s.calls) (hresult : r.result = s.result) : r = s := by
  cases r; cases s; simp_all

@[simp] lemma pure_bind (a : α) (f : α → Run β) : (pure a >>= f) = f a := by
  change andThen (ok a) f = f a
  exact ext (by simp [andThen, ok]) (by simp [andThen, ok])

@[simp] lemma bind_pure (r : Run α) : (r >>= pure) = r := by
  change andThen r ok = r
  unfold andThen
  cases h : r.result with
  | error e => exact ext rfl h.symm
  | ok a => exact ext (by simp [ok]) h.symm

lemma bind_assoc (r : Run α) (f : α → Run β) (g : β → Run γ) :
    ((r >>= f) >>= g) = (r >>= fun a => f a >>= g) := by
  change andThen (andThen r f) g = andThen r fun a => andThen (f a) g
  unfold andThen
  cases hr : r.result with
  | error e => rfl
  | ok a => cases hf : (f a).result <;> simp [hf]

/-- After a value the calls of the second part follow, and its result counts. -/
lemma bind_of_ok {r : Run α} {a : α} (h : r.result = .ok a) (f : α → Run β) :
    (r >>= f) = ⟨r.calls ++ (f a).calls, (f a).result⟩ := by
  change andThen r f = _
  rw [andThen, h]

/-- After a fault nothing follows. -/
lemma bind_of_error {r : Run α} {e : Fault} (h : r.result = .error e) (f : α → Run β) :
    (r >>= f) = ⟨r.calls, .error e⟩ := by
  change andThen r f = _
  rw [andThen, h]

/-- A function of the value of a run makes no calls. -/
lemma bind_pure_comp (r : Run α) (f : α → β) :
    (r >>= fun a => pure (f a)) = ⟨r.calls, f <$> r.result⟩ := by
  cases h : r.result with
  | error e => exact bind_of_error h _
  | ok a => exact (bind_of_ok h _).trans (ext (List.append_nil _) rfl)

/-- A sequence ends in a value after some calls exactly if its parts do, one after the other. -/
lemma bind_eq_mk {r : Run α} {f : α → Run β} {calls : List Call} {b : β} :
    (r >>= f) = ⟨calls, .ok b⟩ ↔
      ∃ a before after, r = ⟨before, .ok a⟩ ∧ f a = ⟨after, .ok b⟩ ∧ calls = before ++ after := by
  constructor
  · intro h
    obtain ⟨a, ha, hb⟩ := bind_eq_ok.mp (congrArg Run.result h)
    rw [bind_of_ok ha] at h
    exact ⟨a, r.calls, (f a).calls, ext rfl ha, ext rfl hb, (congrArg Run.calls h).symm⟩
  · rintro ⟨a, before, after, rfl, hb, rfl⟩
    rw [bind_of_ok rfl, hb]

/-- What follows a run matters for the value of the run only. -/
lemma bind_congr_of_ok {r : Run α} {f g : α → Run β} (h : ∀ a, r.result = .ok a → f a = g a) :
    (r >>= f) = (r >>= g) := by
  cases hr : r.result with
  | error e => rw [bind_of_error hr, bind_of_error hr]
  | ok a => rw [bind_of_ok hr, bind_of_ok hr, h a hr]

/-! ## The faults of a run -/

/-- A run that ends in a value or in a fault that `P` admits. -/
def Faults (P : Fault → Prop) (r : Run α) : Prop :=
  ∀ e, r.result = .error e → P e

namespace Faults

variable {P Q : Fault → Prop}

lemma pure (a : α) : Faults P (pure a : Run α) := by
  intro e h
  cases h

lemma of_ok {r : Run α} {a : α} (h : r.result = .ok a) : Faults P r := by
  intro e he
  rw [h] at he
  cases he

/-- The faults of a sequence are those of its parts. -/
lemma bind {r : Run α} {f : α → Run β} (hr : Faults P r)
    (hf : ∀ a, r.result = .ok a → Faults P (f a)) : Faults P (r >>= f) := by
  intro e h
  rcases bind_eq_error.mp h with h | ⟨a, ha, h⟩
  · exact hr e h
  · exact hf a ha e h

lemma mono {r : Run α} (h : Faults P r) (hPQ : ∀ e, P e → Q e) : Faults Q r :=
  fun e he => hPQ e (h e he)

end Faults

/-! ## Two runs side by side -/

/-- Two results that are values in one relation or faults in another. -/
def SameEnd (F : Fault → Fault → Prop) (R : α → β → Prop) :
    Except Fault α → Except Fault β → Prop
  | .ok a, .ok b => R a b
  | .error e, .error f => F e f
  | _, _ => False

lemma SameEnd.refl {F : Fault → Fault → Prop} {R : α → α → Prop} (hF : ∀ f, F f f)
    (hR : ∀ a, R a a) (x : Except Fault α) : SameEnd F R x x := by
  cases x with
  | error f => exact hF f
  | ok a => exact hR a

lemma SameEnd.ok_right {F : Fault → Fault → Prop} {R : α → β → Prop} {x : Except Fault α}
    {y : Except Fault β} (h : SameEnd F R x y) {a : α} (hx : x = .ok a) :
    ∃ b, y = .ok b ∧ R a b := by
  subst hx
  cases y with
  | error f => exact h.elim
  | ok b => exact ⟨b, rfl, h⟩

lemma SameEnd.ok_left {F : Fault → Fault → Prop} {R : α → β → Prop} {x : Except Fault α}
    {y : Except Fault β} (h : SameEnd F R x y) {b : β} (hy : y = .ok b) :
    ∃ a, x = .ok a ∧ R a b := by
  subst hy
  cases x with
  | error f => exact h.elim
  | ok a => exact ⟨a, rfl, h⟩

/-- Two runs that make related calls in the same order and end alike. -/
structure Related (C : Call → Call → Prop) (F : Fault → Fault → Prop) (R : α → β → Prop)
    (r : Run α) (s : Run β) : Prop where
  calls : List.Forall₂ C r.calls s.calls
  result : SameEnd F R r.result s.result

namespace Related

variable {C : Call → Call → Prop} {F : Fault → Fault → Prop}
variable {R : α → β → Prop} {S : γ → δ → Prop}

lemma pure {a : α} {b : β} (h : R a b) : Related C F R (pure a : Run α) (pure b) :=
  ⟨.nil, h⟩

lemma ofExcept {x : Except Fault α} {y : Except Fault β} (h : SameEnd F R x y) :
    Related C F R (ofExcept x) (ofExcept y) :=
  ⟨.nil, h⟩

/-- Sequences are related if their first parts are and related values make the second ones so. -/
lemma bind {r : Run α} {s : Run β} {f : α → Run γ} {g : β → Run δ} (h : Related C F R r s)
    (hfg : ∀ a b, r.result = .ok a → s.result = .ok b → R a b → Related C F S (f a) (g b)) :
    Related C F S (r >>= f) (s >>= g) := by
  obtain ⟨hcalls, hresult⟩ := h
  change Related C F S (andThen r f) (andThen s g)
  unfold andThen
  cases hr : r.result with
  | error e =>
      cases hs : s.result with
      | error e' => rw [hr, hs] at hresult; exact ⟨hcalls, hresult⟩
      | ok b => rw [hr, hs] at hresult; exact hresult.elim
  | ok a =>
      cases hs : s.result with
      | error e' => rw [hr, hs] at hresult; exact hresult.elim
      | ok b =>
          rw [hr, hs] at hresult
          obtain ⟨hcalls', hresult'⟩ := hfg a b hr hs hresult
          exact ⟨List.rel_append hcalls hcalls', hresult'⟩

lemma mono {R' : α → β → Prop} {r : Run α} {s : Run β} (h : Related C F R r s)
    (hR : ∀ a b, R a b → R' a b) : Related C F R' r s := by
  obtain ⟨hcalls, hresult⟩ := h
  refine ⟨hcalls, ?_⟩
  cases hr : r.result <;> cases hs : s.result <;> rw [hr, hs] at hresult
  · exact hresult
  · exact hresult
  · exact hresult
  · exact hR _ _ hresult

/-- Where calls are the same and one run ends in a value, the other one ends in a related one. -/
lemma exists_right {r : Run α} {s : Run β} (h : Related Eq F R r s) {calls : List Call} {a : α}
    (hr : r = ⟨calls, .ok a⟩) : ∃ b, s = ⟨calls, .ok b⟩ ∧ R a b := by
  obtain ⟨hcalls, hresult⟩ := h
  rw [hr, List.forall₂_eq_eq_eq] at hcalls
  rw [hr] at hresult
  cases hs : s.result with
  | error e =>
      rw [hs] at hresult
      exact hresult.elim
  | ok b =>
      rw [hs] at hresult
      exact ⟨b, ext hcalls.symm hs, hresult⟩

lemma exists_left {r : Run α} {s : Run β} (h : Related Eq F R r s) {calls : List Call} {b : β}
    (hs : s = ⟨calls, .ok b⟩) : ∃ a, r = ⟨calls, .ok a⟩ ∧ R a b := by
  obtain ⟨hcalls, hresult⟩ := h
  rw [hs, List.forall₂_eq_eq_eq] at hcalls
  rw [hs] at hresult
  cases hr : r.result with
  | error e =>
      rw [hr] at hresult
      exact hresult.elim
  | ok a =>
      rw [hr] at hresult
      exact ⟨a, ext hcalls hr, hresult⟩

end Related

/-- Runs that are equal in every respect are equal. -/
lemma related_eq_iff {r s : Run α} : Related Eq Eq Eq r s ↔ r = s := by
  constructor
  · rintro ⟨hcalls, hresult⟩
    refine ext (by rwa [List.forall₂_eq_eq_eq] at hcalls) ?_
    cases hr : r.result <;> cases hs : s.result <;> rw [hr, hs] at hresult
    · exact congrArg _ hresult
    · exact hresult.elim
    · exact hresult.elim
    · exact congrArg _ hresult
  · rintro rfl
    refine ⟨List.forall₂_refl _, ?_⟩
    cases h : r.result <;> rfl

end Run

end BitPattern
