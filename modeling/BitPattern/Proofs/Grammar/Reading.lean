import BitPattern.Grammar.Reader
import Mathlib.Data.List.Basic
import Mathlib.Order.Defs.Unbundled
import Mathlib.Tactic.Common

/-!
# Reasoning about readers

What a reader takes is `Reader.run`; where it failed on the way makes no difference to that.  This
file says how the combinators run, and gives four properties that pass through all of them, so that
a grammar has them if its tokens do.

`Begins S p`: a text that `p` reads satisfies `S`, which looks at the beginning of the text.

`Tracks R p`: a text and what `p` leaves of it are in the relation `R`, for any preorder.

`Local more p`: `p` reads a text with `more` behind it as it reads the text alone, and fails where
it fails on the text alone.

`Extends more fits p q`: whatever `p` reads from a text, `q` reads from the text with `more` behind
it, if what `p` leaves fits.  Repetition and ordered choice make this a property with side
conditions: a repetition stops where its member fails, and a choice falls to its second branch where
the first one fails, so these failures have to be shown again on the longer text.
-/

namespace BitPattern.Grammar.Reader

variable {α β : Type}

/-! ## Running -/

/-- What a reader takes from the front of a text. -/
def run (p : Reader α) (cs : List Char) : Option (α × List Char) :=
  (p cs).result

@[simp] lemma run_pure (a : α) (cs : List Char) : (pure a : Reader α).run cs = some (a, cs) := rfl

lemma run_bind (p : Reader α) (f : α → Reader β) (cs : List Char) :
    (p >>= f).run cs = (p.run cs).bind fun r => (f r.1).run r.2 := by
  change (andThen p f cs).result = _
  unfold andThen run
  rcases p cs with ⟨failures, _ | ⟨a, left⟩⟩ <;> rfl

lemma bind_eq_some {p : Reader α} {f : α → Reader β} {cs : List Char} {r : β × List Char} :
    (p >>= f).run cs = some r ↔ ∃ a mid, p.run cs = some (a, mid) ∧ (f a).run mid = some r := by
  simp [run_bind, Option.bind_eq_some_iff]

lemma run_or (p q : Reader α) (cs : List Char) :
    (p <|> q).run cs = (p.run cs).or (q.run cs) := by
  change (Reader.or p (fun _ => q) cs).result = _
  unfold Reader.or run
  rcases p cs with ⟨failures, _ | r⟩ <;> rfl

lemma run_map (f : α → β) (p : Reader α) (cs : List Char) :
    (f <$> p).run cs = (p.run cs).map fun r => (f r.1, r.2) := by
  change (p >>= fun a => pure (f a)).run cs = _
  rw [run_bind]
  cases p.run cs <;> rfl

lemma map_eq_some {f : α → β} {p : Reader α} {cs left : List Char} {b : β} :
    (f <$> p).run cs = some (b, left) ↔ ∃ a, p.run cs = some (a, left) ∧ f a = b := by
  rw [run_map, Option.map_eq_some_iff]
  constructor
  · rintro ⟨⟨a, rest⟩, ha, heq⟩
    cases heq
    exact ⟨a, ha, rfl⟩
  · rintro ⟨a, ha, rfl⟩
    exact ⟨(a, left), ha, rfl⟩

lemma or_eq_some {p q : Reader α} {cs : List Char} {r : α × List Char}
    (h : (p <|> q).run cs = some r) : p.run cs = some r ∨ q.run cs = some r := by
  rw [run_or] at h
  cases ha : p.run cs with
  | some a => exact .inl (by simpa [ha] using h)
  | none => exact .inr (by simpa [ha] using h)

@[simp] lemma run_rule (p : Reader α) (cs : List Char) : (rule p).run cs = p.run cs := by
  simp only [run, rule]
  rcases p cs with ⟨failures, _ | r⟩ <;> rfl

lemma run_part (take? : List Char → Option (α × List Char)) (cs : List Char) :
    (part take?).run cs = take? cs := by
  simp only [run, part]
  cases take? cs <;> rfl

@[simp] lemma run_token (take? : List Char → Option (α × List Char)) (cs : List Char) :
    (token take?).run cs = take? cs := by
  rw [token, run_rule, run_part]

lemma run_text (s : String) (cs : List Char) :
    (text s).run cs = if s.toList.isPrefixOf cs then some ((), cs.drop s.toList.length) else none :=
  run_part _ cs

lemma run_absent (p : Reader α) (cs : List Char) :
    (absent p).run cs = match p.run cs with
      | none => some ((), cs)
      | some _ => none := by
  simp only [run, absent]
  rcases p cs with ⟨failures, _ | r⟩ <;> rfl

lemma absent_eq_some {p : Reader α} {cs : List Char} {r : Unit × List Char} :
    (absent p).run cs = some r ↔ p.run cs = none ∧ r = ((), cs) := by
  rw [run_absent]
  cases p.run cs <;> simp [eq_comm]

@[simp] lemma run_left (cs : List Char) : left.run cs = some (cs.length, cs) := rfl

lemma run_withText (p : Reader α) (cs : List Char) :
    (withText p).run cs =
      (p.run cs).map fun r => ((r.1, cs.take (cs.length - r.2.length)), r.2) := by
  simp only [run, withText]
  rcases p cs with ⟨failures, _ | ⟨a, left⟩⟩ <;> rfl

lemma run_optional_cons (p : Reader α) (c : Char) (cs : List Char) :
    (optional p).run (c :: cs) =
      match p.run (c :: cs) with
      | none => some (none, c :: cs)
      | some (a, left) => some (some a, left) := by
  simp only [run, optional]
  rcases p (c :: cs) with ⟨failures, _ | ⟨a, left⟩⟩ <;> rfl

/-- An option that finds nothing takes nothing, whether there is any text or not. -/
lemma run_optional_none {p : Reader α} {cs : List Char} (h : p.run cs = none) :
    (optional p).run cs = some (none, cs) := by
  cases cs with
  | nil => rfl
  | cons c cs => rw [run_optional_cons, h]

lemma run_optional_some {p : Reader α} {cs left : List Char} {a : α}
    (h : p.run cs = some (a, left)) (hcs : cs ≠ []) :
    (optional p).run cs = some (some a, left) := by
  cases cs with
  | nil => exact absurd rfl hcs
  | cons c cs => rw [run_optional_cons, h]

lemma optional_eq_some {p : Reader α} {cs left : List Char} {a : Option α}
    (h : (optional p).run cs = some (a, left)) :
    (a = none ∧ left = cs ∧ (cs = [] ∨ p.run cs = none)) ∨
      (cs ≠ [] ∧ ∃ b, a = some b ∧ p.run cs = some (b, left)) := by
  cases cs with
  | nil =>
      cases h
      exact .inl ⟨rfl, rfl, .inl rfl⟩
  | cons c cs =>
      rw [run_optional_cons] at h
      split at h
      · rename_i hp
        cases h
        exact .inl ⟨rfl, rfl, .inr hp⟩
      · rename_i b rest hp
        cases h
        exact .inr ⟨by simp, b, rfl, hp⟩

/-! ## Repetition -/

lemma run_manyWithin_cons (p : Reader α) (limit : Nat) (c : Char) (cs : List Char) :
    (manyWithin p (limit + 1)).run (c :: cs) =
      match p.run (c :: cs) with
      | none => some ([], c :: cs)
      | some (a, left) => ((manyWithin p limit).run left).map fun r => (a :: r.1, r.2) := by
  simp only [run, manyWithin]
  rcases p (c :: cs) with ⟨failures, _ | ⟨a, left⟩⟩ <;> rfl

/-- Some readings in a row, each of what the one before leaves. -/
inductive Row (p : Reader α) : List Char → List α → List Char → Prop where
  | nil (cs : List Char) : Row p cs [] cs
  | cons {cs mid left : List Char} {a : α} {as : List α} (h : p.run cs = some (a, mid))
      (hrow : Row p mid as left) : Row p cs (a :: as) left

/-- What a repetition reads is a row, no longer than the limit. -/
lemma row_of_manyWithin {p : Reader α} {limit : Nat} {cs left : List Char} {as : List α}
    (h : (manyWithin p limit).run cs = some (as, left)) : Row p cs as left ∧ as.length ≤ limit := by
  -- On the limit, which is lowered by each item.
  induction limit generalizing cs as with
  | zero =>
      cases h
      exact ⟨.nil _, Nat.le_refl _⟩
  | succ limit ih =>
      cases cs with
      | nil =>
          cases h
          exact ⟨.nil _, Nat.zero_le _⟩
      | cons c cs =>
          rw [run_manyWithin_cons] at h
          split at h
          · cases h
            exact ⟨.nil _, Nat.zero_le _⟩
          · rename_i a mid ha
            obtain ⟨⟨as', left'⟩, has, hr⟩ := Option.map_eq_some_iff.mp h
            cases hr
            obtain ⟨hrow, hlength⟩ := ih has
            exact ⟨.cons ha hrow, Nat.succ_le_succ hlength⟩

lemma row_of_many {p : Reader α} {cs left : List Char} {as : List α}
    (h : (many p).run cs = some (as, left)) : Row p cs as left ∧ as.length ≤ cs.length :=
  row_of_manyWithin h

/-- A row after which the reader fails is what a repetition reads. -/
lemma Row.run_manyWithin {p : Reader α} {limit : Nat} {cs left : List Char} {as : List α}
    (hrow : Row p cs as left) (hnil : p.run [] = none) (hstop : p.run left = none)
    (hlimit : as.length ≤ limit) : (Reader.manyWithin p limit).run cs = some (as, left) := by
  induction hrow generalizing limit with
  | nil cs =>
      cases limit with
      | zero => rfl
      | succ limit =>
          cases cs with
          | nil => rfl
          | cons c cs => rw [run_manyWithin_cons, hstop]
  | @cons cs mid left a as ha _ ih =>
      cases cs with
      | nil => simp [hnil] at ha
      | cons c cs =>
          obtain ⟨limit, rfl⟩ : ∃ n, limit = n + 1 := Nat.exists_eq_add_one.mpr
            (Nat.lt_of_lt_of_le (Nat.succ_pos _) hlimit)
          rw [run_manyWithin_cons, ha]
          simp only [ih hstop (Nat.le_of_succ_le_succ hlimit), Option.map_some]

/-- There is nothing in a row where the reader fails. -/
lemma Row.eq_nil {p : Reader α} {cs left : List Char} {as : List α} (h : Row p cs as left)
    (hstop : p.run cs = none) : as = [] ∧ left = cs := by
  cases h with
  | nil => exact ⟨rfl, rfl⟩
  | cons ha _ => cases hstop.symm.trans ha

lemma Row.of_cons {p : Reader α} {cs left : List Char} {a : α} {as : List α}
    (h : Row p cs (a :: as) left) : ∃ mid, p.run cs = some (a, mid) ∧ Row p mid as left := by
  cases h with
  | cons ha hrow => exact ⟨_, ha, hrow⟩

lemma Row.append {p : Reader α} {cs mid left : List Char} {as bs : List α} (h : Row p cs as mid)
    (h' : Row p mid bs left) : Row p cs (as ++ bs) left := by
  induction h with
  | nil => exact h'
  | cons ha _ ih => exact .cons ha (ih h')

lemma Row.map {p : Reader α} {cs left : List Char} {as : List α} (f : α → β)
    (h : Row p cs as left) : Row (f <$> p) cs (as.map f) left := by
  induction h with
  | nil cs => exact .nil cs
  | cons ha _ ih => exact .cons (map_eq_some.mpr ⟨_, ha, rfl⟩) ih

lemma Row.of_map {p : Reader α} {cs left : List Char} {f : α → β} {bs : List β}
    (h : Row (f <$> p) cs bs left) : ∃ as, as.map f = bs ∧ Row p cs as left := by
  induction h with
  | nil cs => exact ⟨[], rfl, .nil cs⟩
  | cons hb _ ih =>
      obtain ⟨as, rfl, hrow⟩ := ih
      obtain ⟨a, ha, rfl⟩ := map_eq_some.mp hb
      exact ⟨a :: as, rfl, .cons ha hrow⟩

/-! ## Whole texts -/

/-- A reader reads a whole text if it leaves nothing of it. -/
lemma readAll_eq_ok {p : Reader α} {cs : List Char} {a : α} :
    readAll p cs = .ok a ↔ p.run cs = some (a, []) := by
  unfold readAll run
  rcases p cs with ⟨failures, _ | ⟨b, _ | ⟨c, left⟩⟩⟩ <;> simp

/-! ## How a reading begins -/

/-- A text that the reader reads begins in some way. -/
def Begins (S : List Char → Prop) (p : Reader α) : Prop :=
  ∀ ⦃cs r⦄, p.run cs = some r → S cs

namespace Begins

variable {S T : List Char → Prop} {p q : Reader α}

lemma mono (h : Begins S p) (hST : ∀ cs, S cs → T cs) : Begins T p := fun _ _ hr => hST _ (h hr)

lemma rule (h : Begins S p) : Begins S (rule p) := fun cs _ hr =>
  h (run_rule p cs ▸ hr)

lemma bind (h : Begins S p) (f : α → Reader β) : Begins S (p >>= f) := fun _ _ hr =>
  let ⟨_, _, ha, _⟩ := bind_eq_some.mp hr
  h ha

lemma or (hp : Begins S p) (hq : Begins S q) : Begins S (p <|> q) := fun _ _ hr =>
  (or_eq_some hr).elim (fun h => hp h) fun h => hq h

/-- Nothing is read from a text that begins otherwise. -/
lemma run_eq_none (h : Begins S p) {cs : List Char} (hcs : ¬S cs) : p.run cs = none :=
  Option.eq_none_iff_forall_ne_some.mpr fun _ hr => hcs (h hr)

end Begins

/-! ## What a reading leaves -/

/-- A text and what the reader leaves of it are in relation. -/
def Tracks (R : List Char → List Char → Prop) (p : Reader α) : Prop :=
  ∀ ⦃cs a left⦄, p.run cs = some (a, left) → R cs left

namespace Tracks

variable {R : List Char → List Char → Prop} [IsPreorder (List Char) R] {p q : Reader α}

lemma pure (a : α) : Tracks R (pure a : Reader α) := by
  intro cs b left h
  cases h
  exact refl cs

omit [IsPreorder (List Char) R] in
lemma rule (h : Tracks R p) : Tracks R (rule p) := fun cs _ _ hr =>
  h (run_rule p cs ▸ hr)

lemma bind {f : α → Reader β} (h : Tracks R p) (hf : ∀ a, Tracks R (f a)) :
    Tracks R (p >>= f) := fun _ _ _ hr =>
  let ⟨a, _, ha, hb⟩ := bind_eq_some.mp hr
  IsTrans.trans _ _ _ (h ha) (hf a hb)

omit [IsPreorder (List Char) R] in
lemma or (hp : Tracks R p) (hq : Tracks R q) : Tracks R (p <|> q) := fun _ _ _ hr =>
  (or_eq_some hr).elim (fun h => hp h) fun h => hq h

lemma absent (p : Reader α) : Tracks R (absent p) := by
  intro cs a left hr
  obtain ⟨-, h⟩ := absent_eq_some.mp hr
  cases h
  exact refl cs

lemma optional (h : Tracks R p) : Tracks R (optional p) := by
  intro cs a left hr
  rcases optional_eq_some hr with ⟨-, rfl, -⟩ | ⟨-, b, -, hb⟩
  · exact refl _
  · exact h hb

lemma row (h : Tracks R p) {cs left : List Char} {as : List α} (hrow : Row p cs as left) :
    R cs left := by
  induction hrow with
  | nil cs => exact refl cs
  | cons ha _ ih => exact IsTrans.trans _ _ _ (h ha) ih

lemma many (h : Tracks R p) : Tracks R (many p) := fun _ _ _ hr =>
  h.row (row_of_many hr).1

omit [IsPreorder (List Char) R] in
lemma withText (h : Tracks R p) : Tracks R (withText p) := by
  intro cs a left hr
  rw [run_withText] at hr
  obtain ⟨⟨b, rest⟩, hb, heq⟩ := Option.map_eq_some_iff.mp hr
  cases heq
  exact h hb

lemma left : Tracks R left := by
  intro cs a rest hr
  cases hr
  exact refl cs

end Tracks

/-! ## More text behind -/

/-- The reader reads a text with more behind it as it reads the text alone. -/
def Local (more : List Char) (p : Reader α) : Prop :=
  ∀ cs, p.run (cs ++ more) = (p.run cs).map fun r => (r.1, r.2 ++ more)

namespace Local

variable {more : List Char} {p q : Reader α}

lemma pure (a : α) : Local more (pure a : Reader α) := fun _ => rfl

lemma rule (h : Local more p) : Local more (rule p) := by
  intro cs
  rw [run_rule, run_rule, h]

lemma bind {f : α → Reader β} (h : Local more p) (hf : ∀ a, Local more (f a)) :
    Local more (p >>= f) := by
  intro cs
  rw [run_bind, run_bind, h]
  cases p.run cs with
  | none => rfl
  | some r => exact hf r.1 r.2

lemma or (h : Local more p) (h' : Local more q) : Local more (p <|> q) := by
  intro cs
  rw [run_or, run_or, h, h']
  cases p.run cs <;> rfl

lemma absent (h : Local more p) : Local more (absent p) := by
  intro cs
  rw [run_absent, run_absent, h]
  cases p.run cs <;> rfl

/-- Where the reader fails on a text alone, it fails with more behind. -/
lemma run_eq_none (h : Local more p) {cs : List Char} (hcs : p.run cs = none) :
    p.run (cs ++ more) = none := by
  rw [h, hcs, Option.map_none]

lemma run_eq_some (h : Local more p) {cs left : List Char} {a : α}
    (hcs : p.run cs = some (a, left)) : p.run (cs ++ more) = some (a, left ++ more) := by
  rw [h, hcs, Option.map_some]

end Local

/-- Whatever the first reader reads from a text, the second one reads from the text with more behind
it, if what is left fits. -/
def Extends (more : List Char) (fits : List Char → Prop) (p q : Reader α) : Prop :=
  ∀ ⦃cs a left⦄, p.run cs = some (a, left) → fits left →
    q.run (cs ++ more) = some (a, left ++ more)

namespace Extends

variable {more : List Char} {fits fits' : List Char → Prop} {p q : Reader α}

lemma mono (h : Extends more fits p q) (hfits : ∀ left, fits' left → fits left) :
    Extends more fits' p q := fun _ _ _ hr hleft => h hr (hfits _ hleft)

lemma pure (a : α) : Extends more fits (pure a : Reader α) (pure a) := by
  intro cs b left h _
  cases h
  rfl

lemma rule (h : Extends more fits p q) : Extends more fits (rule p) (rule q) := by
  intro cs a left hr hleft
  rw [run_rule] at hr ⊢
  exact h hr hleft

/-- One reader after the other: where the second one reads, what the first one leaves fits. -/
lemma bind {f g : α → Reader β} (h : Extends more fits p q)
    (hf : ∀ a, Extends more fits' (f a) (g a))
    (hfits : ∀ {a mid b left}, (f a).run mid = some (b, left) →
      (g a).run (mid ++ more) = some (b, left ++ more) → fits' left → fits mid) :
    Extends more fits' (p >>= f) (q >>= g) := by
  intro cs b left hr hleft
  obtain ⟨a, mid, ha, hb⟩ := bind_eq_some.mp hr
  have hb' := hf a hb hleft
  exact bind_eq_some.mpr ⟨a, mid ++ more, h ha (hfits hb hb' hleft), hb'⟩

/-- A choice: where the second branch reads because the first one fails, the first one fails with
more behind, too. -/
lemma or {p' q' : Reader α} (h : Extends more fits p q) (h' : Extends more fits p' q')
    (hfirst : ∀ {cs a left}, p.run cs = none → p'.run cs = some (a, left) →
      q'.run (cs ++ more) = some (a, left ++ more) → fits left → q.run (cs ++ more) = none) :
    Extends more fits (p <|> p') (q <|> q') := by
  intro cs a left hr hleft
  rw [run_or] at hr ⊢
  cases ha : p.run cs with
  | some b =>
      rw [ha] at hr
      cases hr
      rw [h ha hleft, Option.some_or]
  | none =>
      rw [ha, Option.none_or] at hr
      have hr' := h' hr hleft
      rw [hfirst ha hr hr' hleft, Option.none_or, hr']

lemma of_local (h : Local more p) : Extends more fits p p := fun _ _ _ hr _ => h.run_eq_some hr

/-- A local reader before another one. -/
lemma local_bind {f g : α → Reader β} (h : Local more p)
    (hf : ∀ a, Extends more fits (f a) (g a)) : Extends more fits (p >>= f) (p >>= g) := by
  intro cs b left hr hleft
  obtain ⟨a, mid, ha, hb⟩ := bind_eq_some.mp hr
  exact bind_eq_some.mpr ⟨a, mid ++ more, h.run_eq_some ha, hf a hb hleft⟩

lemma bind_pure (h : Extends more fits p q) (f : α → β) :
    Extends more fits (p >>= fun a => Pure.pure (f a)) (q >>= fun a => Pure.pure (f a)) := by
  intro cs b left hr hleft
  obtain ⟨a, mid, ha, hb⟩ := bind_eq_some.mp hr
  cases hb
  exact bind_eq_some.mpr ⟨a, left ++ more, h ha hleft, rfl⟩

/-- A choice whose first branch is local. -/
lemma local_or {p' q' : Reader α} (h : Local more p) (h' : Extends more fits p' q') :
    Extends more fits (p <|> p') (p <|> q') :=
  (of_local h).or h' fun ha _ _ _ => h.run_eq_none ha

/-- An option: where it finds nothing, it finds nothing with more behind, either. -/
lemma optional (h : Extends more fits p q) :
    Extends more (fun left => fits left ∧ q.run (left ++ more) = none) (optional p)
      (optional q) := by
  intro cs a left hr ⟨hleft, hstop⟩
  rcases optional_eq_some hr with ⟨rfl, rfl, -⟩ | ⟨hcs, b, rfl, hb⟩
  · exact run_optional_none hstop
  · exact run_optional_some (h hb hleft) (by simp [hcs])

/-- A row: where one member follows another, what the first one leaves fits. -/
lemma row (h : Extends more fits p q)
    (hnext : ∀ {cs a left}, p.run cs = some (a, left) →
      q.run (cs ++ more) = some (a, left ++ more) → fits left → fits cs)
    {cs left : List Char} {as : List α} (hrow : Row p cs as left) (hleft : fits left) :
    Row q (cs ++ more) as (left ++ more) ∧ fits cs := by
  induction hrow with
  | nil cs => exact ⟨.nil _, hleft⟩
  | cons ha _ ih =>
      obtain ⟨hrest, hmid⟩ := ih hleft
      have ha' := h ha hmid
      exact ⟨.cons ha' hrest, hnext ha ha' hmid⟩

/-- A repetition: where it ends, the reader fails with more behind, too. -/
lemma manyWithin (h : Extends more fits p q) (hnil : q.run [] = none)
    (hnext : ∀ {cs a left}, p.run cs = some (a, left) →
      q.run (cs ++ more) = some (a, left ++ more) → fits left → fits cs)
    {limit limit' : Nat} (hlimit : limit ≤ limit') :
    Extends more (fun left => fits left ∧ q.run (left ++ more) = none) (manyWithin p limit)
      (manyWithin q limit') := by
  intro cs as left hr ⟨hleft, hstop⟩
  obtain ⟨hrow, hlength⟩ := row_of_manyWithin hr
  exact (h.row hnext hrow hleft).1.run_manyWithin hnil hstop (Nat.le_trans hlength hlimit)

lemma many (h : Extends more fits p q) (hnil : q.run [] = none)
    (hnext : ∀ {cs a left}, p.run cs = some (a, left) →
      q.run (cs ++ more) = some (a, left ++ more) → fits left → fits cs) :
    Extends more (fun left => fits left ∧ q.run (left ++ more) = none) (many p) (many q) := by
  intro cs as left hr hleft
  have hlimit : cs.length ≤ (cs ++ more).length := by simp
  exact h.manyWithin hnil hnext hlimit hr hleft

/-- A reading before a repetition, which ends where what comes after it begins. -/
lemma bind_many {γ : Type} {q' p' : Reader β} {f g : α → List β → Reader γ}
    (h : Extends more fits p q) (h' : Extends more fits p' q') (hnil : q'.run [] = none)
    (hnext : ∀ {cs b left}, p'.run cs = some (b, left) →
      q'.run (cs ++ more) = some (b, left ++ more) → fits left → fits cs)
    (hf : ∀ a bs, Extends more fits' (f a bs) (g a bs))
    (hstop : ∀ {a bs mid c left}, (f a bs).run mid = some (c, left) →
      (g a bs).run (mid ++ more) = some (c, left ++ more) → fits' left →
        fits mid ∧ q'.run (mid ++ more) = none) :
    Extends more fits' (do let a ← p; let bs ← Reader.many p'; f a bs)
      (do let a ← q; let bs ← Reader.many q'; g a bs) := by
  intro cs c left hr hleft
  obtain ⟨a, start, ha, hr⟩ := bind_eq_some.mp hr
  obtain ⟨bs, mid, hbs, hc⟩ := bind_eq_some.mp hr
  have hc' := hf a bs hc hleft
  obtain ⟨hmid, hnone⟩ := hstop hc hc' hleft
  obtain ⟨hrow, hlength⟩ := row_of_many hbs
  obtain ⟨hrow, hstart⟩ := h'.row hnext hrow hmid
  have hlimit : bs.length ≤ (start ++ more).length := by
    rw [List.length_append]
    omega
  exact bind_eq_some.mpr ⟨a, start ++ more, h ha hstart, bind_eq_some.mpr
    ⟨bs, mid ++ more, hrow.run_manyWithin hnil hnone hlimit, hc'⟩⟩

/-- The text that was taken does not change. -/
lemma withText (h : Extends more fits p q) :
    Extends more fits (withText p) (withText q) := by
  intro cs a left hr hleft
  rw [run_withText] at hr ⊢
  obtain ⟨⟨b, rest⟩, hb, heq⟩ := Option.map_eq_some_iff.mp hr
  cases heq
  rw [h hb hleft, Option.map_some]
  have hsize : (cs ++ more).length - (rest ++ more).length = cs.length - rest.length := by
    simp only [List.length_append]
    omega
  simp only [hsize, List.take_append_of_le_length (Nat.sub_le cs.length rest.length)]

end Extends

end BitPattern.Grammar.Reader
