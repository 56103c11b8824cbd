import BitPattern.Proofs.Expr.Eval
import Mathlib.Data.List.Induction
import Mathlib.Data.List.Nodup

/-!
# Names in the order in which they stand

The mentions of an expression are its names and called functions as they stand in it, from left to
right and as often as they do.  `freeNames` lists each of them once, in the order of the first
mentions (`freeNames_firsts`), so whatever is looked for first among the mentions is found first
among the names (`find?_freeNames`).
-/

namespace BitPattern.Expr

mutual

/-- The names and called functions of an expression as they stand in it, from left to right. -/
def mentions : Expr → List String
  | int _ | bytes _ | bool _ => []
  | name x => [x]
  | binary _ left right => left.mentions ++ right.mentions
  | unary _ operand => operand.mentions
  | call function args => function :: mentionsOf args
  | tuple items => mentionsOf items

/-- Those of several expressions. -/
def mentionsOf : List Expr → List String
  | [] => []
  | e :: rest => e.mentions ++ mentionsOf rest

end

/-- Some names are the mentions without repetitions: each once, in the order of its first
mention. -/
structure FirstsOf (names mentions : List String) : Prop where
  nodup : names.Nodup
  mem_iff : ∀ x, x ∈ names ↔ x ∈ mentions
  ordered : names.Pairwise fun x y => mentions.idxOf x < mentions.idxOf y

variable {names all : List String}

/-! ## One mention more -/

lemma insertName_of_mem {x : String} (h : x ∈ names) : insertName names x = names :=
  if_pos (List.contains_iff_mem.mpr h)

lemma insertName_of_not_mem {x : String} (h : x ∉ names) : insertName names x = names ++ [x] :=
  if_neg fun hx => h (List.contains_iff_mem.mp hx)

/-- A further mention adds a name at the end or nothing at all. -/
lemma FirstsOf.insertName (h : FirstsOf names all) (x : String) :
    FirstsOf (insertName names x) (all ++ [x]) := by
  -- The names that are there keep their order, as their first mentions do.
  have hold : names.Pairwise fun y z =>
      (all ++ [x]).idxOf y < (all ++ [x]).idxOf z :=
    h.ordered.imp_of_mem fun hy hz hlt => by
      rwa [List.idxOf_append_of_mem ((h.mem_iff _).mp hy),
        List.idxOf_append_of_mem ((h.mem_iff _).mp hz)]
  by_cases hx : x ∈ names
  · rw [insertName_of_mem hx]
    refine ⟨h.nodup, fun y => ?_, hold⟩
    rw [List.mem_append, List.mem_singleton, h.mem_iff]
    refine ⟨.inl, fun hy => hy.elim id ?_⟩
    rintro rfl
    exact (h.mem_iff _).mp hx
  · rw [insertName_of_not_mem hx]
    have hmentions : x ∉ all := fun hmem => hx ((h.mem_iff x).mpr hmem)
    have hnodup := h.nodup.append (List.nodup_singleton x) (List.disjoint_singleton.mpr hx)
    refine ⟨hnodup, fun y => ?_, ?_⟩
    · rw [List.mem_append, List.mem_append, h.mem_iff]
    · refine List.pairwise_append.mpr ⟨hold, List.pairwise_singleton _ _, fun y hy z hz => ?_⟩
      obtain rfl := List.mem_singleton.mp hz
      have hy := (h.mem_iff y).mp hy
      rw [List.idxOf_append_of_mem hy, List.idxOf_append_of_notMem hmentions]
      exact Nat.lt_add_right _ (List.idxOf_lt_length_iff.mpr hy)

/-! ## All mentions -/

lemma foldl_insertName_firsts (all : List String) :
    FirstsOf (all.foldl Expr.insertName []) all := by
  induction all using List.reverseRecOn with
  | nil => exact ⟨List.nodup_nil, fun x => Iff.rfl, .nil⟩
  | append_singleton all x ih =>
      rw [List.foldl_append]
      exact ih.insertName x

/-- What is found first among the names is found first among the mentions. -/
lemma find?_foldl_insertName (p : String → Bool) (all : List String) :
    (all.foldl Expr.insertName []).find? p = all.find? p := by
  induction all using List.reverseRecOn with
  | nil => rfl
  | append_singleton all x ih =>
      rw [List.foldl_append, List.foldl_cons, List.foldl_nil, List.find?_append, ← ih]
      by_cases hx : x ∈ all.foldl Expr.insertName []
      · rw [insertName_of_mem hx]
        cases hfind : (all.foldl Expr.insertName []).find? p with
        | some y => rfl
        | none => simp [List.find?_eq_none.mp hfind x hx]
      · rw [insertName_of_not_mem hx, List.find?_append]

lemma collectAll_eq {es : List Expr}
    (h : ∀ e ∈ es, ∀ found, collectNames found e = e.mentions.foldl Expr.insertName found)
    (found : List String) :
    collectAll found es = (mentionsOf es).foldl Expr.insertName found := by
  induction es generalizing found with
  | nil => rfl
  | cons e es ih =>
      obtain ⟨he, hes⟩ := List.forall_mem_cons.mp h
      rw [collectAll, mentionsOf, List.foldl_append, he, ih hes]

/-- Collecting the names of an expression inserts its mentions one after the other. -/
lemma collectNames_eq (e : Expr) (found : List String) :
    collectNames found e = e.mentions.foldl Expr.insertName found := by
  induction e generalizing found with
  | int | bytes | bool | name => rfl
  | binary op left right ihl ihr => rw [collectNames, mentions, List.foldl_append, ihl, ihr]
  | unary op operand ih => exact ih found
  | call function args ih =>
      rw [collectNames, mentions, List.foldl_cons, collectAll_eq fun e he found => ih e he found]
  | tuple items ih => exact collectAll_eq (fun e he found => ih e he found) found

/-- **The free names of an expression** are its mentions, each once, in the order in which they
first appear. -/
theorem freeNames_firsts (e : Expr) : FirstsOf e.freeNames e.mentions := by
  rw [freeNames, collectNames_eq]
  exact foldl_insertName_firsts e.mentions

lemma find?_freeNames (p : String → Bool) (e : Expr) :
    e.freeNames.find? p = e.mentions.find? p := by
  rw [freeNames, collectNames_eq, find?_foldl_insertName]

end BitPattern.Expr
