/-!
# Dispatch

Cases are tried in order, and the first one that gives a value decides.  No case after it is tried.
-/

namespace BitPattern

/-- What came of trying some cases: the value and the place of the one that matched, or nothing. -/
structure MatchResult (α : Type) where
  found : Option (Nat × α)

namespace MatchResult

variable {α : Type}

/-- Whether a case matched. -/
def matched (r : MatchResult α) : Bool :=
  r.found.isSome

/-- The name of the outcome. -/
def state (r : MatchResult α) : String :=
  if r.matched then "matched" else "exhausted"

end MatchResult

/-- Tries cases that give a value or nothing, numbered on from `index`. -/
def dispatchFrom {m : Type → Type} [Monad m] {σ α : Type} (index : Nat) (subject : σ) :
    List (σ → m (Option α)) → m (MatchResult α)
  | [] => pure ⟨none⟩
  | f :: rest => do
    match ← f subject with
    | some a => pure ⟨some (index, a)⟩
    | none => dispatchFrom (index + 1) subject rest

/-- Tries cases in order. -/
def dispatch {m : Type → Type} [Monad m] {σ α : Type} (cases : List (σ → m (Option α)))
    (subject : σ) : m (MatchResult α) :=
  dispatchFrom 0 subject cases

end BitPattern
