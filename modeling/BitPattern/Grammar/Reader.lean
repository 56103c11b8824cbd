/-!
# Readers

A reader takes characters from the front of a text and gives a value and what is left, or fails.
Choice is ordered and repetition takes all it can, so every text has at most one reading.

Beside its result a reader says where it failed on the way.  A place is counted by the number of
characters left, so the furthest failure has the fewest.  Failures of rules count, and so does the
very first failure of any kind; those of the small parts of a rule do not.  `furthest?` is what a
format error points at.
-/

namespace BitPattern.Grammar

/-! ## Failures -/

/-- Where failures occurred, by the number of characters left. -/
structure Failures where
  /-- The first failure of any kind. -/
  first : Option Nat := none
  /-- The furthest failure of a rule. -/
  rule : Option Nat := none
  deriving DecidableEq, Repr

namespace Failures

/-- The smaller of two counts, where there are any. -/
def least : Option Nat → Option Nat → Option Nat
  | some m, some n => some (min m n)
  | some m, none => some m
  | none, n => n

/-- Failures followed by further ones. -/
def join (a b : Failures) : Failures :=
  ⟨a.first <|> b.first, least a.rule b.rule⟩

/-- The failure of a part of a rule with these characters left. -/
def ofPart (left : List Char) : Failures :=
  ⟨some left.length, none⟩

/-- The failure of a rule with these characters left. -/
def ofRule (left : List Char) : Failures :=
  ⟨some left.length, some left.length⟩

/-- The fewest characters left at a failure that counts. -/
def furthest? (f : Failures) : Option Nat :=
  least f.first f.rule

end Failures

/-! ## Readings -/

/-- What a reader makes of a text: the failures on the way, and the value with the characters that
are left unless it fails. -/
structure Reading (α : Type) where
  failures : Failures
  result : Option (α × List Char)

/-- A reader of values of a type. -/
def Reader (α : Type) : Type :=
  List Char → Reading α

namespace Reader

variable {α β : Type}

/-- Takes nothing and gives a value. -/
def ok (a : α) : Reader α := fun cs => ⟨{}, some (a, cs)⟩

/-- One reader and then another that depends on the value of the first. -/
def andThen (p : Reader α) (f : α → Reader β) : Reader β := fun cs =>
  match p cs with
  | ⟨failures, none⟩ => ⟨failures, none⟩
  | ⟨failures, some (a, left)⟩ =>
    let next := f a left
    ⟨failures.join next.failures, next.result⟩

instance : Monad Reader where
  pure := ok
  bind := andThen

/-- The first reader that does not fail. -/
def or (p : Reader α) (q : Unit → Reader α) : Reader α := fun cs =>
  match p cs with
  | ⟨failures, none⟩ =>
    let next := q () cs
    ⟨failures.join next.failures, next.result⟩
  | reading => reading

instance : OrElse (Reader α) := ⟨or⟩

/-- A part of a rule, which takes what `take?` finds at the front. -/
def part (take? : List Char → Option (α × List Char)) : Reader α := fun cs =>
  match take? cs with
  | some result => ⟨{}, some result⟩
  | none => ⟨.ofPart cs, none⟩

/-- Makes a reader a rule, whose failures count. -/
def rule (p : Reader α) : Reader α := fun cs =>
  match p cs with
  | ⟨failures, none⟩ => ⟨failures.join (.ofRule cs), none⟩
  | reading => reading

/-- A rule that takes what `take?` finds at the front. -/
def token (take? : List Char → Option (α × List Char)) : Reader α :=
  rule (part take?)

/-- The characters of a fixed text at the front. -/
def takeText? (text : List Char) : List Char → Option (Unit × List Char) := fun cs =>
  if text.isPrefixOf cs then some ((), cs.drop text.length) else none

/-- A fixed text. -/
def text (s : String) : Reader Unit :=
  part (takeText? s.toList)

/-- Succeeds, and takes nothing, where the reader fails. -/
def absent (p : Reader α) : Reader Unit := fun cs =>
  match p cs with
  | ⟨failures, none⟩ => ⟨failures, some ((), cs)⟩
  | ⟨failures, some _⟩ => ⟨failures.join (.ofPart cs), none⟩

/-- The value of a reader if there is any text and it does not fail. -/
def optional (p : Reader α) : Reader (Option α) := fun cs =>
  match cs with
  | [] => ⟨{}, some (none, [])⟩
  | _ :: _ =>
    match p cs with
    | ⟨failures, none⟩ => ⟨failures, some (none, cs)⟩
    | ⟨failures, some (a, left)⟩ => ⟨failures, some (some a, left)⟩

/-- The values of at most `limit` readings in a row, while there is any text. -/
def manyWithin (p : Reader α) : Nat → Reader (List α)
  | 0 => ok []
  | limit + 1 => fun cs =>
    match cs with
    | [] => ⟨{}, some ([], [])⟩
    | _ :: _ =>
      match p cs with
      | ⟨failures, none⟩ => ⟨failures, some ([], cs)⟩
      | ⟨failures, some (a, left)⟩ =>
        let next := manyWithin p limit left
        ⟨failures.join next.failures, next.result.map fun (as, left) => (a :: as, left)⟩

/-- The values of as many readings in a row as succeed.  Each takes at least a character, so there
are no more of them than characters. -/
def many (p : Reader α) : Reader (List α) := fun cs =>
  manyWithin p cs.length cs

/-- The number of characters left. -/
def left : Reader Nat := fun cs => ⟨{}, some (cs.length, cs)⟩

/-- A value with the characters that were taken for it. -/
def withText (p : Reader α) : Reader (α × List Char) := fun cs =>
  match p cs with
  | ⟨failures, none⟩ => ⟨failures, none⟩
  | ⟨failures, some (a, left)⟩ =>
    ⟨failures, some ((a, cs.take (cs.length - left.length)), left)⟩

/-! ## Whole texts -/

/-- The value of a reader that takes the whole text, or the offset that a format error points at:
the end of what was taken, or else the furthest failure. -/
def readAll (p : Reader α) (cs : List Char) : Except Nat α :=
  match p cs with
  | ⟨_, some (a, [])⟩ => .ok a
  | ⟨_, some (_, left)⟩ => .error (cs.length - left.length)
  | ⟨failures, none⟩ => .error (cs.length - failures.furthest?.getD cs.length)

end Reader

end BitPattern.Grammar
