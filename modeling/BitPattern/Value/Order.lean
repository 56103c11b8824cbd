import BitPattern.Value.Basic

/-!
# Equality and order of values

Two values are the same if their contents are: a truth value is the same as the integer it counts
as, byte strings of any kinds are compared by their bytes, bitstrings by the bits in view and
dictionaries key by key.  Values of different types are never the same.

Numbers, texts, byte strings, tuples and lists have an order, each among themselves; sequences
compare by the first members that are not the same, and else by length.
-/

namespace BitPattern.Value

mutual

/-- Whether two values are the same. -/
def same : Value → Value → Bool
  | none, none => true
  | int m, int n => m == n
  -- Truth values count as numbers.
  | int m, bool b => m == if b then 1 else 0
  | bool a, int n => (if a then 1 else 0) == n
  | bool a, bool b => a == b
  | text s, text t => s == t
  | bytes _ a, bytes _ b => a == b
  | bits a, bits b => a.same b
  | tuple xs, tuple ys => sameAll xs ys
  | list xs, list ys => sameAll xs ys
  | dict xs, dict ys => xs.length == ys.length && sameEntries xs ys
  | endian d, endian e => d == e
  | builtin f, builtin g => f == g
  -- A union of types has no order.
  | union fs, union gs => fs.all gs.contains && gs.all fs.contains
  | probe p, probe q => p == q
  | arm i, arm j => i == j
  | _, _ => false

/-- Whether two lists hold the same values in the same order. -/
def sameAll : List Value → List Value → Bool
  | [], [] => true
  | x :: xs, y :: ys => same x y && sameAll xs ys
  | _, _ => false

/-- Whether a dictionary has the same value as another under each of its keys, in whatever order
the keys come. -/
def sameEntries : List (String × Value) → List (String × Value) → Bool
  | [], _ => true
  | (key, x) :: xs, ys =>
    (match ys.lookup key with
      | some y => same x y
      | Option.none => false) && sameEntries xs ys

end

/-- The order of two lists of members that have an order. -/
def compareLists {α : Type} [BEq α] (less : α → α → Bool) : List α → List α → Ordering
  | [], [] => .eq
  | [], _ :: _ => .lt
  | _ :: _, [] => .gt
  | x :: xs, y :: ys =>
    if x == y then compareLists less xs ys else if less x y then .lt else .gt

/-- Whether byte strings of two kinds have an order. -/
def comparableKinds : BytesKind → BytesKind → Bool
  | .view, kind | kind, .view => kind == .mutable
  | _, _ => true

mutual

/-- The order of two values, if they have one. -/
def compare? : Value → Value → Option Ordering
  | int m, int n => some (compare m n)
  | int m, bool b => some (compare m (if b then 1 else 0))
  | bool a, int n => some (compare (if a then 1 else 0) n)
  | bool a, bool b => some (compare a.toNat b.toNat)
  | text s, text t => some (compareLists (· < ·) s.toList t.toList)
  | bytes k a, bytes l b =>
    if comparableKinds k l then some (compareLists (· < ·) a b) else Option.none
  | tuple xs, tuple ys => compareAll? xs ys
  | list xs, list ys => compareAll? xs ys
  | _, _ => Option.none

/-- The order of two lists of values, by the first members that are not the same. -/
def compareAll? : List Value → List Value → Option Ordering
  | [], [] => some .eq
  | [], _ :: _ => some .lt
  | _ :: _, [] => some .gt
  | x :: xs, y :: ys => if same x y then compareAll? xs ys else compare? x y

end

/-- Whether one value comes before another. -/
def less (v w : Value) : Except Fault Bool :=
  match compare? v w with
  | some order => .ok (order == .lt)
  | Option.none => .error .type

end BitPattern.Value
