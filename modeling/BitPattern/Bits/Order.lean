import BitPattern.Bits.Basic

/-!
# Byte orders

Big endian reads the bits of an integer with the first one most significant.  Little endian cuts
them into chunks of eight, the last of which may be shorter, and gives chunk `k` the weight
`2 ^ (8 * k)`; within a chunk the first bit is most significant.  `ofStream` and `toStream` turn the
number that the bits denote in stream order into the integer and back.
-/

namespace BitPattern

/-- The order in which the chunks of an integer follow each other. -/
inductive ByteOrder where
  | big | little
  deriving DecidableEq, Repr

namespace ByteOrder

/-- The name of an order. -/
def name : ByteOrder → String
  | big => "big"
  | little => "little"

/-- The order that `native` means where nothing else is said. -/
def machine : ByteOrder := .little

/-- The order that a name means. -/
def ofName? (s : String) : Option ByteOrder :=
  if s == "big" then some .big
  else if s == "little" then some .little
  else if s == "native" then some machine
  else none

/-- The widths of the chunks of an integer, in stream order. -/
def chunks (width : Nat) : List Nat :=
  List.replicate (width / 8) 8 ++ (if width % 8 = 0 then [] else [width % 8])

/-- The number of bits of chunks of given widths. -/
def total : List Nat → Nat
  | [] => 0
  | size :: rest => size + total rest

/-- The integer whose chunks, with the first least significant, are found in a number that holds
them with the first most significant. -/
def reverseChunks : List Nat → Nat → Nat
  | [], _ => 0
  | size :: rest, raw =>
    (raw >>> total rest) % Bits.bound size + Bits.bound size * reverseChunks rest raw

/-- The number that holds chunks with the first most significant, taken from one that holds them
with the first least significant. -/
def restoreChunks : List Nat → Nat → Nat
  | [], _ => 0
  | size :: rest, n =>
    n % Bits.bound size * Bits.bound (total rest) + restoreChunks rest (n >>> size)

/-- The integer that the bits in stream order denote. -/
def ofStream (order : ByteOrder) (width raw : Nat) : Nat :=
  match order with
  | big => raw
  | little => if width ≤ 8 then raw else reverseChunks (chunks width) raw

/-- The bits in stream order that denote the integer. -/
def toStream (order : ByteOrder) (width n : Nat) : Nat :=
  match order with
  | big => n
  | little => if width ≤ 8 then n else restoreChunks (chunks width) n

end ByteOrder

end BitPattern
