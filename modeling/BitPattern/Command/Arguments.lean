import BitPattern.Text.Ranges

/-!
# Command line arguments

Arguments are read from left to right against a list of switches.  A long switch may be shortened
as long as it stays unambiguous and may have its value after an equals sign; short switches without
values may be joined, and the value of a short switch may follow it directly.  After `--` nothing is
a switch any more, and in place of a value it stands for none.  A lone minus sign, a negative number
and whatever holds a space are no switches unless they are declared ones.
-/

namespace BitPattern.Command

open BitPattern.Text

/-- A switch: its spellings and whether it takes a value. -/
structure Switch where
  names : List String
  takesValue : Bool
  deriving DecidableEq, Repr

/-- The first spelling of a switch, by which it is known. -/
def Switch.key (s : Switch) : String :=
  s.names.headD ""

/-- An argument as it is understood. -/
inductive Token where
  /-- An argument that is no switch. -/
  | plain (arg : String)
  /-- The mark after which there are no switches. -/
  | mark
  /-- A switch, the spelling it matched, and the value written with it. -/
  | switch (s : Switch) (spelling : String) (value : Option String)
  /-- What looks like a switch and is none. -/
  | unknown (arg : String)
  deriving DecidableEq, Repr

/-- The readings of an argument as a shortened or joined switch. -/
def candidates (switches : List Switch) (arg : String) : List Token :=
  let spellings := switches.flatMap fun s => s.names.map fun name => (s, name)
  if "--".toList.isPrefixOf arg.toList then
    let (start, rest) := arg.toList.span (· != '=')
    let value := match rest with
      | [] => none
      | _ :: v => some (String.ofList v)
    -- A long switch may be cut short.
    (spellings.filter fun (_, name) => start.isPrefixOf name.toList).map
      fun (s, name) => .switch s name value
  else
    spellings.filterMap fun (s, name) =>
      if name.toList == arg.toList.take 2 then
        some (.switch s name (some (String.ofList (arg.toList.drop 2))))
      else if arg.toList.isPrefixOf name.toList then some (.switch s name none)
      else none

/-- A decimal digit of any script. -/
def isDecimal (c : Char) : Bool :=
  c.isDigit || (decimalValue? c).isSome

/-- A negative number, with or without a fraction; a line feed may end it. -/
def isNegativeNumber (arg : String) : Bool :=
  match arg.toList with
  | '-' :: rest =>
    let digits := if rest.getLast? == some '\n' then rest.dropLast else rest
    let (whole, fraction) := digits.span isDecimal
    match fraction with
    | [] => !whole.isEmpty
    | '.' :: digits => !digits.isEmpty && digits.all isDecimal
    | _ => false
  | _ => false

/-- The switch of that exact spelling. -/
def findSwitch? (switches : List Switch) (spelling : String) : Option Switch :=
  switches.find? (·.names.contains spelling)

/-- How an argument is understood; nothing if it could be several switches. -/
def tokenOf? (switches : List Switch) (arg : String) : Option Token :=
  match arg.toList with
  | [] => some (.plain arg)
  | ['-'] => some (.plain arg)
  | c :: _ =>
    if c != '-' then some (.plain arg)
    else match findSwitch? switches arg with
    | some s => some (.switch s arg none)
    | none =>
      -- A value may follow the switch behind a sign of equality.
      let (start, rest) := arg.toList.span (· != '=')
      match findSwitch? switches (String.ofList start), rest with
      | some s, _ :: value => some (.switch s (String.ofList start) (some (String.ofList value)))
      | _, _ =>
        match candidates switches arg with
        | [token] => some token
        | _ :: _ :: _ => none
        | [] =>
          if isNegativeNumber arg || arg.toList.contains ' ' then some (.plain arg)
          else some (.unknown arg)

/-- The mark after which nothing is a switch. -/
def markText : String := "--"

/-- A value of a switch, or an argument that is no switch: a text, or nothing where the mark stands
in its place. -/
abbrev Operand := Option String

/-- The operand that a text gives. -/
def operand (text : String) : Operand :=
  if text == markText then none else some text

/-- The tokens of arguments. -/
def tokensOf? (switches : List Switch) : List String → Option (List Token)
  | [] => some []
  | arg :: rest =>
    if arg == markText then some (.mark :: rest.map .plain)
    else do
      let token ← tokenOf? switches arg
      let tokens ← tokensOf? switches rest
      pure (token :: tokens)

/-- A switch that was given, by its key, with its value if it has one. -/
structure Given where
  key : String
  value : Operand := none
  deriving DecidableEq, Repr

/-- What one token stands for: the switches that are given, and the one that still wants a value. -/
structure Reading where
  given : List Given
  wanting : Option Switch := none
  deriving DecidableEq, Repr

/-- The switches that joined short ones stand for, after those given by the characters before;
nothing if one of them is none. -/
def joined? (switches : List Switch) (given : List Given) : List Char → Option Reading
  | [] => some { given }
  | c :: rest => do
    let s ← findSwitch? switches (String.ofList ['-', c])
    if s.takesValue then
      if rest.isEmpty then some { given, wanting := some s }
      else some { given := given ++ [⟨s.key, operand (String.ofList rest)⟩] }
    else joined? switches (given ++ [{ key := s.key }]) rest

/-- The switches that one token stands for; nothing if it has a value that it does not take. -/
def switchesOf? (switches : List Switch) (s : Switch) (spelling : String) (value : Option String) :
    Option Reading :=
  match value, s.takesValue with
  | none, true => some { given := [], wanting := some s }
  | none, false => some { given := [{ key := s.key }] }
  | some v, true => some { given := [⟨s.key, operand v⟩] }
  | some v, false =>
    if "--".toList.isPrefixOf spelling.toList || v.isEmpty then none
    else joined? switches [{ key := s.key }] v.toList

/-- What arguments come to: the switches given, in order, and the others; `surplus` tells that there
was something that has no place. -/
structure Arguments where
  given : List Given := []
  plain : List Operand := []
  surplus : Bool := false
  deriving DecidableEq, Repr

/-- Takes an argument that is no switch, of which at most `places` have a place. -/
def Arguments.take (a : Arguments) (places : Nat) (value : Operand) : Arguments :=
  { a with plain := a.plain ++ [value], surplus := a.surplus || places ≤ a.plain.length }

/-- Reads tokens up to the first switch whose key is in `stops`, which ends the reading, or to the
end.  The mark belongs to the argument before it if `running` tells that one has just been read, and
else to the argument after it, whatever that one is. -/
def readTokens (switches : List Switch) (stops : List String) (places : Nat) (running : Bool)
    (sofar : Arguments) : List Token → Option Arguments
  | [] => some sofar
  | .plain arg :: rest =>
    readTokens switches stops places true (sofar.take places (operand arg)) rest
  | .mark :: rest =>
    match running, rest with
    | false, [] => some { sofar with surplus := true }
    | false, .plain arg :: rest =>
      readTokens switches stops places true (sofar.take places (some arg)) rest
    | _, rest => readTokens switches stops places running sofar rest
  | .unknown _ :: rest => readTokens switches stops places false { sofar with surplus := true } rest
  | .switch s spelling value :: rest =>
    match switchesOf? switches s spelling value with
    | none => none
    | some reading =>
      let sofar := { sofar with given := sofar.given ++ reading.given }
      if reading.given.any fun g => stops.contains g.key then some sofar
      else match reading.wanting with
      | none => readTokens switches stops places false sofar rest
      | some s =>
        match rest with
        | .plain v :: rest =>
          readTokens switches stops places false
            { sofar with given := sofar.given ++ [⟨s.key, operand v⟩] } rest
        | _ => none

/-- Reads arguments; nothing if one of them cannot be understood. -/
def readArguments (switches : List Switch) (stops : List String) (places : Nat)
    (args : List String) : Option Arguments := do
  readTokens switches stops places false {} (← tokensOf? switches args)

end BitPattern.Command
