import BitPattern.Text.Quoted

/-!
# Escapes in string literals

The body of a string literal is read through its UTF-8 bytes.  A byte stands for itself until a
backslash introduces an escape: a letter for a control character, one to three octal digits, or
two, four or eight hexadecimal ones.  A backslash before any other character stands for itself.
The result must again consist of bytes, so an escape beyond U+00FF has no reading, and neither
does one that is cut short.
-/

namespace BitPattern.Text

/-- The value of an octal digit. -/
def octalValue? (c : Char) : Option Nat :=
  if '0' ≤ c && c ≤ '7' then some (c.toNat - 48) else none

/-- The characters with an escape of one letter or sign. -/
def namedEscape? : Char → Option Nat
  | 'n' => some 10
  | 't' => some 9
  | 'r' => some 13
  | 'a' => some 7
  | 'b' => some 8
  | 'f' => some 12
  | 'v' => some 11
  | '\\' => some 92
  | '\'' => some 39
  | '"' => some 34
  | _ => none

/-- The number written by hexadecimal digits, if all of them are. -/
def hexNumber? (digits : List Char) : Option Nat :=
  digits.foldl (fun n c => do pure ((← n) * 16 + (← hexValue? c))) (some 0)

/-- The number of hexadecimal digits that the letter of an escape asks for. -/
def hexWidth? : Char → Option Nat
  | 'x' => some 2
  | 'u' => some 4
  | 'U' => some 8
  | _ => none

/-- What follows a backslash: the code points it stands for and the characters left over.  The
name of a character is not looked up, so `N` begins no escape that has a reading. -/
def escape? : List Char → Option (List Nat × List Char)
  | [] => none
  | c :: rest =>
    if c == '\n' then some ([], rest)
    else if c == 'N' then none
    else match namedEscape? c, hexWidth? c, octalValue? c with
    | some n, _, _ => some ([n], rest)
    | _, some width, _ =>
      if rest.length < width then none
      else (hexNumber? (rest.take width)).bind fun n =>
        if n ≤ 0x10FFFF then some ([n], rest.drop width) else none
    | _, _, some d =>
      match rest with
      | e :: tail =>
        match octalValue? e with
        | none => some ([d], rest)
        | some e =>
          match tail with
          | f :: last =>
            match octalValue? f with
            | none => some ([d * 8 + e], tail)
            | some f => some ([(d * 8 + e) * 8 + f], last)
          | [] => some ([d * 8 + e], [])
      | [] => some ([d], [])
    -- A backslash before any other character stands for itself.
    | none, none, none => some ([92, c.toNat], rest)

/-- The code points that a text with escapes stands for.  Every step uses up a character, so as
many steps as there are characters suffice. -/
def unescapeWithin : Nat → List Char → Option (List Nat)
  | _, [] => some []
  | 0, _ :: _ => none
  | steps + 1, c :: rest =>
    if c == '\\' then
      (escape? rest).bind fun (points, left) => (unescapeWithin steps left).map (points ++ ·)
    else (unescapeWithin steps rest).map (c.toNat :: ·)

/-- The code points that a text with escapes stands for. -/
def unescape (cs : List Char) : Option (List Nat) :=
  unescapeWithin cs.length cs

/-- The UTF-8 bytes of some characters. -/
def utf8Bytes (cs : List Char) : List UInt8 :=
  (String.ofList cs).toUTF8.toList

/-- The bytes that the body of a string literal denotes. -/
def literalBytes? (body : List Char) : Option (List UInt8) :=
  (unescape ((utf8Bytes body).map latinChar)).bind fun points =>
    if points.all (· ≤ 0xFF) then some (points.map UInt8.ofNat) else none

end BitPattern.Text
