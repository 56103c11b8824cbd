/-!
# Blank characters and lines

Three classes of characters separate text.  `isWhite` is the White_Space property, which the field
notation skips between tokens.  `isBlank` adds the four information separators U+001C to U+001F and
is what stripping and word splitting use.  `isLineBreak` ends a line of a listing.

`words` cuts a text at its blank characters, and `joinWords` puts single spaces between the pieces,
so no blank character but the space and no line break survives it.
-/

namespace BitPattern.Text

/-! ## Classes -/

/-- The White_Space property. -/
def isWhite (c : Char) : Bool :=
  let n := c.toNat
  (9 ≤ n && n ≤ 13) || n == 0x20 || n == 0x85 || n == 0xA0 || n == 0x1680
    || (0x2000 ≤ n && n ≤ 0x200A) || n == 0x2028 || n == 0x2029 || n == 0x202F || n == 0x205F
    || n == 0x3000

/-- White space or one of the four information separators. -/
def isBlank (c : Char) : Bool :=
  isWhite c || (0x1C ≤ c.toNat && c.toNat ≤ 0x1F)

/-- The white space of ASCII. -/
def isAsciiWhite (c : Char) : Bool :=
  c == ' ' || (9 ≤ c.toNat && c.toNat ≤ 13)

/-- The characters at which a listing is cut into lines. -/
def isLineBreak (c : Char) : Bool :=
  let n := c.toNat
  (10 ≤ n && n ≤ 13) || (0x1C ≤ n && n ≤ 0x1E) || n == 0x85 || n == 0x2028 || n == 0x2029

/-- A letter or digit of ASCII, or the underscore. -/
def isWordChar (c : Char) : Bool :=
  c.isAlphanum || c == '_'

/-! ## Stripping and words -/

/-- The characters without the blank ones at either end. -/
def stripChars (cs : List Char) : List Char :=
  ((cs.dropWhile isBlank).reverse.dropWhile isBlank).reverse

/-- The text without the blank characters at either end. -/
def strip (text : String) : String :=
  String.ofList (stripChars text.toList)

/-- The nonempty runs of characters between blank ones; `run` holds the current run backwards. -/
def wordsFrom (run : List Char) : List Char → List (List Char)
  | [] => if run.isEmpty then [] else [run.reverse]
  | c :: rest =>
    if isBlank c then
      if run.isEmpty then wordsFrom [] rest else run.reverse :: wordsFrom [] rest
    else wordsFrom (c :: run) rest

/-- The words of a text. -/
def words (text : String) : List String :=
  (wordsFrom [] text.toList).map String.ofList

/-- The words of a text with one space between neighbours. -/
def joinWords (text : String) : String :=
  " ".intercalate (words text)

/-! ## Lines -/

/-- The pieces of a text between line feeds. -/
def linesFrom (run : List Char) : List Char → List (List Char)
  | [] => [run.reverse]
  | c :: rest => if c == '\n' then run.reverse :: linesFrom [] rest else linesFrom (c :: run) rest

/-- The pieces of a text between line feeds, one more than there are line feeds. -/
def splitLines (text : String) : List String :=
  (linesFrom [] text.toList).map String.ofList

/-- The lines of a listing: every line break ends one, a carriage return with the line feed after
it is a single break, and nothing follows the last break unless a character does. -/
def listingLinesFrom (run : List Char) : List Char → List (List Char)
  | [] => if run.isEmpty then [] else [run.reverse]
  | '\r' :: '\n' :: rest => run.reverse :: listingLinesFrom [] rest
  | c :: rest =>
    if isLineBreak c then run.reverse :: listingLinesFrom [] rest
    else listingLinesFrom (c :: run) rest

/-- The lines of a listing. -/
def listingLines (text : String) : List String :=
  (listingLinesFrom [] text.toList).map String.ofList

/-- A carriage return, alone or before a line feed, read as a line feed. -/
def unifyNewlines : List Char → List Char
  | [] => []
  | '\r' :: '\n' :: rest => '\n' :: unifyNewlines rest
  | c :: rest => (if c == '\r' then '\n' else c) :: unifyNewlines rest

end BitPattern.Text
