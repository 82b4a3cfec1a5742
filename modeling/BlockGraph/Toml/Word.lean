/-!
# Words of TOML

Blanks, comments, strings and keys. A scan takes something from the front of a text and returns it with
the rest, or `none` if the text does not start with it.

A string is put together from pieces, one scan at a time, until a piece says that it was the last
(`collect`). The four kinds of strings differ in their pieces only.
-/

namespace BlockGraph.Toml

/-- Takes something from the front of a text. -/
abbrev Scan (α : Type) := List Char → Option (α × List Char)

/-! ### Blanks and comments -/

/-- Whether a character is a blank within a line. -/
def isSpace (c : Char) : Bool := c == ' ' || c == '\t'

/-- Whether a character may stand for itself: a tab, or anything that is no control character. -/
def isPlain (c : Char) : Bool := c == '\t' || (0x20 ≤ c.toNat && c.toNat != 0x7f)

/-- The text after blanks within a line. -/
def skipSpaces (cs : List Char) : List Char := cs.dropWhile isSpace

/-- The text after a line break. -/
def afterBreak? : List Char → Option (List Char)
  | '\n' :: rest => some rest
  | '\r' :: '\n' :: rest => some rest
  | _ => none

/-- The text after the blanks and the comment that end a line, and after its line break. The last line
has none. -/
def afterLine? (cs : List Char) : Option (List Char) :=
  let rest :=
    match skipSpaces cs with
    | '#' :: comment => comment.dropWhile isPlain
    | rest => rest
  match rest with
  | [] => some []
  | rest => afterBreak? rest

/-- The text after blanks and line breaks. -/
def skipBreaks : List Char → List Char
  | [] => []
  | c :: rest =>
    if isSpace c || c == '\n' then skipBreaks rest
    else if c == '\r' then
      match rest with
      | '\n' :: rest => skipBreaks rest
      | rest => c :: rest
    else c :: rest

/-- The text after blanks, line breaks and comments. `inComment` says whether the text starts inside a
comment. -/
def skipGaps ( inComment : Bool) : List Char → List Char
  | [] => []
  | c :: rest =>
    if inComment && isPlain c then skipGaps true rest
    else if isSpace c || c == '\n' then skipGaps false rest
    else if c == '#' then skipGaps true rest
    else if c == '\r' then
      match rest with
      | '\n' :: rest => skipGaps false rest
      | rest => c :: rest
    else c :: rest

/-! ### Strings -/

/-- A piece of a string. -/
inductive Piece where
  /-- The string goes on. -/
  | more (text : List Char)
  /-- The string ends. -/
  | last (text : List Char)

/-- Puts a string together from pieces. Every piece takes at least one character, so the length of the
text bounds their number. -/
def collect (piece : Scan Piece) : Nat → Scan (List Char)
  | 0, _ => none
  | fuel + 1, cs =>
    match piece cs with
    | none => none
    | some (.last text, rest) => some (text, rest)
    | some (.more text, rest) => (collect piece fuel rest).map fun (tail, rest) => (text ++ tail, rest)

def hexDigit? (c : Char) : Option Nat :=
  if '0' ≤ c ∧ c ≤ '9' then some (c.toNat - '0'.toNat)
  else if 'a' ≤ c ∧ c ≤ 'f' then some (c.toNat - 'a'.toNat + 10)
  else if 'A' ≤ c ∧ c ≤ 'F' then some (c.toNat - 'A'.toNat + 10)
  else none

/-- The character of a code point given by its digits. -/
def codePoint? (digits : List Char) : Option Char := do
  let n := (← digits.mapM hexDigit?).foldl (16 * · + ·) 0
  if n.isValidChar then some (Char.ofNat n) else none

def scanCodePoint (size : Nat) : Scan Char := fun cs =>
  if size ≤ cs.length then (codePoint? (cs.take size)).map fun c => (c, cs.drop size) else none

/-- The character that is written behind a backslash. -/
def scanEscape : Scan Char
  | 'b' :: rest => some ('\x08', rest)
  | 't' :: rest => some ('\t', rest)
  | 'n' :: rest => some ('\n', rest)
  | 'f' :: rest => some ('\x0c', rest)
  | 'r' :: rest => some ('\r', rest)
  | '\x22' :: rest => some ('\x22', rest)
  | '\\' :: rest => some ('\\', rest)
  | 'u' :: rest => scanCodePoint 4 rest
  | 'U' :: rest => scanCodePoint 8 rest
  | _ => none

/-- A character that stands for itself. -/
def plainPiece : Scan Piece
  | c :: rest => if isPlain c then some (.more [c], rest) else none
  | [] => none

/-- A piece of a string between double quotes. -/
def basicPiece : Scan Piece
  | '\x22' :: rest => some (.last [], rest)
  | '\\' :: rest => (scanEscape rest).map fun (c, rest) => (.more [c], rest)
  | cs => plainPiece cs

/-- A piece of a string between single quotes, in which a backslash has no meaning. -/
def literalPiece : Scan Piece
  | '\x27' :: rest => some (.last [], rest)
  | cs => plainPiece cs

/-- The end of a block that closes with three quotes, of which two more may precede the end as text. -/
def blockEnd? (quote : Char) (cs : List Char) : Option (List Char × List Char) :=
  let size := (cs.takeWhile (· == quote)).length
  if size < 3 then none
  else
    let size := min size 5
    some (List.replicate (size - 3) quote, cs.drop size)

/-- A line break inside a block is read as a line feed. -/
def breakPiece (cs : List Char) : Option (Piece × List Char) :=
  match afterBreak? cs with
  | some rest => some (.more ['\n'], rest)
  | none => plainPiece cs

/-- A piece of a block between three double quotes. A backslash at the end of a line takes all blanks
and line breaks with it. -/
def basicBlockPiece (cs : List Char) : Option (Piece × List Char) :=
  match blockEnd? '\x22' cs with
  | some (text, rest) => some (.last text, rest)
  | none =>
    match cs with
    | '\\' :: rest =>
      match afterBreak? (skipSpaces rest) with
      | some rest => some (.more [], skipBreaks rest)
      | none => (scanEscape rest).map fun (c, rest) => (.more [c], rest)
    | cs => breakPiece cs

/-- A piece of a block between three single quotes. -/
def literalBlockPiece (cs : List Char) : Option (Piece × List Char) :=
  match blockEnd? '\x27' cs with
  | some (text, rest) => some (.last text, rest)
  | none => breakPiece cs

/-- A string made of pieces. -/
def scanPieces (piece : Scan Piece) : Scan String := fun cs =>
  (collect piece (cs.length + 1) cs).map fun (text, rest) => (String.ofList text, rest)

/-- The text of a block after a line break right behind the opening quotes. -/
def blockStart (cs : List Char) : List Char := (afterBreak? cs).getD cs

/-- A string of one line. -/
def scanLineString : Scan String
  | '\x22' :: rest => scanPieces basicPiece rest
  | '\x27' :: rest => scanPieces literalPiece rest
  | _ => none

def scanString : Scan String
  | '\x22' :: '\x22' :: '\x22' :: rest => scanPieces basicBlockPiece (blockStart rest)
  | '\x27' :: '\x27' :: '\x27' :: rest => scanPieces literalBlockPiece (blockStart rest)
  | cs => scanLineString cs

/-! ### Keys -/

/-- Whether a character may stand in a key without quotes. -/
def isBare (c : Char) : Bool := c.isAlphanum || c == '_' || c == '-'

/-- One part of a key, bare or quoted. -/
def scanKeyPart : Scan String := fun cs =>
  match cs.takeWhile isBare with
  | [] => scanLineString cs
  | name => some (String.ofList name, cs.dropWhile isBare)

/-- The parts of a key, with dots between them. -/
def scanKeyParts : Nat → Scan (List String)
  | 0, _ => none
  | fuel + 1, cs => do
    let (name, rest) ← scanKeyPart (skipSpaces cs)
    match skipSpaces rest with
    | '.' :: rest =>
      let (names, rest) ← scanKeyParts fuel rest
      return (name :: names, rest)
    | rest => return ([name], rest)

/-- Keys have fewer parts than this, and arrays and inline tables nest less deeply. -/
def maxDepth : Nat := 80

def scanKey : Scan (List String) := scanKeyParts (maxDepth - 1)

/-! ### Writing -/

/-- A character inside a string between double quotes. -/
def writeChar (c : Char) : List Char :=
  if c = '\x22' then ['\\', '\x22']
  else if c = '\\' then ['\\', '\\']
  else if c = '\n' then ['\\', 'n']
  else if c = '\r' then ['\\', 'r']
  else if isPlain c then [c]
  else '\\' :: 'u' :: (List.replicate (4 - (Nat.toDigits 16 c.toNat).length) '0' ++ Nat.toDigits 16 c.toNat)

/-- A text as a string between double quotes. -/
def writeString (s : String) : String :=
  String.ofList ('\x22' :: (s.toList.flatMap writeChar ++ ['\x22']))

end BlockGraph.Toml
