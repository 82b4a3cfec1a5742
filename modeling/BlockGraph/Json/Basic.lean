import BlockGraph.Decimal.Layout
import BlockGraph.Decimal.Numeral

/-!
# JSON values and their texts

An object keeps its members in the order in which they are to be written. `Json.compact` writes a value
without blanks and `Json.pretty` with one member a line, indented by two blanks a level.
-/

namespace BlockGraph

inductive Json where
  | null
  | bool (b : Bool)
  | number (n : Decimal.Number)
  | text (s : String)
  | array (items : List Json)
  | object (members : List (String × Json))

namespace Json

def ofFloat (x : Float) : Json := .number (.float x)

def ofNat (n : Nat) : Json := .number (.int n)

def ofTexts (texts : List String) : Json := .array (texts.map .text)

/-- The text of a number. What is not a finite number is `null`. -/
def writeNumber : Decimal.Number → List Char
  | .int i => if i < 0 then '-' :: Decimal.digitChars i.natAbs else Decimal.digitChars i.natAbs
  | .float x => (Decimal.Layout.document.write x).toList

/-- The two hexadecimal digits of a number below 256. -/
def hexPair (n : Nat) : List Char := [Nat.digitChar (n / 16), Nat.digitChar (n % 16)]

/-- How a character is written inside a text. -/
def escapeChar (c : Char) : List Char :=
  if c = '\x22' then ['\\', '\x22']
  else if c = '\\' then ['\\', '\\']
  else if c = '\x08' then ['\\', 'b']
  else if c = '\t' then ['\\', 't']
  else if c = '\n' then ['\\', 'n']
  else if c = '\x0c' then ['\\', 'f']
  else if c = '\r' then ['\\', 'r']
  else if c.toNat < 0x20 then '\\' :: 'u' :: '0' :: '0' :: hexPair c.toNat
  else [c]

/-- A text between double quotes. -/
def writeText (s : String) : List Char :=
  '\x22' :: (s.toList.flatMap escapeChar ++ ['\x22'])

def writeBool (b : Bool) : List Char :=
  if b then ['t', 'r', 'u', 'e'] else ['f', 'a', 'l', 's', 'e']

mutual

/-- The text of a value without blanks. -/
def writeCompact : Json → List Char
  | .null => ['n', 'u', 'l', 'l']
  | .bool b => writeBool b
  | .number n => writeNumber n
  | .text s => writeText s
  | .array items => '[' :: (writeItems items ++ [']'])
  | .object members => '\x7b' :: (writeMembers members ++ ['\x7d'])

/-- The texts of values, with commas between them. -/
def writeItems : List Json → List Char
  | [] => []
  | [v] => writeCompact v
  | v :: rest => writeCompact v ++ ',' :: writeItems rest

/-- The texts of members, with commas between them. -/
def writeMembers : List (String × Json) → List Char
  | [] => []
  | [(key, v)] => writeText key ++ ':' :: writeCompact v
  | (key, v) :: rest => writeText key ++ ':' :: (writeCompact v ++ ',' :: writeMembers rest)

end

/-- A line end and the indentation of a level. -/
def newLine (level : Nat) : List Char := '\n' :: List.replicate (2 * level) ' '

mutual

/-- The text of a value with one item or member a line, starting at a level of indentation. -/
def writePretty (level : Nat) : Json → List Char
  | .null => ['n', 'u', 'l', 'l']
  | .bool b => writeBool b
  | .number n => writeNumber n
  | .text s => writeText s
  | .array [] => ['[', ']']
  | .array items => '[' :: (writePrettyItems (level + 1) items ++ newLine level ++ [']'])
  | .object [] => ['\x7b', '\x7d']
  | .object members => '\x7b' :: (writePrettyMembers (level + 1) members ++ newLine level ++ ['\x7d'])

/-- Items, each on a line of its own. -/
def writePrettyItems (level : Nat) : List Json → List Char
  | [] => []
  | [v] => newLine level ++ writePretty level v
  | v :: rest => newLine level ++ writePretty level v ++ ',' :: writePrettyItems level rest

/-- Members, each on a line of its own. -/
def writePrettyMembers (level : Nat) : List (String × Json) → List Char
  | [] => []
  | [(key, v)] => newLine level ++ writeText key ++ ':' :: ' ' :: writePretty level v
  | (key, v) :: rest =>
    newLine level ++ writeText key ++ ':' :: ' ' :: (writePretty level v ++ ',' :: writePrettyMembers level rest)

end

def compact (v : Json) : String := String.ofList (writeCompact v)

/-- The text of a value, indented by two blanks a level. -/
def pretty (v : Json) : String := String.ofList (writePretty 0 v)

end Json

end BlockGraph
