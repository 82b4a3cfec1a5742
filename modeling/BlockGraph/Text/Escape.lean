/-!
# Escaped literals

A literal is written in printable ASCII only. A tab, line feed, carriage return, quote or backslash has
a short escape; every other character outside printable ASCII is written as its code point in braces.
-/

namespace BlockGraph.Text

/-- The lower case hexadecimal digits of an integer. -/
def hexChars (n : Nat) : List Char := Nat.toDigits 16 n

/-- A code point written as `\u` and its digits in braces. -/
def escapeCode (c : Char) : List Char := '\\' :: 'u' :: '\x7b' :: (hexChars c.toNat ++ ['\x7d'])

/-- How a character is written inside a literal. -/
def escapeChar (c : Char) : List Char :=
  if c = '\t' then ['\\', 't']
  else if c = '\r' then ['\\', 'r']
  else if c = '\n' then ['\\', 'n']
  else if c = '\x27' then ['\\', '\x27']
  else if c = '\x22' then ['\\', '\x22']
  else if c = '\\' then ['\\', '\\']
  else if 0x20 ≤ c.toNat ∧ c.toNat ≤ 0x7e then [c]
  else escapeCode c

def quoteText (s : String) : String :=
  String.ofList ('\x22' :: (s.toList.flatMap escapeChar ++ ['\x22']))

/-- The first character of a text as a literal between single quotes. -/
def quoteChar? (s : String) : Option String :=
  s.toList.head?.map fun c => String.ofList ('\x27' :: (escapeChar c ++ ['\x27']))

end BlockGraph.Text
