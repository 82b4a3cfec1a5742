import BlockGraph.Text.Escape
import BlockGraph.Text.Hidden

/-!
# Diagnostic texts

Diagnostics show a text between double quotes with visible characters kept as they are, and records in
the form `Name { field: value, .. }`.
-/

namespace BlockGraph.Text

/-- How a character is shown inside a quoted diagnostic text. -/
def inspectChar (c : Char) : List Char :=
  if c = '\x00' then ['\\', '0']
  else if c = '\t' then ['\\', 't']
  else if c = '\r' then ['\\', 'r']
  else if c = '\n' then ['\\', 'n']
  else if c = '\x22' then ['\\', '\x22']
  else if c = '\\' then ['\\', '\\']
  else if isHidden c then escapeCode c
  else [c]

/-- A text as shown in a diagnostic. -/
def inspect (s : String) : String :=
  String.ofList ('\x22' :: (s.toList.flatMap inspectChar ++ ['\x22']))

def inspectBool (b : Bool) : String := if b then "true" else "false"

def inspectOption : Option String → String
  | none => "None"
  | some s => "Some(" ++ inspect s ++ ")"

/-- Shown items between brackets. -/
def inspectList (items : List String) : String := "[" ++ ", ".intercalate items ++ "]"

def inspectRecord (name : String) (fields : List (String × String)) : String :=
  let shown := fields.map fun (key, text) => key ++ ": " ++ text
  name ++ " \x7b " ++ ", ".intercalate shown ++ " \x7d"

/-- A record as shown in a diagnostic that leaves some of its fields out. -/
def inspectPartRecord (name : String) (fields : List (String × String)) : String :=
  let shown := fields.map fun (key, text) => key ++ ": " ++ text
  name ++ " \x7b " ++ ", ".intercalate (shown ++ [".."]) ++ " \x7d"

end BlockGraph.Text
