import BlockGraph.Toml.Scalar
import BlockGraph.Toml.Table

/-!
# Documents of TOML

A document is a sequence of lines: blank, a comment, the header of a table, or an assignment to a key of
the table under the last header.
-/

namespace BlockGraph.Toml

/-- The items of an array, up to its closing bracket. A comma may follow the last. -/
def scanItems (read : Scan Value) : Nat → Scan (List Value)
  | 0, _ => none
  | fuel + 1, cs =>
    match skipGaps false cs with
    | ']' :: rest => some ([], rest)
    | cs => do
      let (item, rest) ← read cs
      match skipGaps false rest with
      | ',' :: rest =>
        let (items, rest) ← scanItems read fuel rest
        return (item :: items, rest)
      | ']' :: rest => return ([item], rest)
      | _ => none

/-- A key, an equals sign and a value. -/
def scanAssignment (read : Scan Value) : Scan (List String × Value) := fun cs => do
  let (key, rest) ← scanKey cs
  let (v, rest) ← read (skipSpaces (← after? '=' rest))
  return ((key, v), rest)

/-- The assignments of an inline table, up to its closing brace. -/
def scanInline (read : Scan Value) : Nat → Entries → Scan Entries
  | 0, _, _ => none
  | fuel + 1, es, cs => do
    let ((key, v), rest) ← scanAssignment read cs
    let es ← es.assign v key
    match skipSpaces rest with
    | ',' :: rest => scanInline read fuel es rest
    | '\x7d' :: rest => return (es, rest)
    | _ => none

/-- A number or a moment. -/
def scanScalar (cs : List Char) : Option (Value × List Char) :=
  match afterMoment? cs with
  | some rest => some (.moment, rest)
  | none => (((afterFloat? cs).or (afterSpecial? cs)).or (afterInteger? cs)).map fun rest => (.number, rest)

/-- A value. `depth` bounds the nesting of arrays and inline tables. -/
def scanValue : Nat → Scan Value
  | depth, cs =>
    match cs with
    | 't' :: 'r' :: 'u' :: 'e' :: rest => some (.bool true, rest)
    | 'f' :: 'a' :: 'l' :: 's' :: 'e' :: rest => some (.bool false, rest)
    | '[' :: rest =>
      match depth with
      | 0 => none
      | depth + 1 => (scanItems (scanValue depth) (rest.length + 1) rest).map fun (items, rest) => (.array items, rest)
    | '\x7b' :: rest =>
      match depth with
      | 0 => none
      | depth + 1 =>
        match skipSpaces rest with
        | '\x7d' :: rest => some (.table .inline [], rest)
        | rest =>
          (scanInline (scanValue depth) (rest.length + 1) [] rest).map fun (es, rest) => (.table .inline es, rest)
    | c :: _ =>
      if c == '\x22' || c == '\x27' then (scanString cs).map fun (s, rest) => (.text s, rest) else scanScalar cs
    | [] => none

/-- A document that is being read: its root table, and the path of the last header. -/
structure Reading where
  root : Entries := []
  path : List String := []

/-- Reads a header whose opening brackets are read. -/
def Reading.header (r : Reading) (put : String → Entries → Option Entries) (closing : List Char) (cs : List Char) :
    Option (Reading × List Char) := do
  let (path, rest) ← scanKey cs
  guard (closing.isPrefixOf rest)
  let root ← r.root.within (put (path.getLastD "")) path.dropLast
  return ({ root := root, path := path }, ← afterLine? (rest.drop closing.length))

/-- Reads a line that starts with neither a blank nor a comment and is not empty. -/
def Reading.line (r : Reading) : List Char → Option (Reading × List Char)
  | '[' :: '[' :: rest => r.header Entries.addTable [']', ']'] rest
  | '[' :: rest => r.header Entries.openTable [']'] rest
  | cs => do
    let ((key, v), rest) ← scanAssignment (scanValue (maxDepth - 1)) cs
    let root ← r.root.within (Entries.assign v key) r.path
    return ({ r with root := root }, ← afterLine? rest)

/-- Reads all lines. Every line takes at least one character, so the length of the text bounds their
number. -/
def Reading.lines (r : Reading) : Nat → List Char → Option Entries
  | 0, _ => none
  | fuel + 1, cs =>
    match skipSpaces cs with
    | [] => some r.root
    | cs =>
      match afterLine? cs with
      | some rest => r.lines fuel rest
      | none => do
        let (r, rest) ← r.line cs
        r.lines fuel rest

/-- The root table of a document. A byte order mark may precede it. -/
def parse (s : String) : Option Entries :=
  let cs :=
    match s.toList with
    | '\ufeff' :: rest => rest
    | cs => cs
  Reading.lines {} (cs.length + 1) cs

end BlockGraph.Toml
