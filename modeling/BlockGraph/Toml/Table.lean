/-!
# Tables of TOML

A document grows by headers and assignments. A table is created by its own header, as the parent of
another header, by a dotted key, or inline, and its origin decides what may be added to it later:

* a header names a table once, unless the table is only known as a parent of others (`openTable`);
* a dotted key adds to tables that dotted keys have created (`assign`);
* nothing is added to an inline table or to an array that is written as a value.
-/

namespace BlockGraph.Toml

/-- What a table was created by. -/
inductive Origin where
  /-- Its own header. -/
  | header
  /-- The header of a table inside it. -/
  | implied
  /-- A dotted key. -/
  | dotted
  /-- Braces. -/
  | inline
deriving DecidableEq

/-- A value of a document. Numbers and moments are recognised and not kept. -/
inductive Value where
  | text (s : String)
  | bool (b : Bool)
  | number
  | moment
  | array (items : List Value)
  | table (origin : Origin) (entries : List (String × Value))
  /-- Tables that share a header in double brackets, in order. -/
  | tables (each : List (List (String × Value)))

/-- The entries of a table, in the order of their creation. -/
abbrev Entries := List (String × Value)

namespace Entries

def get? (es : Entries) (key : String) : Option Value := es.lookup key

/-- The entries with the value of a key replaced, or added at the end. -/
def set (es : Entries) (key : String) (v : Value) : Entries :=
  match es with
  | [] => [(key, v)]
  | (k, old) :: rest => if k == key then (key, v) :: rest else (k, old) :: set rest key v

/-- Changes the last table of several. -/
def onLast (f : Entries → Option Entries) : List Entries → Option (List Entries)
  | [] => none
  | [es] => (f es).map ([·])
  | es :: rest => (onLast f rest).map (es :: ·)

/-- Changes the table at a path of headers. Tables that are missing on the way are implied. -/
def within (f : Entries → Option Entries) : List String → Entries → Option Entries
  | [], es => f es
  | name :: path, es =>
    match es.get? name with
    | none => (within f path []).map fun inner => es.set name (.table .implied inner)
    | some (.table .inline _) => none
    | some (.table origin inner) => (within f path inner).map fun inner => es.set name (.table origin inner)
    | some (.tables each) => (onLast (within f path) each).map fun each => es.set name (.tables each)
    | some _ => none

/-- Creates the table of a header. -/
def openTable (name : String) (es : Entries) : Option Entries :=
  match es.get? name with
  | none => some (es.set name (.table .header []))
  | some (.table .implied inner) => some (es.set name (.table .header inner))
  | some _ => none

/-- Adds a table to those of a header in double brackets. -/
def addTable (name : String) (es : Entries) : Option Entries :=
  match es.get? name with
  | none => some (es.set name (.tables [[]]))
  | some (.tables each) => some (es.set name (.tables (each ++ [[]])))
  | some _ => none

/-- Gives a value to a key that has none. -/
def assign (v : Value) : List String → Entries → Option Entries
  | [], _ => none
  | [key], es => if (es.get? key).isSome then none else some (es.set key v)
  | name :: path, es =>
    match es.get? name with
    | none => (assign v path []).map fun inner => es.set name (.table .dotted inner)
    | some (.table .dotted inner) => (assign v path inner).map fun inner => es.set name (.table .dotted inner)
    -- the last table of a dotted key is made by dotted keys, those above it may be parents of a header
    | some (.table .implied inner) =>
      if path.length ≤ 1 then none
      else (assign v path inner).map fun inner => es.set name (.table .implied inner)
    | some (.tables each) =>
      if path.length ≤ 1 then none
      else (onLast (assign v path) each).map fun each => es.set name (.tables each)
    | some _ => none

end Entries

end BlockGraph.Toml
