import BlockGraph.Json.Basic
import BlockGraph.Json.Doc
import BlockGraph.Text.Inspect

/-!
# Reading documents

A reader takes a document to a value of the program or to the first problem that it meets. Records are
written as objects, or as arrays of their fields in order. Every array and object that is read counts
against a budget of open brackets; what is skipped does not.
-/

namespace BlockGraph.Json

/-- Why a document could not be read. -/
inductive ReadError where
  /-- The text is not JSON. -/
  | fault (f : Fault)
  /-- Something else stands where `expected` should. -/
  | wrongKind (found expected : String)
  /-- A field is not given. -/
  | missingField (name : String)
  /-- A field is given twice. -/
  | duplicateField (name : String)
  /-- An array has too few items for a record. -/
  | wrongLength (length : Nat) (expected : String)
  /-- A choice has no alternative of that name. -/
  | unknownVariant (name : String) (known : List String)
deriving Repr, DecidableEq

/-- A name in a message. -/
def tick (s : String) : String := "`" ++ s ++ "`"

def ReadError.message : ReadError → String
  | .fault .malformed => "Syntax"
  | .fault .truncated => "Eof"
  | .wrongKind found expected => "invalid type: " ++ found ++ ", expected " ++ expected
  | .missingField name => "missing field " ++ tick name
  | .duplicateField name => "duplicate field " ++ tick name
  | .wrongLength n expected => "invalid length " ++ toString n ++ ", expected " ++ expected
  | .unknownVariant name known =>
    "unknown variant " ++ tick name ++ ", expected one of " ++ ", ".intercalate (known.map tick)

/-- The problem of meeting a document where `expected` should stand. Arrays and objects are named
without being read. -/
def Doc.mismatch (expected : String) : Doc → ReadError
  | .missing f => .fault f
  | .misspelt f => .fault f
  | .null => .wrongKind "null" expected
  | .bool b => .wrongKind ("boolean " ++ tick (if b then "true" else "false")) expected
  | .number (.error f) _ => .fault f
  | .number (.ok n@(.int _)) _ => .wrongKind ("integer " ++ tick (String.ofList (writeNumber n))) expected
  | .number (.ok n@(.float _)) _ => .wrongKind ("floating point " ++ tick (String.ofList (writeNumber n))) expected
  | .text (.error f) _ => .fault f
  | .text (.ok s) _ => .wrongKind ("string " ++ Text.inspect s) expected
  | .array _ _ => .wrongKind "sequence" expected
  | .object _ _ => .wrongKind "map" expected

/-- The outcome of reading. -/
abbrev Result (α : Type) := Except ReadError α

/-- Fails if there is a fault. -/
def checkEnding : Option Fault → Result Unit
  | none => .ok ()
  | some f => .error (.fault f)

/-- Skips a document. -/
def Doc.ignore (d : Doc) : Result Unit := d.skip.mapError .fault

def readText : Doc → Result String
  | .text value _ => value.mapError .fault
  | d => .error (d.mismatch "a string")

def readBool : Doc → Result Bool
  | .bool b => .ok b
  | d => .error (d.mismatch "a boolean")

def readFloat : Doc → Result Float
  | .number value _ => (value.mapError .fault).map Decimal.Number.toFloat
  | d => .error (d.mismatch "f64")

def readKey (key : Key) : Result String := key.value.mapError .fault

/-- Reads an array of items. `budget` counts the brackets that may still be opened. -/
def readList {α : Type} (read : Nat → Doc → Result α) (budget : Nat) : Doc → Result (List α)
  | .array items ending =>
    match budget with
    | 0 => .error (.fault .malformed)
    | budget + 1 => do
      let values ← items.mapM (read budget)
      checkEnding ending
      return values
  | d => .error (d.mismatch "a sequence")

/-- Reads an object of entries, in their order. -/
def readEntries {α : Type} (read : Nat → Doc → Result α) (budget : Nat) : Doc → Result (List (String × α))
  | .object members ending =>
    match budget with
    | 0 => .error (.fault .malformed)
    | budget + 1 => do
      let entries ← members.mapM fun (key, d) => do
        let key ← readKey key
        let value ← read budget d
        return (key, value)
      checkEnding ending
      return entries
  | d => .error (d.mismatch "a map")

/-- A field of a record under construction: its name, whether it may be left out, whether it is given
already, and how it is taken in. -/
structure Field (σ : Type) where
  name : String
  optional : Bool
  given : σ → Bool
  read : Nat → Doc → σ → Result σ

/-- Takes in one member of an object. A field that is given twice is refused before its value is looked
at, and an unknown member is skipped. -/
def readMember {σ : Type} (fields : List (Field σ)) (budget : Nat) (s : σ) (member : Key × Doc) : Result σ := do
  let key ← readKey member.1
  match fields.find? (·.name == key) with
  | none => member.2.ignore; return s
  | some field =>
    if field.given s then throw (.duplicateField key)
    field.read budget member.2 s

/-- Takes in the items of an array as the fields in order. -/
def readItems {σ : Type} (expected : String) (budget : Nat) (ending : Option Fault) :
    List (Field σ) → Nat → σ → List Doc → Result σ
  | [], _, s, [] => do checkEnding ending; return s
  | [], _, _, _ :: _ => .error (.fault .malformed)
  | field :: fields, n, s, d :: items => do
    let s ← field.read budget d s
    readItems expected budget ending fields (n + 1) s items
  | field :: fields, n, s, [] => do
    checkEnding ending
    if field.optional then readItems expected budget ending fields (n + 1) s []
    else throw (.wrongLength n expected)

/-- Reads a record from an object or an array. -/
def readRecord {σ : Type} (name : String) (fields : List (Field σ)) (start : σ) (budget : Nat) : Doc → Result σ
  | .object members ending =>
    match budget with
    | 0 => .error (.fault .malformed)
    | budget + 1 => do
      let s ← members.foldlM (readMember fields budget) start
      checkEnding ending
      match fields.find? fun field => !field.optional && !field.given s with
      | some field => throw (.missingField field.name)
      | none => return s
  | .array items ending =>
    match budget with
    | 0 => .error (.fault .malformed)
    | budget + 1 =>
      readItems ("struct " ++ name ++ " with " ++ toString fields.length ++ " elements") budget ending fields 0 start
        items
  | d => .error (d.mismatch ("struct " ++ name))

/-- Reads one alternative of a choice: an object with the name of the alternative as its only key. -/
def readVariant {α : Type} (known : List String) (read : String → Nat → Doc → Result α) (budget : Nat) :
    Doc → Result α
  | .object [] ending =>
    match budget with
    | 0 => .error (.fault .malformed)
    | _ + 1 => .error (.fault (ending.getD .malformed))
  | .object ((key, d) :: others) ending =>
    match budget with
    | 0 => .error (.fault .malformed)
    | budget + 1 => do
      let name ← readKey key
      if name ∉ known then throw (.unknownVariant name known)
      let value ← read name budget d
      unless others.isEmpty do throw (.fault .malformed)
      checkEnding ending
      return value
  | .text value _ => do
    let name ← value.mapError .fault
    if name ∉ known then throw (.unknownVariant name known)
    throw (.wrongKind "unit variant" "newtype variant")
  | .missing f => .error (.fault f)
  | _ => .error (.fault .malformed)

mutual

def readJson : Nat → Doc → Result Json
  | _, .missing f => .error (.fault f)
  | _, .misspelt f => .error (.fault f)
  | _, .null => .ok .null
  | _, .bool b => .ok (.bool b)
  | _, .number value _ => (value.mapError .fault).map .number
  | _, .text value _ => (value.mapError .fault).map .text
  | 0, .array _ _ => .error (.fault .malformed)
  | budget + 1, .array items ending => do
    let items ← readJsonItems budget items
    checkEnding ending
    return .array items
  | 0, .object _ _ => .error (.fault .malformed)
  | budget + 1, .object members ending => do
    let members ← readJsonMembers budget members
    checkEnding ending
    return .object members

def readJsonItems (budget : Nat) : List Doc → Result (List Json)
  | [] => .ok []
  | d :: rest => do
    let v ← readJson budget d
    let vs ← readJsonItems budget rest
    return v :: vs

def readJsonMembers (budget : Nat) : List (Key × Doc) → Result (List (String × Json))
  | [] => .ok []
  | (key, d) :: rest => do
    let key ← readKey key
    let v ← readJson budget d
    let vs ← readJsonMembers budget rest
    return (key, v) :: vs

end

/-- The number of brackets that may be open at once in what is read. -/
def maxDepth : Nat := 127

/-- Reads a whole text. Nothing but blanks may follow the document. -/
def readWhole {α : Type} (read : Nat → Doc → Result α) (s : String) : Result α :=
  match Doc.parse s.toList with
  | (d, rest) => do
    let value ← read maxDepth d
    match rest with
    | some rest => if (skipBlanks rest).isEmpty then return value else throw (.fault .malformed)
    | none => throw (.fault .malformed)

end BlockGraph.Json
