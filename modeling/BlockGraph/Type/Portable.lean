import BlockGraph.Json.Reader
import BlockGraph.Type.Basic

/-!
# Portable types

The portable form of a type is its name and the portable forms of its generics. It is what is stored and
exchanged; a registry takes it back to a type.
-/

namespace BlockGraph

/-- The name and the generics of a type. -/
inductive Portable where
  | mk (name : String) (generics : List Portable)
deriving Repr

namespace Portable

def name : Portable → String
  | .mk name _ => name

def generics : Portable → List Portable
  | .mk _ generics => generics

/-- A type that is named without generics. -/
def named (name : String) : Portable := .mk name []

mutual

def toJson : Portable → Json
  | .mk name generics => .object [("name", .text name), ("generics", .array (toJsons generics))]

def toJsons : List Portable → List Json
  | [] => []
  | p :: rest => toJson p :: toJsons rest

end

structure Draft where
  name : Option String := none
  generics : Option (List Portable) := none

/-- The fields of a portable type, given how its generics are read. -/
def fields (readGenerics : Json.Doc → Json.Result (List Portable)) : List (Json.Field Draft) :=
  [ { name := "name", optional := false, given := (·.name.isSome),
      read := fun _ d draft => do return { draft with name := some (← Json.readText d) } },
    { name := "generics", optional := true, given := (·.generics.isSome),
      read := fun _ d draft => do return { draft with generics := some (← readGenerics d) } } ]

/-- The portable type of a draft. Its name is given once the draft is read. -/
def Draft.finish (draft : Draft) : Portable := .mk (draft.name.getD "") (draft.generics.getD [])

/-- Reads a portable type. The first argument counts the brackets that may still be opened. -/
def read : Nat → Json.Doc → Json.Result Portable
  | 0, d => do return (← Json.readRecord "PortableType" (fields fun _ => .ok []) {} 0 d).finish
  | 1, d => do
    return (← Json.readRecord "PortableType" (fields (Json.readList (fun _ _ => .ok (named "")) 0)) {} 1 d).finish
  | budget + 2, d => do
    return (← Json.readRecord "PortableType" (fields (Json.readList (fun _ => read budget) (budget + 1))) {}
      (budget + 2) d).finish

end Portable

namespace Ty

mutual

def portable : Ty → Portable
  | ⟨name, _, generics, _, _, _⟩ => .mk name (portables generics)

def portables : List Ty → List Portable
  | [] => []
  | t :: rest => portable t :: portables rest

end

end Ty

end BlockGraph
