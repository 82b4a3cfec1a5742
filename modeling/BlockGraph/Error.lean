import BlockGraph.Json.Reader

/-!
# Errors of the engine

Every way in which a registry, a catalog, a graph or a compilation refuses a request, with its wording.
-/

namespace BlockGraph

/-- Why the engine refuses a request. -/
inductive Error where
  | unknownType (name : String)
  | duplicateType (name : String)
  | incompatibleGenerics (base requested : String)
  | duplicateProperty (block key : String)
  | undirectedProperty (block key : String)
  | duplicateBlock (name : String)
  | unknownBlock (name : String)
  | unknownNode (id : String)
  | propertyNotFound (block key : String)
  | unknownInput (block key : String)
  | cycleDetected (node key : String)
  | json (e : Json.ReadError)
deriving Repr, DecidableEq

def Error.message : Error → String
  | .unknownType name => "Unknown type: " ++ name
  | .duplicateType name => "Duplicate type: " ++ name ++ " is already registered"
  | .incompatibleGenerics base requested => "Generics not assignable to " ++ base ++ " from " ++ requested
  | .duplicateProperty block key => "Duplicate prop in " ++ block ++ ": " ++ key
  | .undirectedProperty block key =>
    "Prop in " ++ block ++ " has no direction (input, output or control): " ++ key
  | .duplicateBlock name => "Duplicate block name: " ++ name
  | .unknownBlock name => "Unknown block: " ++ name
  | .unknownNode id => "Node does not exist: " ++ id
  | .propertyNotFound block key => "Prop not found on " ++ block ++ ": " ++ key
  | .unknownInput block key => "Unknown input on " ++ block ++ ": " ++ key
  | .cycleDetected node key => "Cycle detected while compiling " ++ node ++ "." ++ key
  | .json e => "JSON error: " ++ e.message

theorem bind_eq_ok_iff {ε α β : Type} {x : Except ε α} {f : α → Except ε β} {b : β} :
    (x >>= f) = .ok b ↔ ∃ a, x = .ok a ∧ f a = .ok b := by
  cases x with
  | error e => simp [bind, Except.bind]
  | ok a => simp [bind, Except.bind]

end BlockGraph
