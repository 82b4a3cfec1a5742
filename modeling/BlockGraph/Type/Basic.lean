import BlockGraph.Json.Basic
import BlockGraph.KeyMap

/-!
# Types and values

A type has a name, at most one parent, and generics. Types with the same name and the same generics are
equal, whatever their parents and traits are. A value is what flows along the connections of a graph;
types are values too, and a type may carry a default value, so the two are defined together.

What a type does not share with the types of the same name and generics is collected in its `Traits`,
which a registered type takes over from its parent and overrides field by field.
-/

namespace BlockGraph

/-- What a renderer is told about the type that it writes. -/
structure TypeView where
  name : String
  isBase : Bool
  slotNames : List String
  /-- The texts of the generics. -/
  generics : List String

abbrev Renderer := TypeView → String

/-- Where the default value of a type comes from. It may be computed from the type that has it, by any function; since a
function of types cannot be part of a type, it is known here by its name. -/
inductive DefaultValue (V : Type) where
  | value (v : V)
  | computed (provider : String)

/-- What is attached to a type besides its name and its place in the lattice. -/
structure Traits (V : Type) where
  isAbstract : Bool := false
  /-- Instances may have any number of generics of any type. -/
  arbitraryGenerics : Bool := false
  /-- Connections of this type are followed in the opposite direction. -/
  reversed : Bool := false
  category : Option String := none
  default : Option (DefaultValue V) := none
  slotNames : List String := []
  /-- How the type is written whatever the compile key is. -/
  typeText : Option Renderer := none
  /-- How the type is written under single compile keys. -/
  renderers : KeyMap Renderer := .empty

/-- The traits that pass to children and instances: abstractness and free arity do not. -/
def Traits.inherited {V : Type} (t : Traits V) : Traits V :=
  { t with isAbstract := false, arbitraryGenerics := false }

mutual

structure Ty where
  name : String
  parent : Option Ty
  generics : List Ty
  traits : Traits Value
  annotations : KeyMap Json
  /-- Registered under its name, rather than an instance of a registered type. -/
  isBase : Bool

/-- A value that flows along connections. -/
inductive Value where
  | bool (b : Bool)
  | number (x : Float)
  | text (s : String)
  | type (t : Ty)
  /-- A reference to a node of the graph. -/
  | node (id : String)
  | list (items : List Value)

end

/-- The functions that compute default values, each under its name. -/
abbrev Providers := String → Ty → Option Value

namespace Ty

mutual

/-- Structural equality: same name and same generics. -/
def beq : Ty → Ty → Bool
  | ⟨name, _, generics, _, _, _⟩, b => name == b.name && beqAll generics b.generics

def beqAll : List Ty → List Ty → Bool
  | [], [] => true
  | a :: as, b :: bs => beq a b && beqAll as bs
  | _, _ => false

end

instance : BEq Ty := ⟨beq⟩

mutual

/-- Whether the type or one of its generics at any depth is stated to be abstract. -/
def isAbstract : Ty → Bool
  | ⟨_, _, generics, traits, _, _⟩ => traits.isAbstract || anyAbstract generics

def anyAbstract : List Ty → Bool
  | [] => false
  | t :: rest => isAbstract t || anyAbstract rest

end

/-- Whether connections of the type are followed in the opposite direction. -/
def isReversed (t : Ty) : Bool := t.traits.reversed

/-- The type with annotations put over its own. -/
def annotate (t : Ty) (annotations : List (String × Json)) : Ty :=
  { t with annotations := t.annotations.insertAll annotations }

def renameSlots (t : Ty) (names : List String) : Ty :=
  { t with traits := { t.traits with slotNames := names } }

mutual

/-- The ancestors of a type, nearest first. -/
def lineage : Ty → List Ty
  | ⟨_, parent, _, _, _, _⟩ => lineageOf parent

/-- A type and its ancestors, if there is one. -/
def lineageOf : Option Ty → List Ty
  | none => []
  | some t => t :: lineage t

end

end Ty

namespace Value

mutual

/-- Equality of values. Numbers are compared as numbers, types structurally. -/
def beq : Value → Value → Bool
  | .bool a, .bool b => a == b
  | .number a, .number b => a == b
  | .text a, .text b => a == b
  | .type a, .type b => a == b
  | .node a, .node b => a == b
  | .list as, .list bs => beqAll as bs
  | _, _ => false

def beqAll : List Value → List Value → Bool
  | [], [] => true
  | a :: as, b :: bs => beq a b && beqAll as bs
  | _, _ => false

end

instance : BEq Value := ⟨beq⟩

def asBool? : Value → Option Bool
  | .bool b => some b
  | _ => none

def asNumber? : Value → Option Float
  | .number x => some x
  | _ => none

def asText? : Value → Option String
  | .text s => some s
  | _ => none

def asType? : Value → Option Ty
  | .type t => some t
  | _ => none

def asList? : Value → Option (List Value)
  | .list items => some items
  | _ => none

end Value

end BlockGraph
