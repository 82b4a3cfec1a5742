import BlockGraph.Type.Instance
import BlockGraph.Type.Portable

/-!
# The registry of types

A registry lists the registered types in the order of their registration. A declaration names the parent
and the generics of a new type; the traits and annotations of the parent are taken over, what the
declaration states is put over them, and the result is fixed from then on.
-/

namespace BlockGraph

/-- What is stated about a type to be registered. -/
structure TypeDecl where
  name : String
  parent : Option String := none
  generics : List Portable := []
  isAbstract : Bool := false
  arbitraryGenerics : Bool := false
  reversed : Option Bool := none
  category : Option String := none
  default : Option (DefaultValue Value) := none
  slotNames : Option (List String) := none
  typeText : Option Renderer := none
  renderers : List (String × Renderer) := []
  annotations : List (String × Json) := []

/-- The traits of a declared type: what it states, over what it takes from its parent. Abstractness and
free arity are its own. -/
def TypeDecl.traitsOver (decl : TypeDecl) (above : Traits Value) : Traits Value where
  isAbstract := decl.isAbstract
  arbitraryGenerics := decl.arbitraryGenerics
  reversed := decl.reversed.getD above.reversed
  category := decl.category.or above.category
  default := decl.default.or above.default
  slotNames := decl.slotNames.getD above.slotNames
  typeText := decl.typeText.or above.typeText
  renderers := above.renderers.insertAll decl.renderers

/-- The type that a declaration adds to a registry, with its parent and generics already resolved. -/
def TypeDecl.toType (decl : TypeDecl) (parent : Option Ty) (generics : List Ty) : Ty where
  name := decl.name
  parent := parent
  generics := generics
  traits := decl.traitsOver ((parent.map Ty.traits).getD {})
  annotations := KeyMap.insertAll ((parent.map Ty.annotations).getD .empty) decl.annotations
  isBase := true

/-- The registered types, in the order of their registration. -/
structure Registry where
  types : List Ty

namespace Registry

def empty : Registry := ⟨[]⟩

def get? (r : Registry) (name : String) : Option Ty := r.types.find? (·.name == name)

def contains (r : Registry) (name : String) : Bool := (r.get? name).isSome

def resolve (r : Registry) (name : String) : Except Error Ty :=
  match r.get? name with
  | some t => .ok t
  | none => .error (.unknownType name)

mutual

/-- The type that a portable form stands for: the named type is resolved first, then its generics in
order. -/
def fromPortable (r : Registry) : Portable → Except Error Ty
  | .mk name generics => do
    let base ← r.resolve name
    let generics ← fromPortables r generics
    base.of generics

def fromPortables (r : Registry) : List Portable → Except Error (List Ty)
  | [] => .ok []
  | p :: rest => do
    let t ← fromPortable r p
    let ts ← fromPortables r rest
    return t :: ts

end

/-- The type that the text of a portable form stands for. -/
def fromJson (r : Registry) (s : String) : Except Error Ty := do
  let p ← (Json.readWhole Portable.read s).mapError .json
  r.fromPortable p

def register (r : Registry) (decl : TypeDecl) : Except Error (Ty × Registry) := do
  if r.contains decl.name then throw (.duplicateType decl.name)
  let parent ← decl.parent.mapM r.resolve
  let generics ← r.fromPortables decl.generics
  let t := decl.toType parent generics
  -- no earlier step adds anything
  return (t, ⟨r.types ++ [t]⟩)

def registerAll (r : Registry) (decls : List TypeDecl) : Except Error Registry :=
  decls.foldlM (fun r decl => return (← r.register decl).2) r

/-- The tuple without components. -/
def unitType (r : Registry) : Except Error Ty := do (← r.resolve "Tuple").of []

end Registry

end BlockGraph
