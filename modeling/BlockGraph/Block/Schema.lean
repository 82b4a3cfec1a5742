import BlockGraph.Block.Declaration

/-!
# Schemas of blocks

A schema is the table of the properties of a block, with pairwise different keys. `BlockDecl.normalize`
makes it from either shape of declaration: entries are taken in merge order, a further occurrence of a
descriptor is passed over, and a different descriptor with a key that is taken is refused.
-/

namespace BlockGraph

/-- The properties of a block, in merge order. -/
structure Schema where
  name : String
  category : Option String
  isGlobal : Bool
  props : List Property

namespace Schema

def prop? (s : Schema) (key : String) : Option Property := s.props.find? (·.key == key)

def prop (s : Schema) (key : String) : Except Error Property :=
  match s.prop? key with
  | some p => .ok p
  | none => .error (.propertyNotFound s.name key)

def inputs (s : Schema) : List Property := s.props.filter (·.isInput)

def outputs (s : Schema) : List Property := s.props.filter (·.isOutput)

def controls (s : Schema) : List Property := s.props.filter (·.isControl)

/-- The keys that a program may read as arguments. -/
def argumentKeys (s : Schema) : List String := (s.props.filter (!·.isOutput)).map (·.key)

end Schema

/-- A property with the tag of the descriptor that it comes from. -/
abbrev Claim := Tag × Property

namespace BlockDecl

/-- The entries in merge order with their directions: as listed in one list, otherwise outputs, then
inputs, then controls. -/
def mergeOrder (b : BlockDecl) : List (Descriptor × Option Direction) :=
  match b.shape with
  | .unified props => props.map fun d => (d, d.decl.direction?)
  | .split inputs outputs controls =>
    outputs.map (·, some .output) ++ inputs.map (·, some .input) ++ controls.map (·, some .control)

/-- Adds an entry to a table. -/
def claim (block : String) (table : List Claim) (entry : Descriptor × Option Direction) :
    Except Error (List Claim) :=
  match entry.2 with
  | none => .error (.undirectedProperty block entry.1.decl.key)
  | some direction =>
    match table.find? (·.2.key == entry.1.decl.key) with
    -- a descriptor may claim its key again, from whichever list
    | some (tag, _) => if tag = entry.1.tag then .ok table else .error (.duplicateProperty block entry.1.decl.key)
    | none => .ok (table ++ [(entry.1.tag, entry.1.decl.settle direction)])

def normalize (b : BlockDecl) : Except Error Schema := do
  let table ← b.mergeOrder.foldlM (claim b.name) []
  return { name := b.name, category := b.category, isGlobal := b.isGlobal, props := table.map (·.2) }

end BlockDecl

/-- The schemas of the known blocks, in the order in which they were added. -/
structure Catalog where
  blocks : List Schema

namespace Catalog

def empty : Catalog := ⟨[]⟩

def get? (c : Catalog) (name : String) : Option Schema := c.blocks.find? (·.name == name)

def get (c : Catalog) (name : String) : Except Error Schema :=
  match c.get? name with
  | some s => .ok s
  | none => .error (.unknownBlock name)

def contains (c : Catalog) (name : String) : Bool := (c.get? name).isSome

/-- Adds a declared block. A name that is taken is refused before the declaration is looked at. -/
def insert (c : Catalog) (b : BlockDecl) : Except Error (Schema × Catalog) := do
  if c.contains b.name then throw (.duplicateBlock b.name)
  let s ← b.normalize
  return (s, ⟨c.blocks ++ [s]⟩)

def insertAll (c : Catalog) (decls : List BlockDecl) : Except Error Catalog :=
  decls.foldlM (fun c b => return (← c.insert b).2) c

end Catalog

end BlockGraph
