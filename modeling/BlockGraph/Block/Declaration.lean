import BlockGraph.Block.Property

/-!
# Declarations of blocks

A block declares its properties as one list, in which each entry tells its direction by its flags, or as
three lists, one for each direction. An entry carries a tag: entries with the same tag are occurrences
of one descriptor, and entries with different tags are different descriptors even if they declare the
same.
-/

namespace BlockGraph

/-- What tells descriptors apart. -/
inductive Tag where
  /-- A descriptor that may occur several times. -/
  | shared (label : String)
  /-- A descriptor of which this is the only occurrence. -/
  | single (n : Nat)
deriving Repr, DecidableEq

/-- An occurrence of a descriptor in a declaration. -/
structure Descriptor where
  tag : Tag
  decl : PropDecl

/-- The lists of a declaration. -/
inductive Shape where
  | unified (props : List Descriptor)
  | split (inputs outputs controls : List Descriptor)

def Shape.size : Shape → Nat
  | .unified props => props.length
  | .split inputs outputs controls => inputs.length + outputs.length + controls.length

/-- A block as declared. -/
structure BlockDecl where
  name : String
  category : Option String := none
  /-- Its outputs are compiled as parts of the whole program. -/
  isGlobal : Bool := false
  shape : Shape

namespace BlockDecl

def unified (name : String) (props : List PropDecl) : BlockDecl :=
  { name, shape := .unified (props.zipIdx.map fun (decl, i) => ⟨.single i, decl⟩) }

/-- A declaration with three lists, all of them empty. -/
def split (name : String) : BlockDecl := { name, shape := .split [] [] [] }

/-- Adds an entry in a direction. In one list, an entry without a direction of its own takes this one,
which makes it a descriptor of its own. A label marks an occurrence of a shared descriptor. -/
def push (b : BlockDecl) (direction : Direction) (decl : PropDecl) (label : Option String) : BlockDecl :=
  let single := Tag.single b.shape.size
  let tag := (label.map Tag.shared).getD single
  match b.shape with
  | .unified props =>
    let entry : Descriptor :=
      if decl.direction?.isNone then ⟨single, decl.directed direction⟩ else ⟨tag, decl⟩
    { b with shape := .unified (props ++ [entry]) }
  | .split inputs outputs controls =>
    let entry : Descriptor := ⟨tag, decl⟩
    match direction with
    | .input => { b with shape := .split (inputs ++ [entry]) outputs controls }
    | .output => { b with shape := .split inputs (outputs ++ [entry]) controls }
    | .control => { b with shape := .split inputs outputs (controls ++ [entry]) }

def input (b : BlockDecl) (decl : PropDecl) : BlockDecl := b.push .input decl none

def output (b : BlockDecl) (decl : PropDecl) : BlockDecl := b.push .output decl none

def control (b : BlockDecl) (decl : PropDecl) : BlockDecl := b.push .control decl none

/-- Entries as shown in a diagnostic. -/
def inspectEntries (entries : List Descriptor) : String := Text.inspectList (entries.map (·.decl.inspect))

def inspectShape : Shape → String
  | .unified props => "Unified(" ++ inspectEntries props ++ ")"
  | .split inputs outputs controls =>
    Text.inspectRecord "Split"
      [ ("inputs", inspectEntries inputs), ("outputs", inspectEntries outputs),
        ("controls", inspectEntries controls) ]

def inspect (b : BlockDecl) : String :=
  Text.inspectRecord "BlockDecl"
    [ ("name", Text.inspect b.name), ("category", Text.inspectOption b.category),
      ("global", Text.inspectBool b.isGlobal), ("shape", inspectShape b.shape) ]

end BlockDecl

end BlockGraph
