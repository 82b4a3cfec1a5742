import BlockGraph.Compile.Script

/-!
# Compilers

What a compilation works with, and what it looks up there: the schema of a node, the property of a key,
stored controls, the program of an output and the targets of a whole program. Unknown nodes, blocks and
properties are errors of the request.
-/

namespace BlockGraph

/-- What a compilation works with. -/
structure Compiler where
  graph : Graph
  catalog : Catalog
  registry : Registry
  compileKey : String
  /-- Takes the place of the programs of all outputs. -/
  defaultCompile : Option (Property → Callback) := none
  /-- Applied to every computed output and every control, with the node and the key. -/
  postCompile : Option (Option Value → String → String → Option Value) := none

namespace Compiler

def schema (c : Compiler) (node : String) : Outcome Schema :=
  match c.graph.blockName? node with
  | none => .error (.unknownNode node)
  | some name => c.catalog.get name

/-- The schema of a node and its property of a key. -/
def property (c : Compiler) (node key : String) : Outcome (Schema × Property) := do
  let schema ← c.schema node
  let prop ← schema.prop key
  return (schema, prop)

/-- The value of the control stored in a node under a key. -/
def storedControl (c : Compiler) (node key : String) : Outcome (Option Value) :=
  (c.graph.control? node key).mapM (Control.toValue c.registry)

/-- A computed value after the last step that applies to all of them. -/
def postProcess (c : Compiler) (node key : String) (v : Option Value) : Option Value :=
  match c.postCompile with
  | some post => post v node key
  | none => v

/-- The compiler that infers types over the same graph. -/
def inference (c : Compiler) : Compiler :=
  { graph := c.graph, catalog := c.catalog, registry := c.registry, compileKey := typeKey }

/-- The side of a property's connections that an input reads. -/
def inputSide (p : Property) : Side := if p.type.isReversed then .output else .input

/-- The arguments of a node, none of them computed. -/
def arguments (c : Compiler) (node : String) : Outcome Arguments := do
  return { node, schema := ← c.schema node }

/-- Where the program of an output of a node runs. -/
def site (c : Compiler) (node : String) (schema : Schema) : Site :=
  { node, block := schema.name, keys := schema.argumentKeys, compileKey := c.compileKey, registry := c.registry }

def program (c : Compiler) (node : String) (schema : Schema) (p : Property) : Program :=
  match c.defaultCompile with
  | some compile => compile p (c.site node schema)
  | none =>
    match p.callback? c.compileKey with
    | some callback => callback (c.site node schema)
    | none => .absent

/-- The properties of the nodes of the graph whose blocks are known. -/
def declared (c : Compiler) : List Socket :=
  c.graph.nodes.flatMap fun n =>
    match c.catalog.get? n.block with
    | some s => s.props.map fun p => ⟨n.id, p.key⟩
    | none => []

/-- The outputs of a node of a global block. -/
def globalOutputs (c : Compiler) (node : String) : Outcome (List Socket) := do
  let s ← c.schema node
  return if s.isGlobal then s.outputs.map fun p => ⟨node, p.key⟩ else []

/-- The outputs of all nodes of global blocks, in the order of the nodes. -/
def programTargets (c : Compiler) : Outcome (List Socket) := do
  return (← c.graph.nodeIds.mapM c.globalOutputs).flatten

def typeText (c : Compiler) (t : Ty) : String := t.renderFor c.compileKey

end Compiler

end BlockGraph
