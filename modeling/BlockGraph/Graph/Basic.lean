import BlockGraph.Block.Schema
import BlockGraph.Value.Control

/-!
# Graphs

A graph has nodes, each of a block and with stored controls, and connections from output sockets to
input sockets. The order of connections that share a socket is their order in the list. Ids need not be
unique in a graph that was read from a document; the first node of an id is the one that is meant.
-/

namespace BlockGraph

/-- A placed block. -/
structure Node where
  id : String
  /-- The name of the block. -/
  block : String
  controls : KeyMap Control

/-- A connection from an output socket to an input socket. -/
structure Connection where
  sourceNode : String
  sourcePin : String
  targetNode : String
  targetPin : String
deriving Repr, DecidableEq

/-- What a graph says about itself. -/
structure Metadata where
  name : String := ""
  description : String := ""
  version : String := ""
deriving Repr, DecidableEq

/-- A graph of placed blocks. -/
structure Graph where
  nodes : List Node
  connections : List Connection
  metadata : Metadata := {}

/-- Which socket of a property a connection is attached to. -/
inductive Side where
  | input
  | output
deriving Repr, DecidableEq

/-- A property of a node. -/
structure Socket where
  node : String
  key : String
deriving Repr, DecidableEq

namespace Node

def new (id block : String) : Node := ⟨id, block, .empty⟩

def withControl (n : Node) (key : String) (value : Control) : Node :=
  { n with controls := n.controls.insert key value }

/-- Whether a new node stores a control for the property: controls do, and inputs that take a single
connection in the forward direction. -/
def wantsControl (p : Property) : Bool :=
  p.isControl || (p.isInput && !p.multi && !p.type.isReversed)

/-- A new node of a block, with the default values of its properties stored. -/
def ofSchema (providers : Providers) (id : String) (s : Schema) : Node :=
  s.props.foldl
    (fun n p =>
      if wantsControl p then
        match (p.type.defaultValue providers).bind Value.toControl? with
        | some control => n.withControl p.key control
        | none => n
      else n)
    (new id s.name)

end Node

namespace Connection

/-- The far end of a connection that is attached to a socket. -/
def peer? (c : Connection) (node : String) (side : Side) (key : String) : Option Socket :=
  match side with
  | .input => if c.targetNode = node ∧ c.targetPin = key then some ⟨c.sourceNode, c.sourcePin⟩ else none
  | .output => if c.sourceNode = node ∧ c.sourcePin = key then some ⟨c.targetNode, c.targetPin⟩ else none

/-- Whether an end of the connection is at a node. -/
def touches (c : Connection) (id : String) : Bool := c.sourceNode == id || c.targetNode == id

end Connection

namespace Graph

def new (name : String) : Graph := ⟨[], [], { name, version := "1.0.0" }⟩

def node? (g : Graph) (id : String) : Option Node := g.nodes.find? (·.id == id)

def nodeIds (g : Graph) : List String := g.nodes.map (·.id)

def blockName? (g : Graph) (id : String) : Option String := (g.node? id).map (·.block)

def control? (g : Graph) (id key : String) : Option Control := (g.node? id).bind (·.controls.get? key)

/-- The far ends of the connections attached to a socket, in connection order. -/
def peers (g : Graph) (node : String) (side : Side) (key : String) : List Socket :=
  g.connections.filterMap (·.peer? node side key)

/-- Replaces the first node that has the id of the given one. -/
def replaceFirst (node : Node) : List Node → List Node
  | [] => []
  | n :: rest => if n.id = node.id then node :: rest else n :: replaceFirst node rest

/-- Adds a node, in the place of one with the same id. -/
def addNode (g : Graph) (node : Node) : Graph :=
  if (g.node? node.id).isSome then { g with nodes := replaceFirst node g.nodes }
  else { g with nodes := g.nodes ++ [node] }

/-- Adds a connection between nodes of the graph. -/
def connect (g : Graph) (c : Connection) : Except Error Graph :=
  if (g.node? c.sourceNode).isNone then .error (.unknownNode c.sourceNode)
  else if (g.node? c.targetNode).isNone then .error (.unknownNode c.targetNode)
  else .ok { g with connections := g.connections ++ [c] }

def removeNode (g : Graph) (id : String) : Graph :=
  { g with
    nodes := g.nodes.filter (·.id != id)
    connections := g.connections.filter (!·.touches id) }

def setControl (g : Graph) (id key : String) (value : Control) : Except Error Graph :=
  match g.node? id with
  | none => .error (.unknownNode id)
  | some node => .ok { g with nodes := replaceFirst (node.withControl key value) g.nodes }

end Graph

end BlockGraph
