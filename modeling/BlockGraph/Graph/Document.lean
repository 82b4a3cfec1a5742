import BlockGraph.Graph.Basic

/-!
# Documents of graphs

A graph is stored as a document with its nodes, its connections and its metadata. Controls, metadata and
the texts of metadata other than the name may be left out.
-/

namespace BlockGraph

namespace Node

def toJson (n : Node) : Json :=
  .object
    [ ("id", .text n.id), ("block", .text n.block),
      ("controls", .object (n.controls.entries.map fun (key, control) => (key, control.toJson))) ]

/-- A node of which some fields are read. -/
structure Draft where
  id : Option String := none
  block : Option String := none
  controls : Option (KeyMap Control) := none

def fields : List (Json.Field Draft) :=
  [ { name := "id", optional := false, given := (·.id.isSome),
      read := fun _ d draft => do return { draft with id := some (← Json.readText d) } },
    { name := "block", optional := false, given := (·.block.isSome),
      read := fun _ d draft => do return { draft with block := some (← Json.readText d) } },
    { name := "controls", optional := true, given := (·.controls.isSome),
      read := fun budget d draft => do
        return { draft with controls := some (.ofList (← Json.readEntries Control.read budget d)) } } ]

def read (budget : Nat) (d : Json.Doc) : Json.Result Node := do
  let draft ← Json.readRecord "NodeInstance" fields {} budget d
  return ⟨draft.id.getD "", draft.block.getD "", draft.controls.getD .empty⟩

end Node

namespace Connection

def toJson (c : Connection) : Json :=
  .object
    [ ("source_node", .text c.sourceNode), ("source_pin", .text c.sourcePin),
      ("target_node", .text c.targetNode), ("target_pin", .text c.targetPin) ]

structure Draft where
  sourceNode : Option String := none
  sourcePin : Option String := none
  targetNode : Option String := none
  targetPin : Option String := none

def fields : List (Json.Field Draft) :=
  [ { name := "source_node", optional := false, given := (·.sourceNode.isSome),
      read := fun _ d draft => do return { draft with sourceNode := some (← Json.readText d) } },
    { name := "source_pin", optional := false, given := (·.sourcePin.isSome),
      read := fun _ d draft => do return { draft with sourcePin := some (← Json.readText d) } },
    { name := "target_node", optional := false, given := (·.targetNode.isSome),
      read := fun _ d draft => do return { draft with targetNode := some (← Json.readText d) } },
    { name := "target_pin", optional := false, given := (·.targetPin.isSome),
      read := fun _ d draft => do return { draft with targetPin := some (← Json.readText d) } } ]

def read (budget : Nat) (d : Json.Doc) : Json.Result Connection := do
  let draft ← Json.readRecord "Connection" fields {} budget d
  return ⟨draft.sourceNode.getD "", draft.sourcePin.getD "", draft.targetNode.getD "", draft.targetPin.getD ""⟩

end Connection

namespace Metadata

def toJson (m : Metadata) : Json :=
  .object [("name", .text m.name), ("description", .text m.description), ("version", .text m.version)]

structure Draft where
  name : Option String := none
  description : Option String := none
  version : Option String := none

def fields : List (Json.Field Draft) :=
  [ { name := "name", optional := false, given := (·.name.isSome),
      read := fun _ d draft => do return { draft with name := some (← Json.readText d) } },
    { name := "description", optional := true, given := (·.description.isSome),
      read := fun _ d draft => do return { draft with description := some (← Json.readText d) } },
    { name := "version", optional := true, given := (·.version.isSome),
      read := fun _ d draft => do return { draft with version := some (← Json.readText d) } } ]

def read (budget : Nat) (d : Json.Doc) : Json.Result Metadata := do
  let draft ← Json.readRecord "GraphMetadata" fields {} budget d
  return ⟨draft.name.getD "", draft.description.getD "", draft.version.getD ""⟩

end Metadata

namespace Graph

/-- The document of a graph. -/
def toDocument (g : Graph) : Json :=
  .object
    [ ("nodes", .array (g.nodes.map Node.toJson)),
      ("connections", .array (g.connections.map Connection.toJson)),
      ("metadata", g.metadata.toJson) ]

structure Draft where
  nodes : Option (List Node) := none
  connections : Option (List Connection) := none
  metadata : Option Metadata := none

def fields : List (Json.Field Draft) :=
  [ { name := "nodes", optional := false, given := (·.nodes.isSome),
      read := fun budget d draft => do
        return { draft with nodes := some (← Json.readList Node.read budget d) } },
    { name := "connections", optional := false, given := (·.connections.isSome),
      read := fun budget d draft => do
        return { draft with connections := some (← Json.readList Connection.read budget d) } },
    { name := "metadata", optional := true, given := (·.metadata.isSome),
      read := fun budget d draft => do
        return { draft with metadata := some (← Metadata.read budget d) } } ]

def read (budget : Nat) (d : Json.Doc) : Json.Result Graph := do
  let draft ← Json.readRecord "GraphDescription" fields {} budget d
  return ⟨draft.nodes.getD [], draft.connections.getD [], draft.metadata.getD {}⟩

/-- The text of the document of a graph. -/
def toJson (g : Graph) : String := g.toDocument.pretty

/-- The graph of the text of a document. -/
def fromJson (s : String) : Except Error Graph := (Json.readWhole read s).mapError .json

end Graph

end BlockGraph
