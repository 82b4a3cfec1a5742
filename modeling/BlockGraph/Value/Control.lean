import BlockGraph.Type.Registry
import BlockGraph.Value.Basic

/-!
# Stored values

A control holds a value in the form in which graphs store it. Types are stored in their portable form,
so taking a control back to a value needs a registry; lists are not stored.
-/

namespace BlockGraph

/-- A stored value. -/
inductive Control where
  | boolean (b : Bool)
  | number (x : Float)
  | string (s : String)
  | type (p : Portable)
  | node (id : String)

/-- The stored form of a value, unless it is a list. -/
def Value.toControl? : Value → Option Control
  | .bool b => some (.boolean b)
  | .number x => some (.number x)
  | .text s => some (.string s)
  | .type t => some (.type t.portable)
  | .node id => some (.node id)
  | .list _ => none

namespace Control

/-- The value that a control holds, with its types looked up in a registry. -/
def toValue (r : Registry) : Control → Except Error Value
  | .boolean b => .ok (.bool b)
  | .number x => .ok (.number x)
  | .string s => .ok (.text s)
  | .type p => return .type (← r.fromPortable p)
  | .node id => .ok (.node id)

def toJson : Control → Json
  | .boolean b => .object [("Boolean", .bool b)]
  | .number x => .object [("Number", .ofFloat x)]
  | .string s => .object [("String", .text s)]
  | .type p => .object [("Type", p.toJson)]
  | .node id => .object [("Node", .text id)]

/-- The names of the kinds of controls in documents. -/
def kinds : List String := ["Boolean", "Number", "String", "Type", "Node"]

/-- Reads a control of a kind. -/
def readKind (kind : String) (budget : Nat) (d : Json.Doc) : Json.Result Control :=
  if kind = "Boolean" then return .boolean (← Json.readBool d)
  else if kind = "Number" then return .number (← Json.readFloat d)
  else if kind = "String" then return .string (← Json.readText d)
  else if kind = "Type" then return .type (← Portable.read budget d)
  else return .node (← Json.readText d)

def read (budget : Nat) (d : Json.Doc) : Json.Result Control := Json.readVariant kinds readKind budget d

end Control

end BlockGraph
