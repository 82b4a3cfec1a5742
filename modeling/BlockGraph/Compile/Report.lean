import BlockGraph.Compile.Event
import BlockGraph.Value.Basic

/-!
# Reports

A report lists compiled outputs with the events that were raised on the way.
-/

namespace BlockGraph

structure CompiledOutput where
  node : String
  block : String
  key : String
  value : Option Value

structure Report where
  outputs : List CompiledOutput
  /-- The events raised on the way. -/
  events : List Event

namespace Report

/-- The texts of the values that are present, with a separator between them. -/
def render (r : Report) (separator : String) : String :=
  separator.intercalate (r.outputs.filterMap fun o => o.value.map Value.display)

def hasWarnings (r : Report) : Bool := !r.events.isEmpty

def outputToJson (o : CompiledOutput) : Json :=
  .object
    [ ("node", .text o.node), ("block", .text o.block), ("key", .text o.key),
      ("value", (o.value.map Value.toJson).getD .null) ]

def toJson (r : Report) : Json :=
  .object [("outputs", .array (r.outputs.map outputToJson)), ("events", .array (r.events.map Event.toJson))]

end Report

end BlockGraph
