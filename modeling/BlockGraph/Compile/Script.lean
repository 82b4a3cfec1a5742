import BlockGraph.Compile.Report
import BlockGraph.Graph.Basic

/-!
# Requests and scripts

What a compiler can be asked for, from outside and by those whose code it runs: the values of outputs and
inputs, the types that flow, the arguments of a node, which can be kept and read from again, the events
collected so far, and whole reports. A script makes one request after the other, as a finite tree over
the replies.
-/

namespace BlockGraph

/-- The outcome of a request to a compiler. -/
abbrev Outcome (α : Type) := Except Error α

/-- The arguments of a node, of which some are computed. -/
structure Compiler.Arguments where
  node : String
  schema : Schema
  known : List (String × Option Value) := []

/-- What may be asked of a compiler. Arguments may have been read from before, whatever was asked in
between. -/
inductive Request where
  | output (node key : String)
  | input (node key : String)
  | infer (node key : String)
  /-- The arguments of a node, none of them computed. -/
  | arguments (node : String)
  /-- Reads an argument as it is, as a text, or as the texts of its items. -/
  | argument (args : Compiler.Arguments) (key : String)
  | text (args : Compiler.Arguments) (key : String)
  | texts (args : Compiler.Arguments) (key : String)
  /-- Reads all arguments. -/
  | prefetch (args : Compiler.Arguments)
  | compileOutputs (targets : List Socket)
  | compileProgram
  /-- Looks at the collected events. -/
  | events
  | takeEvents

/-- What a request gives. Arguments come back with what is known of them afterwards. -/
@[reducible] def Request.Reply : Request → Type
  | .output _ _ => Outcome (Option Value)
  | .input _ _ => Outcome (Option Value)
  | .infer _ _ => Outcome (Option Ty)
  | .arguments _ => Outcome Compiler.Arguments
  | .argument _ _ => Outcome (Option Value) × Compiler.Arguments
  | .text _ _ => Outcome String × Compiler.Arguments
  | .texts _ _ => Outcome (List String) × Compiler.Arguments
  | .prefetch _ => Outcome Unit × Compiler.Arguments
  | .compileOutputs _ => Outcome Report
  | .compileProgram => Outcome Report
  | .events => List Event
  | .takeEvents => List Event

/-- What is done with a compiler, one request after the other. -/
inductive Script (α : Type) where
  | done (a : α)
  | ask (q : Request) (next : q.Reply → Script α)

/-- Goes on with the result of a script. -/
def Script.bind {α β : Type} : Script α → (α → Script β) → Script β
  | .done a, f => f a
  | .ask q next, f => .ask q fun r => (next r).bind f

end BlockGraph
