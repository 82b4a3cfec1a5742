import BlockGraph.Compile.Event
import BlockGraph.Graph.Basic

/-!
# Sessions

A session is what a compilation changes while it runs: the outputs that are being computed, the events
collected so far and the events heard by a listener. An evaluation runs in a session; it may also not
end, because a type may be inferred from itself without limit.

A session also keeps the lists of events that were handed out. Nothing that is computed depends on them;
they are the other side of the account of what was heard.
-/

namespace BlockGraph

/-- The state of a compilation. -/
structure Session where
  /-- The outputs that are being computed, the innermost first. -/
  inProgress : List Socket := []
  /-- The events that were not yet handed out. -/
  events : List Event := []
  /-- All events, as a listener hears them. -/
  heard : List Event := []
  /-- The lists of events that were handed out, the first one first. -/
  handed : List (List Event) := []
deriving Repr, DecidableEq

/-- An evaluation in a session. It has no result when it does not end. -/
abbrev Eval (α : Type) := StateT Session Option α

namespace Eval

/-- The evaluation that does not end. -/
def endless {α : Type} : Eval α := fun _ => none

/-- Reports an event to the listener and collects it. -/
def emit (e : Event) : Eval Unit :=
  modify fun s => { s with events := s.events ++ [e], heard := s.heard ++ [e] }

def emitAll : List Event → Eval Unit
  | [] => pure ()
  | e :: rest => do
    emit e
    emitAll rest

/-- Hands out the collected events. -/
def takeEvents : Eval (List Event) := do
  let s ← get
  set { s with events := [], handed := s.handed ++ [s.events] }
  return s.events

/-- Marks an output as being computed, unless it is marked already. -/
def enter (socket : Socket) : Eval Bool := do
  let s ← get
  if socket ∈ s.inProgress then
    return false
  else
    set { s with inProgress := socket :: s.inProgress }
    return true

/-- Takes back the mark of an output. -/
def leave (socket : Socket) : Eval Unit :=
  modify fun s => { s with inProgress := s.inProgress.erase socket }

end Eval

end BlockGraph
