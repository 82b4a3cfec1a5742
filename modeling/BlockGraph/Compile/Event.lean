import BlockGraph.Json.Basic

/-!
# Events of a compilation

Problems that a compilation reports while it goes on.
-/

namespace BlockGraph

/-- A problem that does not stop a compilation. -/
inductive Event where
  /-- A required input has neither a connection nor a control. -/
  | missingInput (node block key : String)
  /-- An output could not be computed and is absent. -/
  | warning (node block key message : String)
deriving Repr, DecidableEq

namespace Event

def node : Event → String
  | .missingInput node _ _ => node
  | .warning node _ _ _ => node

def block : Event → String
  | .missingInput _ block _ => block
  | .warning _ block _ _ => block

def key : Event → String
  | .missingInput _ _ key => key
  | .warning _ _ key _ => key

def display : Event → String
  | .missingInput node block key => "Missing input on " ++ block ++ " (" ++ node ++ "): " ++ key
  | .warning node block key message => "[" ++ block ++ "." ++ key ++ "] (" ++ node ++ ") " ++ message

def toJson : Event → Json
  | .missingInput node block key =>
    .object [("kind", .text "missing_input"), ("node", .text node), ("block", .text block), ("key", .text key)]
  | .warning node block key message =>
    .object
      [ ("kind", .text "warning"), ("node", .text node), ("block", .text block), ("key", .text key),
        ("message", .text message) ]

end Event

end BlockGraph
