import BlockGraph.Type.Builtin
import BlockGraph.Value.Basic

/-!
# What an output does

The output of a block is computed by a program: it asks for what it needs, one question after the other,
and ends with a value, with nothing, or with a failure. A program is a finite tree, so it asks finitely
many questions whatever the answers are, and it learns about the graph through the answers only.
-/

namespace BlockGraph

/-- Why a program ends without an answer. -/
inductive Failure where
  /-- An error of the engine that the program passes on. -/
  | engine (e : Error)
  /-- A cause of its own, with the contexts that were put around it, innermost first. -/
  | stated (contexts : List String) (cause : String)
deriving Repr, DecidableEq

/-- The wording of a failure: the outermost context first, the cause last. -/
def Failure.message : Failure → String
  | .engine e => e.message
  | .stated contexts cause => ": ".intercalate (contexts.reverse ++ [cause])

/-- What a program may ask for. -/
inductive Query where
  /-- The value of an input or control of the program's own node. It is computed at most once. -/
  | argument (key : String)
  /-- The value of an input or control of a node, computed anew. -/
  | argumentOf (node key : String)
  /-- The value of an output. -/
  | output (node key : String)
  /-- The value that flows into a property. -/
  | input (node key : String)
  /-- The type that flows into a property, as a value. -/
  | infer (node key : String)
  /-- The value of a stored control. -/
  | control (node key : String)
  /-- The name of the block of a node, as a text. -/
  | block (node : String)
deriving Repr, DecidableEq

/-- What an output does. -/
inductive Program where
  | done (result : Except Failure (Option Value))
  | ask (q : Query) (next : Except Error (Option Value) → Program)

/-- Where a program runs: the node and its block, the keys that it may read, the compile key and the
registry. -/
structure Site where
  node : String
  block : String
  keys : List String
  compileKey : String
  registry : Registry

/-- The program of an output at each site. -/
abbrev Callback := Site → Program

/-- The texts of the items of a list, the text of any other value, or nothing. -/
def Value.texts : Option Value → List String
  | some (.list items) => Value.displayAll items
  | some v => [v.display]
  | none => []

/-- The text of a value, empty when it is absent. -/
def Value.textOf (v : Option Value) : String := (v.map Value.display).getD ""

namespace Program

def value (v : Value) : Program := .done (.ok (some v))

def text (s : String) : Program := value (.text s)

def absent : Program := .done (.ok none)

/-- The program that fails for a cause of its own. -/
def fail (cause : String) : Program := .done (.error (.stated [] cause))

/-- Goes on with the result of a program, whether it failed or not. -/
def andThen : Program → (Except Failure (Option Value) → Program) → Program
  | .done r, k => k r
  | .ask q next, k => .ask q fun answer => (next answer).andThen k

/-- Asks, and passes an error on. -/
def request (q : Query) (k : Option Value → Program) : Program :=
  .ask q fun
    | .ok v => k v
    | .error e => .done (.error (.engine e))

def get (key : String) (k : Option Value → Program) : Program := request (.argument key) k

def getText (key : String) (k : String → Program) : Program := get key fun v => k (Value.textOf v)

/-- Reads an argument as the texts of its items. -/
def getTexts (key : String) (k : List String → Program) : Program := get key fun v => k (Value.texts v)

/-- Reads the arguments of all keys in order. -/
def prefetch (keys : List String) (k : Program) : Program :=
  keys.foldr (fun key k => get key fun _ => k) k

end Program

end BlockGraph
