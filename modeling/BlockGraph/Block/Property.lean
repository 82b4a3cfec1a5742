import BlockGraph.Block.Program
import BlockGraph.Type.Inspect

/-!
# Properties of blocks
-/

namespace BlockGraph

/-- What a property is for. -/
inductive Direction where
  | input
  | output
  | control
deriving Repr, DecidableEq

def Direction.name : Direction → String
  | .input => "Input"
  | .output => "Output"
  | .control => "Control"

/-- A property as declared, with the directions that it may take. -/
structure PropDecl where
  key : String
  type : Ty
  input : Bool := false
  output : Bool := false
  control : Bool := false
  /-- Takes any number of connections. -/
  multi : Bool := false
  /-- May be absent without notice. -/
  optional : Bool := false
  /-- What the output does under each compile key. -/
  callbacks : KeyMap Callback := .empty

structure Property where
  key : String
  type : Ty
  direction : Direction
  multi : Bool
  optional : Bool
  callbacks : KeyMap Callback

namespace PropDecl

/-- The direction by the flags of a declaration: an output before an input before a control. -/
def direction? (d : PropDecl) : Option Direction :=
  if d.output then some .output
  else if d.input then some .input
  else if d.control then some .control
  else none

/-- The declaration with the flag of a direction set. -/
def directed (d : PropDecl) : Direction → PropDecl
  | .input => { d with input := true }
  | .output => { d with output := true }
  | .control => { d with control := true }

/-- The property of a declaration, with its direction settled. -/
def settle (d : PropDecl) (direction : Direction) : Property :=
  { key := d.key, type := d.type, direction, multi := d.multi, optional := d.optional, callbacks := d.callbacks }

/-- A declaration as shown in a diagnostic, which leaves some fields out. -/
def inspect (d : PropDecl) : String :=
  Text.inspectPartRecord "PropDecl"
    [ ("key", Text.inspect d.key), ("ty", d.type.inspect), ("input", Text.inspectBool d.input),
      ("output", Text.inspectBool d.output), ("control", Text.inspectBool d.control) ]

end PropDecl

namespace Property

/-- What the output does under a compile key. -/
def callback? (p : Property) (compileKey : String) : Option Callback := p.callbacks.get? compileKey

def isInput (p : Property) : Bool := p.direction == .input

def isOutput (p : Property) : Bool := p.direction == .output

def isControl (p : Property) : Bool := p.direction == .control

def inspect (p : Property) : String :=
  Text.inspectRecord "PropertyDescriptor"
    [ ("key", Text.inspect p.key), ("ty", p.type.inspect), ("direction", p.direction.name),
      ("multi", Text.inspectBool p.multi), ("optional", Text.inspectBool p.optional),
      ("compilers", Text.inspectList (p.callbacks.keys.map Text.inspect)) ]

end Property

end BlockGraph
