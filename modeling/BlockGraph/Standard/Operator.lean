import BlockGraph.Standard.Literal

/-!
# Operator blocks

An operator block writes the texts of its inputs with its operator between parentheses.
-/

namespace BlockGraph.Standard

/-- Two operands with an operator between them. -/
def binaryCallback (operator : String) : Callback := fun _ =>
  .getText "a" fun a => .getText "b" fun b => .text ("(" ++ a ++ " " ++ operator ++ " " ++ b ++ ")")

/-- An operator before its operand. -/
def unaryCallback (operator : String) : Callback := fun _ =>
  .getText "value" fun v => .text ("(" ++ operator ++ " " ++ v ++ ")")

/-- The output of an operator on a type. -/
def resultDecl (t : Ty) (callback : Callback) : PropDecl :=
  { key := "result", type := t, callbacks := .ofList [(motokoKey, callback), (typeKey, typeCallback t)] }

def binaryBlock (name category : String) (t : Ty) (operator : String) : BlockDecl :=
  { (((BlockDecl.split name).input { key := "a", type := t }).input { key := "b", type := t }).output
      (resultDecl t (binaryCallback operator)) with
    category := some category }

def unaryBlock (name category : String) (t : Ty) (operator : String) : BlockDecl :=
  { ((BlockDecl.split name).input { key := "value", type := t }).output
      (resultDecl t (unaryCallback operator)) with
    category := some category }

/-- The operators on truth values. -/
def logicBlocks (types : Registry) : Except Error (List BlockDecl) := do
  let bool ← types.resolve "Bool"
  return [ binaryBlock "And" "logic" bool "and", binaryBlock "Or" "logic" bool "or",
    unaryBlock "Not" "logic" bool "not" ]

/-- The operators on numbers and texts. -/
def mathBlocks (types : Registry) : Except Error (List BlockDecl) := do
  let int ← types.resolve "Int"
  let text ← types.resolve "Text"
  return [ binaryBlock "Add" "math" int "+", binaryBlock "Subtract" "math" int "-",
    binaryBlock "Multiply" "math" int "*", binaryBlock "Concat" "text" text "#" ]

end BlockGraph.Standard
