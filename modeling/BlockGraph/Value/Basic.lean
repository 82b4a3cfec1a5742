import BlockGraph.Type.Portable
import BlockGraph.Type.Text

/-!
# Texts and documents of values
-/

namespace BlockGraph.Value

mutual

/-- The text of a value: whole numbers without a fraction, types by their texts, items of lists with
commas between them. -/
def display : Value → String
  | .bool b => if b then "true" else "false"
  | .number x => Decimal.display x
  | .text s => s
  | .type t => t.typeText
  | .node id => id
  | .list items => ", ".intercalate (displayAll items)

def displayAll : List Value → List String
  | [] => []
  | v :: rest => display v :: displayAll rest

end

mutual

def toJson : Value → Json
  | .bool b => .bool b
  | .number x => .ofFloat x
  | .text s => .text s
  | .type t => t.portable.toJson
  | .node id => .text id
  | .list items => .array (toJsons items)

def toJsons : List Value → List Json
  | [] => []
  | v :: rest => toJson v :: toJsons rest

end

end BlockGraph.Value
