import BlockGraph.Block.Schema
import BlockGraph.Text.Escape

/-!
# Literal blocks

A literal block has a control for its value and one output, which writes the value as a literal.
-/

namespace BlockGraph.Standard

/-- How the value of a literal is written. -/
abbrev LiteralText := Value → Except String String

/-- The value as it is shown. -/
def plainLiteral : LiteralText := fun v => .ok v.display

/-- A number as a natural number, which must not be negative. -/
def natLiteral : LiteralText := fun v =>
  match v.asNumber? with
  | some x => if x < 0 then .error ("Nat literal " ++ v.display ++ " is negative") else .ok v.display
  | none => .ok v.display

/-- A number with a fraction or an exponent. -/
def floatLiteral : LiteralText := fun v =>
  match v.asNumber? with
  | some x => .ok (Decimal.Layout.precise.write x)
  | none => .ok v.display

def textLiteral : LiteralText := fun v => .ok (Text.quoteText v.display)

/-- What is wrong with a character literal of no characters. -/
def emptyChar : String := "Char literal is empty"

/-- The first character of a text, quoted. -/
def charLiteral : LiteralText := fun v =>
  match Text.quoteChar? v.display with
  | some s => .ok s
  | none => .error emptyChar

/-- The output that is always of a type, under the key of type inference. -/
def typeCallback (t : Ty) : Callback := fun _ => .value (.type t)

/-- The literal of the control, or nothing if there is none. -/
def literalCallback (write : LiteralText) : Callback := fun _ =>
  .get "value" fun
    | none => .absent
    | some v =>
      match write v with
      | .ok s => .text s
      | .error cause => .fail cause

def literalBlock (name : String) (t : Ty) (write : LiteralText) : BlockDecl :=
  { BlockDecl.unified name
      [ { key := "value", type := t, control := true },
        { key := "result", type := t, output := true,
          callbacks := .ofList [(motokoKey, literalCallback write), (typeKey, typeCallback t)] } ] with
    category := some "literals" }

def literalBlocks (types : Registry) : Except Error (List BlockDecl) := do
  return [ literalBlock "LiteralBool" (← types.resolve "Bool") plainLiteral,
    literalBlock "LiteralInt" (← types.resolve "Int") plainLiteral,
    literalBlock "LiteralNat" (← types.resolve "Nat") natLiteral,
    literalBlock "LiteralFloat" (← types.resolve "Float") floatLiteral,
    literalBlock "LiteralText" (← types.resolve "Text") textLiteral,
    literalBlock "LiteralChar" (← types.resolve "Char") charLiteral ]

end BlockGraph.Standard
