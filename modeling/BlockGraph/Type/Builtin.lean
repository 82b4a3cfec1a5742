import BlockGraph.Type.Registry

/-!
# The built-in lattice

Two roots: `Any` for what flows from outputs into inputs, and `AnyReversed` for statement-like types,
whose connections are followed the other way round.
-/

namespace BlockGraph

/-- The compile key under which Motoko is written. -/
def motokoKey : String := "motoko"

/-- The compile key under which types are inferred. -/
def typeKey : String := "type"

namespace Builtin

/-- The text of the first generic, or nothing. -/
def firstGeneric (v : TypeView) : String := v.generics.headD ""

/-- The names of slots with the texts of the generics in them. A slot without a name is called by its
position. -/
def namedGenerics (v : TypeView) : List (String × String) :=
  v.generics.zipIdx.map fun (text, i) => ((v.slotNames[i]?).getD ("_" ++ toString i), text)

/-- A tuple: components between parentheses, or the name of the registered type. -/
def tupleText (v : TypeView) : String :=
  if v.isBase then v.name else "(" ++ ", ".intercalate v.generics ++ ")"

/-- A record: named components between parentheses. -/
def objectText (v : TypeView) : String :=
  "(" ++ ", ".intercalate ((namedGenerics v).map fun (name, text) => name ++ ": " ++ text) ++ ")"

/-- A record in Motoko: named components between braces. -/
def objectMotoko (v : TypeView) : String :=
  "\x7b " ++ "; ".intercalate ((namedGenerics v).map fun (name, text) => name ++ " : " ++ text) ++ " \x7d"

/-- A function: an arrow between its generics. -/
def functionText (v : TypeView) : String := " -> ".intercalate v.generics

/-- The name of the function that gives the first generic of a type as its default value. -/
def contentProvider : String := "content"

/-- How the default values of the built-in types are computed. -/
def providers : Providers := fun provider t =>
  if provider = contentProvider then t.generics.head?.map .type else none

def decls : List TypeDecl :=
  [ { name := "Any", category := some "default", reversed := some false },
    { name := "AnyReversed", category := some "default", reversed := some true },
    { name := "Type", parent := some "Any", category := some "types", generics := [.named "Any"],
      default := some (.computed contentProvider) },
    { name := "Node", parent := some "Any", category := some "nodes" },
    { name := "Value", parent := some "Any", isAbstract := true, category := some "values" },
    { name := "Identifier", parent := some "Any" },
    { name := "Effect", parent := some "AnyReversed", category := some "effects", generics := [.named "Value"],
      renderers := [(motokoKey, firstGeneric)] },
    { name := "Member", parent := some "AnyReversed", category := some "members" },
    { name := "Actor", parent := some "AnyReversed", category := some "actors" },
    { name := "Module", parent := some "AnyReversed", category := some "modules" },
    { name := "Param", parent := some "AnyReversed", category := some "parameters" },
    { name := "Bool", parent := some "Value", default := some (.value (.bool false)) },
    { name := "Char", parent := some "Value" },
    { name := "Text", parent := some "Value", default := some (.value (.text "")) },
    { name := "Float", parent := some "Value", default := some (.value (.number 0)) },
    { name := "Int", parent := some "Float", category := some "integers" },
    { name := "Nat", parent := some "Float", category := some "naturals" },
    { name := "Blob", parent := some "Value" },
    { name := "Principal", parent := some "Value" },
    { name := "Error", parent := some "Value" },
    { name := "Tuple", parent := some "Value", isAbstract := true, arbitraryGenerics := true,
      category := some "tuples", typeText := some tupleText },
    { name := "Object", parent := some "Value", isAbstract := true, arbitraryGenerics := true,
      category := some "objects", typeText := some objectText, renderers := [(motokoKey, objectMotoko)] },
    { name := "Function", parent := some "Value", generics := [.named "Value", .named "Value"],
      slotNames := some ["input", "output"], category := some "functions", typeText := some functionText },
    { name := "Optional", parent := some "Value", generics := [.named "Value"], category := some "optionals",
      renderers := [(motokoKey, fun v => "?" ++ firstGeneric v)] },
    { name := "Async", parent := some "Value", generics := [.named "Value"], category := some "futures",
      renderers := [(motokoKey, fun v => "async " ++ firstGeneric v)] } ]

end Builtin

def Registry.builtin : Except Error Registry := Registry.empty.registerAll Builtin.decls

end BlockGraph
