import BlockGraph.Text.Inspect
import BlockGraph.Type.Registry

/-!
# Types in diagnostics
-/

namespace BlockGraph

def Ty.inspect (t : Ty) : String := "Type(" ++ t.typeText ++ ")"

/-- The traits of a type as shown in a diagnostic: renderers by their compile keys only, and a default
value only by its presence. -/
def Traits.inspect {V : Type} (t : Traits V) : String :=
  Text.inspectRecord "TypeData"
    [ ("is_abstract", Text.inspectBool t.isAbstract),
      ("arbitrary_generics", Text.inspectBool t.arbitraryGenerics),
      ("reversed", Text.inspectBool t.reversed),
      ("category", Text.inspectOption t.category),
      ("has_default_value", Text.inspectBool t.default.isSome),
      ("generic_names", Text.inspectList (t.slotNames.map Text.inspect)),
      ("renderers", Text.inspectList (t.renderers.keys.map Text.inspect)) ]

def Registry.inspect (r : Registry) : String := Text.inspectList (r.types.map Ty.inspect)

end BlockGraph
