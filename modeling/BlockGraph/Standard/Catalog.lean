import BlockGraph.Standard.Actor
import BlockGraph.Standard.Operator

/-!
# The standard catalog
-/

namespace BlockGraph.Standard

/-- The declarations of the standard blocks, in order. -/
def decls (types : Registry) : Except Error (List BlockDecl) := do
  return (← literalBlocks types) ++ (← logicBlocks types) ++ (← mathBlocks types) ++ (← actorBlocks types)

def catalog (types : Registry) : Except Error Catalog := do
  Catalog.empty.insertAll (← decls types)

end BlockGraph.Standard
