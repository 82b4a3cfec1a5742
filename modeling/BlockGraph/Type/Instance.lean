import BlockGraph.Error
import BlockGraph.Type.Subtype
import BlockGraph.Type.Text

/-!
# Instances of types

An instance has the name of the type that it is made from, new generics, and that type as its parent.
-/

namespace BlockGraph.Ty

/-- The instance of a type with the given generics, whether they fit or not. -/
def withGenerics (t : Ty) (generics : List Ty) : Ty :=
  { name := t.name, parent := some t, generics := generics, traits := t.traits.inherited,
    annotations := t.annotations, isBase := false }

/-- The instance of a type with the given generics. Unless the type takes arbitrary generics, each of
them must be a subtype of the slot that it fills. -/
def of (t : Ty) (generics : List Ty) : Except Error Ty :=
  let arbitrary := t.traits.arbitraryGenerics
  -- no generics, or those that the type has already, give the type itself
  if !arbitrary && (generics.isEmpty || beqAll generics t.generics) then .ok t
  else if arbitrary || fits generics t.generics then .ok (t.withGenerics generics)
  else .error (.incompatibleGenerics t.typeText (t.withGenerics generics).typeText)

end BlockGraph.Ty
