import BlockGraph.Type.Basic

/-!
# Subtyping

A type is a subtype of another one when the names are the same and each generic is a subtype of the
generic in the same position, or when its parent is a subtype of the other one.
-/

namespace BlockGraph.Ty

mutual

/-- Whether the first type can stand where the second is asked for. -/
def isSubtype : Ty → Ty → Bool
  | ⟨name, parent, generics, _, _, _⟩, b =>
    (name == b.name && fits generics b.generics) || parentIsSubtype parent b

/-- Whether there are as many types as slots and each is a subtype of its slot. -/
def fits : List Ty → List Ty → Bool
  | [], [] => true
  | t :: ts, slot :: slots => isSubtype t slot && fits ts slots
  | _, _ => false

/-- Whether there is a parent and it is a subtype. -/
def parentIsSubtype : Option Ty → Ty → Bool
  | none, _ => false
  | some parent, b => isSubtype parent b

end

mutual

/-- The first of two types if it is a subtype of the second, the second if it is a subtype of the first,
and otherwise what the parent of the first shares with the second. -/
def sharedType : Ty → Ty → Option Ty
  | ⟨name, parent, generics, traits, annotations, isBase⟩, b =>
    let a : Ty := ⟨name, parent, generics, traits, annotations, isBase⟩
    if a == b || a.isSubtype b then some a
    else if b.isSubtype a then some b
    else parentSharedType parent b

def parentSharedType : Option Ty → Ty → Option Ty
  | none, _ => none
  | some parent, b => sharedType parent b

end

end BlockGraph.Ty
