import BlockGraph.Type.Basic

/-!
# Texts of types

A type is written by its own renderer, or else as its name with the texts of its generics between angle
brackets. A compile key may have a renderer of its own; where a type has none for the key, the type and
all its generics are written as without a key.
-/

namespace BlockGraph.Ty

/-- What a renderer is told about a type whose generics are already written. -/
def view (t : Ty) (generics : List String) : TypeView :=
  ⟨t.name, t.isBase, t.traits.slotNames, generics⟩

/-- A name with the texts of generics between angle brackets. -/
def bracketed (name : String) (generics : List String) : String :=
  if generics.isEmpty then name else name ++ "<" ++ ", ".intercalate generics ++ ">"

mutual

def typeText : Ty → String
  | ⟨name, parent, generics, traits, annotations, isBase⟩ =>
    let texts := typeTexts generics
    match traits.typeText with
    | some render => render (view ⟨name, parent, generics, traits, annotations, isBase⟩ texts)
    | none => bracketed name texts

def typeTexts : List Ty → List String
  | [] => []
  | t :: rest => typeText t :: typeTexts rest

end

mutual

/-- The text of a type under a compile key. -/
def renderFor (key : String) : Ty → String
  | ⟨name, parent, generics, traits, annotations, isBase⟩ =>
    let t : Ty := ⟨name, parent, generics, traits, annotations, isBase⟩
    match traits.renderers.get? key with
    | some render => render (t.view (renderAllFor key generics))
    | none => t.typeText

def renderAllFor (key : String) : List Ty → List String
  | [] => []
  | t :: rest => renderFor key t :: renderAllFor key rest

end

def defaultValue (providers : Providers) (t : Ty) : Option Value :=
  match t.traits.default with
  | none => none
  | some (.value v) => some v
  | some (.computed provider) => providers provider t

end BlockGraph.Ty
