import BlockGraph.Standard.Literal

/-!
# Blocks of actors

An actor collects members, a function is a member that collects statements, and printing is a statement.
Members and statements are of reversed types, so they are collected along connections that leave the
collecting block.
-/

namespace BlockGraph.Standard

/-- An actor with its members. It need not have a name. -/
def actorCallback : Callback := fun _ =>
  .get "name" fun name =>
    .getTexts "members" fun members =>
      let name := (name.map fun v => " " ++ v.display).getD ""
      .text ("actor" ++ name ++ " \x7b " ++ " ".intercalate members ++ " \x7d;")

/-- A function with its statements. It must have a name. -/
def funcCallback : Callback := fun site =>
  .get "name" fun
    | none => .fail ("Function " ++ site.node ++ " has no name")
    | some name =>
      .getTexts "body" fun body =>
        .text ("public func " ++ name.display ++ "() : async () \x7b " ++ " ".intercalate body ++ " \x7d;")

/-- A statement that prints a message. -/
def printCallback : Callback := fun _ =>
  .getText "message" fun message => .text ("Debug.print(" ++ message ++ ");")

def actorBlock (identifier member actor : Ty) : BlockDecl :=
  { (((BlockDecl.split "Actor").input { key := "name", type := identifier, optional := true }).input
      { key := "members", type := member, multi := true }).output
      { key := "actor", type := actor, callbacks := .ofList [(motokoKey, actorCallback)] } with
    category := some "actors", isGlobal := true }

def funcBlock (identifier effect member : Ty) : BlockDecl :=
  { (((BlockDecl.split "Func").input { key := "name", type := identifier }).input
      { key := "body", type := effect, multi := true }).output
      { key := "member", type := member, callbacks := .ofList [(motokoKey, funcCallback)] } with
    category := some "members" }

def printBlock (text effect : Ty) : BlockDecl :=
  { ((BlockDecl.split "Print").input { key := "message", type := text }).output
      { key := "statement", type := effect, callbacks := .ofList [(motokoKey, printCallback)] } with
    category := some "statements" }

def actorBlocks (types : Registry) : Except Error (List BlockDecl) := do
  let identifier ← types.resolve "Identifier"
  let text ← types.resolve "Text"
  let unit ← types.unitType
  let effect ← (← types.resolve "Effect").of [unit]
  let member ← types.resolve "Member"
  let actor ← types.resolve "Actor"
  return [ actorBlock identifier member actor, funcBlock identifier effect member, printBlock text effect ]

end BlockGraph.Standard
