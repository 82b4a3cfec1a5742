/-!
# Paths as texts

A path is divided by slashes into parts. An empty part and a dot say nothing, except at the front, where
they tell an absolute path and the directory that relative paths start from.
-/

namespace BlockGraph.Command

def joinPath (directory name : String) : String :=
  if directory.endsWith "/" then directory ++ name else directory ++ "/" ++ name

/-- The parts of a path, the last first. -/
def pathParts (path : String) : List String := (path.splitOn "/").reverse

/-- The path of parts, the last of which is given first. -/
def pathOfParts (parts : List String) : String :=
  if parts = [""] then "/" else "/".intercalate parts.reverse

/-- Whether a part behind the first says nothing. -/
def isVoid (part : String) : Bool := part == "" || part == "."

/-- The parts without those at the end that say nothing. -/
def trimParts : List String → List String
  | part :: before :: rest => if isVoid part then trimParts (before :: rest) else part :: before :: rest
  | parts => parts

/-- The directory of a path. The root and the empty path have none. -/
def parent? (path : String) : Option String :=
  match trimParts (pathParts path) with
  | [] => none
  | [part] => if part = "" then none else some ""
  | _ :: rest => some (pathOfParts (trimParts rest))

/-- The parts of a path, of its directory and so on, the root and the empty path left out. -/
def ancestorParts : List String → List (List String)
  | [] => []
  | [part] => if part = "" then [] else [[part]]
  | part :: before :: rest =>
    let above := ancestorParts (before :: rest)
    if isVoid part then above else (part :: before :: rest) :: above

/-- A path, its directory and so on, the root and the empty path left out. -/
def ancestors (path : String) : List String := (ancestorParts (pathParts path)).map pathOfParts

end BlockGraph.Command
