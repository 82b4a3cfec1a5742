import BlockGraph.Command.Path

/-!
# What the command asks of its surroundings

The command reads and writes files through a `Host`, in whatever monad the host lives. A host refuses
with a `FileError`.
-/

namespace BlockGraph.Command

/-- Why a file operation is refused. -/
inductive FileError where
  | notFound
  | alreadyExists
  | notDirectory
  | isDirectory
  | nameTooLong
  /-- A path with a NUL character names no file. -/
  | nulInPath
  | other (message : String)
deriving Repr, DecidableEq

def FileError.message : FileError → String
  | .notFound => "No such file or directory (os error 2)"
  | .alreadyExists => "File exists (os error 17)"
  | .notDirectory => "Not a directory (os error 20)"
  | .isDirectory => "Is a directory (os error 21)"
  | .nameTooLong => "File name too long (os error 36)"
  | .nulInPath => "file name contained an unexpected NUL byte"
  | .other message => message

/-- File operations by path. -/
structure Host (m : Type → Type) where
  read : String → m (Except FileError String)
  write : String → String → m (Except FileError Unit)
  /-- Creates a directory with all its parents, as far as they are missing. -/
  createDirectories : String → m (Except FileError Unit)

/-- Whether the outcome of reading a path shows that something is there. -/
def isThere : Except FileError String → Bool
  | .error .notFound => false
  | .error .notDirectory => false
  | .error .nameTooLong => false
  | .error .nulInPath => false
  | _ => true

/-- The variables of the environment that the command looks at. -/
structure Environment where
  /-- The settings file. -/
  config : Option String := none
  compileKey : Option String := none
  logLevel : Option String := none
  /-- The directory of the user. -/
  home : Option String := none
  /-- The directory of the user's settings, if it is an absolute path. -/
  configHome : Option String := none

/-- Where the settings file of the user is looked for. -/
def Environment.settingsPath? (env : Environment) : Option String :=
  let directory :=
    match env.configHome.filter (·.startsWith "/") with
    | some directory => some directory
    | none => env.home.map (joinPath · ".config")
  directory.map fun d => joinPath (joinPath d "blocksc") "blocksc.toml"

end BlockGraph.Command
