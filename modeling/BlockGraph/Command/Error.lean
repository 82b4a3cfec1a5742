import BlockGraph.Command.Host
import BlockGraph.Error

/-!
# Errors of the command

An error tells what the command was doing, and why it could not. `CommandError.chain` lists the messages
from the outermost inwards.
-/

namespace BlockGraph.Command

/-- Why the command fails. -/
inductive CommandError where
  | readConfig (path : String) (cause : FileError)
  /-- The settings file is no TOML document of settings. -/
  | parseConfig (path : String)
  | emptyCompileKey
  | createConfigDirectory (cause : FileError)
  | writeConfig (cause : FileError)
  /-- The settings cannot be loaded. -/
  | loadConfig (cause : CommandError)
  | readGraph (path : String) (cause : FileError)
  | parseGraph (path : String) (cause : Error)
  | buildTypes (cause : Error)
  | loadCatalog (cause : Error)
  | compileGraph (cause : Error)
  /-- The evaluation of the graph does not end. -/
  | endless
  | writeReport (path : String) (cause : FileError)
  | writeProgram (path : String) (cause : FileError)
  /-- Events were raised, and the settings do not allow it. -/
  | warnings (count : Nat)
deriving Repr, DecidableEq

/-- The messages of an error, the outermost first. -/
def CommandError.chain : CommandError → List String
  | .readConfig path cause => ["Failed to read config file " ++ path, cause.message]
  | .parseConfig path => ["Failed to parse config file " ++ path, "TOML error"]
  | .emptyCompileKey => ["compile_key must not be empty"]
  | .createConfigDirectory cause => ["Failed to create config directory", cause.message]
  | .writeConfig cause => ["Failed to write config file", cause.message]
  | .loadConfig cause => "Failed to load configuration" :: cause.chain
  | .readGraph path cause => ["Failed to read graph file " ++ path, cause.message]
  | .parseGraph path cause => ["Failed to parse graph file " ++ path, cause.message]
  | .buildTypes cause => ["Failed to build type lattice", cause.message]
  | .loadCatalog cause => ["Failed to load block catalog", cause.message]
  | .compileGraph cause => ["Failed to compile graph", cause.message]
  | .endless => ["Failed to compile graph", "Evaluation does not end"]
  | .writeReport path cause => ["Failed to write report " ++ path, cause.message]
  | .writeProgram path cause => ["Failed to write " ++ path, cause.message]
  | .warnings count => ["Compilation emitted " ++ toString count ++ " warning(s)"]

/-- The outermost message of an error. -/
def CommandError.message (e : CommandError) : String := e.chain.headD ""

/-- The causes of an error, numbered if there are several. -/
def numberCauses : List String → List String
  | [cause] => ["    " ++ cause]
  | causes => causes.zipIdx.map fun (cause, i) => "    " ++ toString i ++ ": " ++ cause

/-- An error with all its causes, as the user is told of it. -/
def CommandError.explain (e : CommandError) : String :=
  match e.chain with
  | [] => "Error: "
  | [message] => "Error: " ++ message
  | message :: causes => "Error: " ++ message ++ "\n\nCaused by:\n" ++ "\n".intercalate (numberCauses causes)

end BlockGraph.Command
