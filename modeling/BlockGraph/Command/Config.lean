import BlockGraph.Text.Blank
import BlockGraph.Toml.Document
import BlockGraph.Type.Builtin

/-!
# Settings

Settings are kept in a TOML document. A setting that the document leaves out has its default, and what
is no setting is ignored.
-/

namespace BlockGraph.Command

/-- The settings of a compilation. -/
structure Config where
  compileKey : String := motokoKey
  logLevel : String := "info"
  /-- Stands between the compiled outputs. -/
  separator : String := "\n"
  /-- Whether events make the command fail. -/
  failOnWarnings : Bool := false
deriving Repr, DecidableEq

namespace Config

/-- Reads a text that a document may leave out. -/
def textSetting (es : Toml.Entries) (key default : String) : Option String :=
  match es.get? key with
  | none => some default
  | some (.text s) => some s
  | some _ => none

/-- Reads a truth value that a document may leave out. -/
def boolSetting (es : Toml.Entries) (key : String) (default : Bool) : Option Bool :=
  match es.get? key with
  | none => some default
  | some (.bool b) => some b
  | some _ => none

def ofToml? (text : String) : Option Config := do
  let es ← Toml.parse text
  let default : Config := {}
  return {
    compileKey := ← textSetting es "compile_key" default.compileKey
    logLevel := ← textSetting es "log_level" default.logLevel
    separator := ← textSetting es "separator" default.separator
    failOnWarnings := ← boolSetting es "fail_on_warnings" default.failOnWarnings }

def toToml (c : Config) : String :=
  "compile_key = " ++ Toml.writeString c.compileKey ++ "\n" ++
  "log_level = " ++ Toml.writeString c.logLevel ++ "\n" ++
  "separator = " ++ Toml.writeString c.separator ++ "\n" ++
  "fail_on_warnings = " ++ (if c.failOnWarnings then "true" else "false") ++ "\n"

/-- Whether a compilation can work with the settings: the compile key is not blank. -/
def isValid (c : Config) : Bool := !Text.allBlank c.compileKey

end Config

end BlockGraph.Command
