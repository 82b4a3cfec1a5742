import BlockGraph.Command.Arguments
import BlockGraph.Command.Config
import BlockGraph.Command.Error
import BlockGraph.Compile.Evaluator
import BlockGraph.Graph.Document
import BlockGraph.Standard.Catalog

/-!
# Running the command

The command loads its settings, compiles the whole program of a graph file with the standard catalog,
and writes the report, then the program. Events make it fail only after everything is written, and only
if the settings say so.
-/

namespace BlockGraph.Command

variable {m : Type → Type} [Monad m]

/-- An operation of the command. -/
abbrev Task (m : Type → Type) (α : Type) := ExceptT CommandError m α

/-- Runs a file operation. A refusal becomes an error of the command. -/
def attempt {α : Type} (wrap : FileError → CommandError) (operation : m (Except FileError α)) : Task m α := do
  match ← (operation : m _) with
  | .ok a => return a
  | .error e => throw (wrap e)

namespace Config

/-- Fails unless a compilation can work with the settings. -/
def validate (c : Config) : Except CommandError Unit :=
  if c.isValid then .ok () else .error .emptyCompileKey

def ofText (path text : String) : Except CommandError Config :=
  match Config.ofToml? text with
  | some config => .ok config
  | none => .error (.parseConfig path)

def fromFile (host : Host m) (path : String) : Task m Config := do
  let text ← attempt (.readConfig path) (host.read path)
  ofText path text

/-- Loads the settings file that is named, or else the one of the user if there is one. -/
def fromFiles (host : Host m) (env : Environment) (path : Option String) : Task m Config := do
  match path with
  | some path => fromFile host path
  | none =>
    match env.settingsPath? with
    | none => return {}
    | some path =>
      if isThere (← (host.read path : m _)) then fromFile host path else return {}

/-- The settings with those replaced that the arguments give. -/
def override (c : Config) (args : Arguments) : Config where
  compileKey := args.compileKey.getD c.compileKey
  logLevel := args.logLevel.getD c.logLevel
  separator := args.separator.getD c.separator
  failOnWarnings := args.failOnWarnings || c.failOnWarnings

def load (host : Host m) (env : Environment) (args : Arguments) : Task m Config := do
  let config := (← fromFiles host env args.config).override args
  config.validate
  return config

/-- Writes a settings file, with the directories that lead to it. -/
def save (host : Host m) (c : Config) (path : String) : Task m Unit := do
  if let some directory := parent? path then
    attempt .createConfigDirectory (host.createDirectories directory)
  attempt .writeConfig (host.write path c.toToml)

end Config

/-- Compiles the whole program of a graph with the standard catalog. -/
def compileGraph (graph : Graph) (config : Config) : Except CommandError Report := do
  let registry ← Registry.builtin.mapError .buildTypes
  let catalog ← (Standard.catalog registry).mapError .loadCatalog
  let compiler : Compiler :=
    { graph := graph, catalog := catalog, registry := registry, compileKey := config.compileKey }
  match compiler.compileProgram {} with
  | none => throw .endless
  | some (outcome, _) => outcome.mapError .compileGraph

def graphOfText (path text : String) : Except CommandError Graph :=
  (Graph.fromJson text).mapError (.parseGraph path)

def compileFile (host : Host m) (path : String) (config : Config) : Task m Report := do
  let text ← attempt (.readGraph path) (host.read path)
  let graph ← graphOfText path text
  compileGraph graph config

def writeReport (host : Host m) (report : Report) (path : String) : Task m Unit :=
  attempt (.writeReport path) (host.write path report.toJson.pretty)

/-- How a run ends. -/
structure Finish where
  exitCode : Nat := 0
  /-- What is printed. -/
  output : String := ""
  /-- The events of the compilation. -/
  events : List Event := []
  error : Option CommandError := none

def helpText : String :=
  "Compile a block graph into source code\n\n" ++
  "Usage: blocksc [OPTIONS] <GRAPH>\n\n" ++
  "Arguments:\n" ++
  "  <GRAPH>  Graph file (JSON)\n\n" ++
  "Options:\n" ++
  "  -c, --config <CONFIG>            Configuration file path [env: BLOCKS_CONFIG=]\n" ++
  "  -o, --output <OUTPUT>            Write the program here instead of stdout\n" ++
  "  -k, --compile-key <COMPILE_KEY>  Backend compile key [env: BLOCKS_COMPILE_KEY=]\n" ++
  "      --log-level <LOG_LEVEL>      Log level [env: BLOCKS_LOG_LEVEL=]\n" ++
  "      --separator <SEPARATOR>      Separator between compiled program roots\n" ++
  "      --fail-on-warnings           Exit with an error when any warning was emitted\n" ++
  "      --report <REPORT>            Also write the compile report (outputs and events) here as JSON\n" ++
  "      --json                       Emit logs as JSON\n" ++
  "  -h, --help                       Print help\n" ++
  "  -V, --version                    Print version\n"

/-- How a run ends that does not come to a compilation. -/
def Stop.finish : Stop → Finish
  | .help => { output := helpText }
  | .version => { output := "blocksc 0.1.0\n" }
  | _ => { exitCode := 2 }

/-- Writes the program to its file, or else prints it. -/
def writeProgram (host : Host m) (program : String) (path : Option String) : Task m String :=
  match path with
  | some path => do
    attempt (.writeProgram path) (host.write path (program ++ "\n"))
    return ""
  | none => return program ++ "\n"

/-- Writes what a compilation leads to. -/
def deliver (host : Host m) (args : Arguments) (config : Config) (report : Report) : Task m Finish := do
  if let some path := args.report then
    writeReport host report path
  let output ← writeProgram host (report.render config.separator) args.output
  if config.failOnWarnings && report.hasWarnings then
    return { exitCode := 1, output := output, events := report.events,
             error := some (.warnings report.events.length) }
  else
    return { output := output, events := report.events }

/-- Compiles and writes everything that the arguments ask for. -/
def execute (host : Host m) (env : Environment) (args : Arguments) : Task m Finish := do
  let config ← (Config.load host env args).adapt .loadConfig
  let report ← compileFile host args.graph config
  deliver host args config report

def run (host : Host m) (env : Environment) (args : List String) : m Finish := do
  match Arguments.parse env args with
  | .error stop => return stop.finish
  | .ok args =>
    match ← (execute host env args).run with
    | .ok finish => return finish
    | .error e => return { exitCode := 1, error := some e }

end BlockGraph.Command
