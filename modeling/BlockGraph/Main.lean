import BlockGraph.Command.Run

/-!
# The command

Connects a run of the command to the files, the environment and the streams of the system.
-/

namespace BlockGraph.Command

/-- Why the system refuses a file operation. -/
def refusal : IO.Error → FileError
  | .noFileOrDirectory .. => .notFound
  | .alreadyExists .. => .alreadyExists
  | e => .other (toString e)

/-- Runs a file operation of the system. -/
def guarded {α : Type} (operation : IO α) : IO (Except FileError α) := do
  try
    return .ok (← operation)
  catch e =>
    return .error (refusal e)

def systemHost : Host IO where
  read path := guarded (IO.FS.readFile path)
  write path text := guarded (IO.FS.writeFile path text)
  createDirectories path := if path.isEmpty then return .ok () else guarded (IO.FS.createDirAll path)

def systemEnvironment : IO Environment := do
  return {
    config := ← IO.getEnv "BLOCKS_CONFIG"
    compileKey := ← IO.getEnv "BLOCKS_COMPILE_KEY"
    logLevel := ← IO.getEnv "BLOCKS_LOG_LEVEL"
    home := ← IO.getEnv "HOME"
    configHome := ← IO.getEnv "XDG_CONFIG_HOME" }

/-- Runs the command on the system, and tells the user of its events and its error. -/
def runOnSystem (args : List String) : IO UInt32 := do
  let finish ← run systemHost (← systemEnvironment) args
  for event in finish.events do
    IO.eprintln ("WARN " ++ event.display)
  IO.print finish.output
  if let some e := finish.error then
    IO.eprintln e.explain
  if finish.exitCode = 2 then
    IO.eprintln "error: invalid arguments\n\nUsage: blocksc [OPTIONS] <GRAPH>\n\nFor more information, try '--help'."
  return finish.exitCode.toUInt32

end BlockGraph.Command

/-- Compiles a graph file as the arguments say. -/
def main (args : List String) : IO UInt32 := BlockGraph.Command.runOnSystem args
