import BlockGraph.Command.Host

/-!
# Arguments of the command

An argument that starts with two dashes names an option in full, one that starts with a single dash
names options by letters, and two dashes alone make everything after them positional. The value of an
option is attached with an equals sign, attached to its letter, or the next argument; a next argument
that starts with a dash, a lone dash apart, is taken for an option. There is one positional argument,
the graph.

The last value is settled only when the next option or positional argument, or the end, is reached. This
decides which problem is met first: an unknown option is refused before an earlier value is settled.
-/

namespace BlockGraph.Command

/-- What can be given. -/
inductive Name where
  | graph
  | config
  | output
  | compileKey
  | logLevel
  | separator
  | failOnWarnings
  | report
  | json
  | help
  | version
deriving Repr, DecidableEq

namespace Name

def takesValue : Name → Bool
  | .failOnWarnings | .json | .help | .version => false
  | _ => true

/-- Whether its value is the path of a file. -/
def isPath : Name → Bool
  | .graph | .config | .output | .report => true
  | _ => false

def ofLong? : String → Option Name
  | "config" => some .config
  | "output" => some .output
  | "compile-key" => some .compileKey
  | "log-level" => some .logLevel
  | "separator" => some .separator
  | "fail-on-warnings" => some .failOnWarnings
  | "report" => some .report
  | "json" => some .json
  | "help" => some .help
  | "version" => some .version
  | _ => none

def ofLetter? : Char → Option Name
  | 'c' => some .config
  | 'o' => some .output
  | 'k' => some .compileKey
  | 'h' => some .help
  | 'V' => some .version
  | _ => none

end Name

/-- Why arguments do not lead to a compilation. -/
inductive Stop where
  /-- There is no such option, or a second positional argument. -/
  | unknownArgument
  /-- The graph is not given. -/
  | missingArgument
  /-- An option has no value, or the path of a file is empty. -/
  | invalidValue
  /-- An option is given twice. -/
  | repeatedArgument
  /-- An option without value has one attached. -/
  | unneededValue
  /-- The description of the command is asked for. -/
  | help
  /-- The version of the command is asked for. -/
  | version
deriving Repr, DecidableEq

/-- The arguments of the command. -/
structure Arguments where
  graph : String
  config : Option String
  output : Option String
  compileKey : Option String
  logLevel : Option String
  separator : Option String
  failOnWarnings : Bool
  report : Option String
  json : Bool
deriving Repr, DecidableEq

/-- Arguments that are being read. -/
structure Parsing where
  /-- What is settled. -/
  given : List (Name × String) := []
  /-- What was met last, with its value if it has one already. -/
  pending : Option (Name × Option String) := none
  /-- Whether everything is positional from here on. -/
  positionalOnly : Bool := false

namespace Parsing

def has (p : Parsing) (n : Name) : Bool := p.given.any (·.1 == n)

def value? (p : Parsing) (n : Name) : Option String := p.given.lookup n

/-- Settles a value. -/
def accept (p : Parsing) (n : Name) (v : String) : Except Stop Parsing :=
  if p.has n then .error .repeatedArgument
  else if n.isPath && v.isEmpty then .error .invalidValue
  else .ok { p with given := p.given ++ [(n, v)] }

/-- Settles what was met last. -/
def settle (p : Parsing) : Except Stop Parsing :=
  match p.pending with
  | none => .ok p
  | some (_, none) => .error .invalidValue
  | some (n, some v) => { p with pending := none }.accept n v

/-- Takes an option without value. -/
def switch (p : Parsing) (n : Name) : Except Stop Parsing := do
  let p ← p.settle
  match n with
  | .help => throw .help
  | .version => throw .version
  | n => p.accept n ""

/-- Takes an option with its attached value, or waits for its value. -/
def option (p : Parsing) (n : Name) (attached : Option String) : Except Stop Parsing := do
  let p ← p.settle
  match attached with
  | some v => p.accept n v
  | none => return { p with pending := some (n, none) }

/-- Takes an option by its full name. -/
def long (p : Parsing) (name : String) (attached : Option String) : Except Stop Parsing :=
  match Name.ofLong? name with
  | none => .error .unknownArgument
  | some n =>
    if n.takesValue then p.option n attached
    else if attached.isSome then .error .unneededValue
    else p.switch n

/-- Takes options by their letters. What follows the letter of an option with a value is its value. -/
def letters (p : Parsing) : List Char → Except Stop Parsing
  | [] => .ok p
  | c :: rest =>
    match Name.ofLetter? c with
    | none => .error .unknownArgument
    | some n =>
      if n.takesValue then
        match rest with
        | [] => p.option n none
        | '=' :: v => p.option n (some (String.ofList v))
        | v => p.option n (some (String.ofList v))
      else
        match p.switch n with
        | .error e => .error e
        | .ok p => p.letters rest

def positional (p : Parsing) (v : String) : Except Stop Parsing :=
  if p.has .graph || p.pending.any (·.1 == .graph) then .error .unknownArgument
  else do return { ← p.settle with pending := some (.graph, some v) }

/-- Takes a value for what waits for one, or else a positional argument. -/
def plain (p : Parsing) (v : String) : Except Stop Parsing :=
  match p.pending with
  | some (n, none) => .ok { p with pending := some (n, some v) }
  | _ => p.positional v

def argument (p : Parsing) (arg : String) : Except Stop Parsing :=
  if p.positionalOnly then p.positional arg
  else
    match arg.toList with
    | ['-', '-'] => .ok { p with positionalOnly := true }
    | '-' :: '-' :: rest =>
      let name := rest.takeWhile (· != '=')
      p.long (String.ofList name) ((rest.drop name.length).tail?.map String.ofList)
    | '-' :: c :: rest => p.letters (c :: rest)
    | _ => p.plain arg

/-- Settles the value of a variable of the environment for an option that is not given. -/
def fallback (p : Parsing) (n : Name) (v : Option String) : Except Stop Parsing :=
  match v with
  | some v => if p.has n then .ok p else p.accept n v
  | none => .ok p

end Parsing

/-- Reads the arguments of the command. Variables of the environment stand in for options that are not
given. -/
def Arguments.parse (env : Environment) (args : List String) : Except Stop Arguments := do
  let p ← (← args.foldlM Parsing.argument {}).settle
  let p ← p.fallback .config env.config
  let p ← p.fallback .compileKey env.compileKey
  let p ← p.fallback .logLevel env.logLevel
  match p.value? .graph with
  | none => throw .missingArgument
  | some graph =>
    return {
      graph := graph
      config := p.value? .config
      output := p.value? .output
      compileKey := p.value? .compileKey
      logLevel := p.value? .logLevel
      separator := p.value? .separator
      failOnWarnings := p.has .failOnWarnings
      report := p.value? .report
      json := p.has .json }

end BlockGraph.Command
