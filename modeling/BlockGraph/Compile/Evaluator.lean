import BlockGraph.Compile.Compiler
import BlockGraph.Compile.Session

/-!
# Evaluation on demand

An output is computed by a script; the script's requests for inputs lead to the outputs that are
connected to them. Inputs of forward types follow the connections that arrive at them, inputs of
reversed types the connections that leave from the socket of the same key, and an input without
connections has its stored control.

A failure of a script becomes a warning and leaves its output absent. An output that is asked for while
it is being computed is absent too, with a warning about the cycle. Types are inferred in a session of
their own, in which no output is being computed yet.

A `Level` says how outputs are computed and what is done with each value in the end; on it every request
has an evaluation (`Level.serve`), and so has every script (`Level.run`). `Scripts.levelAt` ties the
levels together, with a bound on the nesting of steps. A script may lead to itself without an output
between, so that no bound is enough for all scripts. The programs of a compiler are scripts that ask for
less (`Scripts.own`), and `Compiler.depth` is enough for every evaluation of theirs that ends.
-/

namespace BlockGraph

/-- How outputs are computed. -/
abbrev Outputs := Socket → Eval (Outcome (Option Value))

namespace Compiler

/-- The values of outputs that are present, in order. The first error ends the collection. -/
def gatherWith (outputs : Outputs) : List Socket → Eval (Outcome (List Value))
  | [] => return .ok []
  | socket :: rest => do
    match ← outputs socket with
    | .error e => return .error e
    | .ok v =>
      match ← gatherWith outputs rest with
      | .error e => return .error e
      | .ok vs => return .ok (v.toList ++ vs)

/-- The value that flows into an input. -/
def connectedWith (c : Compiler) (outputs : Outputs) (node : String) (p : Property) :
    Eval (Outcome (Option Value)) := do
  let peers := c.graph.peers node (inputSide p) p.key
  if p.multi then
    return (← gatherWith outputs peers).map fun vs => some (.list vs)
  else
    match peers with
    | peer :: _ => outputs peer
    | [] => if p.type.isReversed then return .ok none else return c.storedControl node p.key

end Compiler

/-! ### Evaluation on one level -/

/-- How a compiler computes outputs, and what it does with each value in the end. -/
structure Level where
  output : Outputs
  post : String → String → Option Value → Eval (Option Value)

namespace Level

/-- The level on which nothing ends. -/
def endless : Level := ⟨fun _ => Eval.endless, fun _ _ _ => Eval.endless⟩

variable (l types : Level) (c : Compiler)

/-- The value that flows into a property. Nothing flows into an output. -/
def input (node key : String) : Eval (Outcome (Option Value)) :=
  match c.property node key with
  | .error e => return .error e
  | .ok (_, p) =>
    match p.direction with
    | .input => c.connectedWith l.output node p
    | .control =>
      match c.storedControl node key with
      | .error e => return .error e
      | .ok v => .ok <$> l.post node key v
    | .output => return .ok none

/-- Reads an argument, which is computed when it is first read. -/
def argument (args : Compiler.Arguments) (key : String) : Eval (Outcome (Option Value) × Compiler.Arguments) := do
  match args.known.find? (·.1 == key) with
  | some (_, v) => return (.ok v, args)
  | none =>
    match args.schema.prop? key with
    | none => return (.error (.unknownInput args.schema.name key), args)
    | some p =>
      if p.isOutput then return (.error (.unknownInput args.schema.name key), args)
      match ← l.input c args.node key with
      | .error e => return (.error e, args)
      | .ok v =>
        -- what is known from now on is not reported again
        if v.isNone && !p.optional then Eval.emit (.missingInput args.node args.schema.name key)
        return (.ok v, { args with known := (key, v) :: args.known })

/-- Reads the arguments of keys in order, up to the first error. -/
def argumentsOf (args : Compiler.Arguments) : List String → Eval (Outcome Unit × Compiler.Arguments)
  | [] => return (.ok (), args)
  | key :: rest => do
    match ← l.argument c args key with
    | (.error e, args) => return (.error e, args)
    | (.ok _, args) => argumentsOf args rest

/-- The type that flows into a property, inferred on the level of the inference in a session of its own,
whose events are then reported. -/
def infer (node key : String) : Eval (Outcome (Option Ty)) := fun s =>
  match types.input c.inference node key {} with
  | none => none
  -- with an error the events of the inference are lost
  | some (.error e, _) => some (.error e, s)
  | some (.ok v, inner) => (Eval.emitAll inner.events s).map fun (_, s) => (.ok (v.bind Value.asType?), s)

/-- Compiles outputs in order, up to the first error. -/
def compileEach : List Socket → Eval (Outcome (List CompiledOutput))
  | [] => return .ok []
  | t :: rest => do
    match c.schema t.node with
    | .error e => return .error e
    | .ok schema =>
      match ← l.output t with
      | .error e => return .error e
      | .ok value =>
        match ← compileEach rest with
        | .error e => return .error e
        | .ok outputs => return .ok (⟨t.node, schema.name, t.key, value⟩ :: outputs)

/-- Compiles outputs and hands out the events with them. -/
def compileOutputs (targets : List Socket) : Eval (Outcome Report) := do
  match ← l.compileEach c targets with
  -- the events of the outputs before this one stay collected
  | .error e => return .error e
  | .ok outputs => return .ok ⟨outputs, ← Eval.takeEvents⟩

def compileProgram : Eval (Outcome Report) := do
  match c.programTargets with
  | .error e => return .error e
  | .ok targets => l.compileOutputs c targets

/-- The value of an argument in another form. -/
def reshape {α : Type} (f : Option Value → α) (r : Outcome (Option Value) × Compiler.Arguments) :
    Outcome α × Compiler.Arguments :=
  (r.1.map f, r.2)

def serve : (q : Request) → Eval q.Reply
  | .output node key => l.output ⟨node, key⟩
  | .input node key => l.input c node key
  | .infer node key => types.infer c node key
  | .arguments node => return c.arguments node
  | .argument args key => l.argument c args key
  | .text args key => reshape Value.textOf <$> l.argument c args key
  | .texts args key => reshape Value.texts <$> l.argument c args key
  | .prefetch args => l.argumentsOf c args args.schema.argumentKeys
  | .compileOutputs targets => l.compileOutputs c targets
  | .compileProgram => l.compileProgram c
  | .events => Session.events <$> get
  | .takeEvents => Eval.takeEvents

def run {α : Type} : Script α → Eval α
  | .done a => return a
  | .ask q next => do
    let r ← l.serve types c q
    run (next r)

end Level

/-! ### Evaluation with a bound -/

/-- What compilers run: for an output, with the arguments of its node, and for each value in the end. A
script is given the compiler that runs it, and so knows the graph, the catalog, the types and the compile
key. -/
structure Scripts where
  output : Compiler → Property → Compiler.Arguments → Script (Except Failure (Option Value))
  post : Compiler → String → String → Option Value → Script (Option Value)

namespace Scripts

variable (k : Scripts)

/-- Runs the script of an output and what comes in the end. A failure becomes a warning. -/
def attemptWith (l types : Level) (c : Compiler) (socket : Socket) (schema : Schema) (p : Property) :
    Eval (Option Value) := do
  match ← l.run types c (k.output c p { node := socket.node, schema }) with
  | .ok v => l.run types c (k.post c socket.node socket.key v)
  | .error f =>
    Eval.emit (.warning socket.node schema.name socket.key f.message)
    return none

/-- Computes an output. It is marked for as long as its scripts run. -/
def outputWith (l types : Level) (c : Compiler) (socket : Socket) : Eval (Outcome (Option Value)) := do
  match c.property socket.node socket.key with
  | .error e => return .error e
  | .ok (schema, p) =>
    if ← Eval.enter socket then
      let value ← k.attemptWith l types c socket schema p
      Eval.leave socket
      return .ok value
    else
      Eval.emit (.warning socket.node schema.name socket.key
        (Error.cycleDetected socket.node socket.key).message)
      return .ok none

/-- How a compiler computes with at most so many steps nested in one another. Without a step no output is
computed, and a last step ends if it asks for nothing. -/
def levelAt : Nat → Compiler → Level
  | 0, c => ⟨fun _ => Eval.endless, fun node key v => Level.endless.run .endless c (k.post c node key v)⟩
  | n + 1, c =>
    -- under a binder, so that the levels below are made only when they are asked for
    ⟨fun socket => k.outputWith (levelAt n c) (levelAt n c.inference) c socket,
      fun node key v => (levelAt n c).run (levelAt n c.inference) c (k.post c node key v)⟩

/-- Answers a request with at most so many steps nested in one another. -/
def serveAt (n : Nat) (c : Compiler) (q : Request) : Eval q.Reply :=
  (k.levelAt n c).serve (k.levelAt n c.inference) c q

/-- Runs a script with at most so many steps nested in one another. -/
def runAt {α : Type} (n : Nat) (c : Compiler) (t : Script α) : Eval α :=
  (k.levelAt n c).run (k.levelAt n c.inference) c t

end Scripts

/-! ### The programs of a compiler -/

namespace Compiler

/-- Answers a question of a program that runs with some arguments. -/
def answerScript (c : Compiler) (args : Arguments) : Query → Script (Outcome (Option Value) × Arguments)
  | .argument key => .ask (.argument args key) .done
  | .argumentOf node key => .ask (.arguments node) fun
    | .error e => .done (.error e, args)
    | .ok fresh => .ask (.argument fresh key) fun r => .done (r.1, args)
  | .output node key => .ask (.output node key) fun r => .done (r, args)
  | .input node key => .ask (.input node key) fun r => .done (r, args)
  | .infer node key => .ask (.infer node key) fun r => .done (r.map (·.map .type), args)
  | .control node key => .done (c.storedControl node key, args)
  | .block node => .done ((c.schema node).map fun s => some (.text s.name), args)

def programScript (c : Compiler) : Program → Arguments → Script (Except Failure (Option Value))
  | .done r, _ => .done r
  | .ask q next, args => (c.answerScript args q).bind fun r => c.programScript (next r.1) r.2

end Compiler

/-- The scripts of compilers that run their programs. -/
def Scripts.own : Scripts where
  output c p args := c.programScript (c.program args.node args.schema p) args
  post c node key v := .done (c.postProcess node key v)

namespace Compiler

/-- Computes an output with at most so many steps nested in one another. -/
def outputAt (n : Nat) (c : Compiler) : Outputs := (Scripts.own.levelAt n c).output

/-- The level of a compiler whose outputs are computed in some way. -/
def levelWith (c : Compiler) (outputs : Outputs) : Level :=
  ⟨outputs, fun node key v => pure (c.postProcess node key v)⟩

def inputWith (c : Compiler) (outputs : Outputs) (node key : String) : Eval (Outcome (Option Value)) :=
  (c.levelWith outputs).input c node key

/-- The type that flows into a property, given how outputs are computed in the inference. -/
def inferWith (c : Compiler) (types : Outputs) (node key : String) : Eval (Outcome (Option Ty)) :=
  (c.inference.levelWith types).infer c node key

/-- Computes an output, given how the outputs that it needs are computed and how they are in the
inference of types. -/
def outputWith (c : Compiler) (outputs types : Outputs) : Outputs :=
  Scripts.own.outputWith (c.levelWith outputs) (c.inference.levelWith types) c

/-- A nesting of steps that no evaluation exceeds that ends: one step for each property and one more,
for the compilation and for the inference of the type of each property. -/
def depth (c : Compiler) : Nat := (c.declared.length + 1) * (c.declared.length + 2)

def level (c : Compiler) : Level := c.levelWith (outputAt c.depth c)

def output (c : Compiler) (node key : String) : Eval (Outcome (Option Value)) := outputAt c.depth c ⟨node, key⟩

def input (c : Compiler) (node key : String) : Eval (Outcome (Option Value)) :=
  c.inputWith (outputAt c.depth c) node key

def infer (c : Compiler) (node key : String) : Eval (Outcome (Option Ty)) :=
  c.inferWith (outputAt c.depth c.inference) node key

def argument (c : Compiler) (args : Arguments) (key : String) : Eval (Outcome (Option Value) × Arguments) :=
  c.level.argument c args key

def argumentsOf (c : Compiler) (args : Arguments) (keys : List String) : Eval (Outcome Unit × Arguments) :=
  c.level.argumentsOf c args keys

def prefetch (c : Compiler) (args : Arguments) : Eval (Outcome Unit × Arguments) :=
  c.argumentsOf args args.schema.argumentKeys

def compileEach (c : Compiler) (targets : List Socket) : Eval (Outcome (List CompiledOutput)) :=
  c.level.compileEach c targets

def compileOutputs (c : Compiler) (targets : List Socket) : Eval (Outcome Report) :=
  c.level.compileOutputs c targets

def compileProgram (c : Compiler) : Eval (Outcome Report) := c.level.compileProgram c

def serve (c : Compiler) (q : Request) : Eval q.Reply :=
  c.level.serve (c.inference.levelWith (outputAt c.depth c.inference)) c q

def run {α : Type} (c : Compiler) (t : Script α) : Eval α :=
  c.level.run (c.inference.levelWith (outputAt c.depth c.inference)) c t

end Compiler

end BlockGraph
