import BlockGraph.Compile.Evaluator

/-!
# Evaluation as a tree of steps

What the evaluation of a program does, apart from the outputs and types that it asks for, depends on the
graph alone. `Steps` is that part as data: a finite tree that reports events, computes outputs and infers
types, and goes on with what these give. `Steps.run` carries a tree out.

Where programs are run, each part of the evaluator is the run of its tree:

* `inputWith_eq_run` and `argument_levelWith` for the value of a property and of an argument;
* `run_programScript` for a whole program;
* `outputWith_eq` for an output: with a mark on it, its tree is run, and the mark is taken back.

The theory of programs is about trees. Nothing else opens the evaluator there.
-/

namespace BlockGraph

/-! ### Sessions and evaluations, one step at a time -/

namespace Session

/-- The session after events were reported. -/
def raise (s : Session) (es : List Event) : Session :=
  { s with events := s.events ++ es, heard := s.heard ++ es }

def mark (s : Session) (socket : Socket) : Session := { s with inProgress := socket :: s.inProgress }

def unmark (s : Session) (socket : Socket) : Session := { s with inProgress := s.inProgress.erase socket }

/-- The session after the collected events were handed out. -/
def handOut (s : Session) : Session := { s with events := [], handed := s.handed ++ [s.events] }

@[simp] theorem inProgress_raise (s : Session) (es : List Event) : (s.raise es).inProgress = s.inProgress := rfl

@[simp] theorem events_raise (s : Session) (es : List Event) : (s.raise es).events = s.events ++ es := rfl

@[simp] theorem inProgress_mark (s : Session) (socket : Socket) :
    (s.mark socket).inProgress = socket :: s.inProgress := rfl

@[simp] theorem raise_nil (s : Session) : s.raise [] = s := by
  simp [raise]

@[simp] theorem raise_raise (s : Session) (es fs : List Event) :
    (s.raise es).raise fs = s.raise (es ++ fs) := by
  simp [raise]

@[simp] theorem unmark_raise_mark (s : Session) (socket : Socket) (es : List Event) :
    ((s.mark socket).raise es).unmark socket = s.raise es := by
  simp [raise, mark, unmark]

end Session

namespace Eval

variable {α β : Type}

theorem bind_apply (x : Eval α) (f : α → Eval β) (s : Session) :
    (x >>= f) s = (x s).bind fun r => f r.1 r.2 := rfl

theorem map_apply (f : α → β) (x : Eval α) (s : Session) : (f <$> x) s = (x s).map fun r => (f r.1, r.2) := by
  rw [map_eq_pure_bind, bind_apply]
  cases x s <;> rfl

@[simp] theorem pure_apply (a : α) (s : Session) : (pure a : Eval α) s = some (a, s) := rfl

@[simp] theorem emit_apply (e : Event) (s : Session) : emit e s = some ((), s.raise [e]) := rfl

theorem enter_apply (socket : Socket) (s : Session) :
    enter socket s = if socket ∈ s.inProgress then some (false, s) else some (true, s.mark socket) := by
  show (if socket ∈ s.inProgress then (pure false : Eval Bool)
    else do set (s.mark socket); return true) s = _
  split <;> rfl

theorem emitAll_apply (es : List Event) (s : Session) : emitAll es s = some ((), s.raise es) := by
  induction es generalizing s with
  | nil => simp [emitAll]
  | cons e rest ih => simp [emitAll, bind_apply, ih]

end Eval

/-! ### Nodes and their properties -/

namespace Compiler

variable {c : Compiler} {node key : String} {schema : Schema} {p : Property}

theorem schema_eq_ok_iff :
    c.schema node = .ok schema ↔ ∃ n, c.graph.node? node = some n ∧ c.catalog.get? n.block = some schema := by
  rw [Compiler.schema, Graph.blockName?]
  cases c.graph.node? node with
  | none => simp
  | some n =>
    dsimp only [Option.map_some, Catalog.get]
    cases hget : c.catalog.get? n.block <;> simp [hget]

theorem property_eq_ok_iff :
    c.property node key = .ok (schema, p) ↔ c.schema node = .ok schema ∧ schema.prop? key = some p := by
  rw [property, bind_eq_ok_iff]
  constructor
  · rintro ⟨found, hschema, h⟩
    obtain ⟨q, hprop, h⟩ := bind_eq_ok_iff.mp h
    cases h
    refine ⟨hschema, ?_⟩
    rw [Schema.prop] at hprop
    split at hprop
    · next hfind => rw [hfind, Except.ok.inj hprop]
    · cases hprop
  · rintro ⟨hschema, hprop⟩
    exact ⟨schema, hschema, bind_eq_ok_iff.mpr ⟨p, by rw [Schema.prop, hprop], rfl⟩⟩

theorem mem_blocks_of_schema (h : c.schema node = .ok schema) : schema ∈ c.catalog.blocks := by
  obtain ⟨n, -, hget⟩ := schema_eq_ok_iff.mp h
  exact List.mem_of_find?_eq_some hget

theorem mem_props_of_property (h : c.property node key = .ok (schema, p)) : p ∈ schema.props :=
  List.mem_of_find?_eq_some (property_eq_ok_iff.mp h).2

end Compiler

/-! ### Trees of steps -/

/-- What an evaluation does, as a tree over the answers that it gets. -/
inductive Steps (α : Type) where
  | done (a : α)
  /-- Reports an event. -/
  | report (e : Event) (next : Steps α)
  /-- Computes an output. -/
  | compute (socket : Socket) (next : Outcome (Option Value) → Steps α)
  /-- Infers the type that flows into a property. -/
  | infer (node key : String) (next : Outcome (Option Ty) → Steps α)

/-- How types are inferred. -/
abbrev Inference := String → String → Eval (Outcome (Option Ty))

namespace Steps

variable {α β : Type}

def bind : Steps α → (α → Steps β) → Steps β
  | .done a, f => f a
  | .report e next, f => .report e (next.bind f)
  | .compute socket next, f => .compute socket fun r => (next r).bind f
  | .infer node key next, f => .infer node key fun r => (next r).bind f

def run (outputs : Outputs) (inference : Inference) : Steps α → Eval α
  | .done a => pure a
  | .report e next => do
    Eval.emit e
    next.run outputs inference
  | .compute socket next => do
    let r ← outputs socket
    (next r).run outputs inference
  | .infer node key next => do
    let r ← inference node key
    (next r).run outputs inference

theorem run_bind (outputs : Outputs) (inference : Inference) (t : Steps α) (f : α → Steps β) :
    (t.bind f).run outputs inference =
      t.run outputs inference >>= fun a => (f a).run outputs inference := by
  induction t with
  | done a => simp [bind, run]
  | report e next ih => simp [bind, run, ih]
  | compute socket next ih => simp [bind, run, ih]
  | infer node key next ih => simp [bind, run, ih]

theorem bind_assoc {γ : Type} (t : Steps α) (f : α → Steps β) (g : β → Steps γ) :
    (t.bind f).bind g = t.bind fun a => (f a).bind g := by
  induction t with
  | done a => rfl
  | report e next ih => simp only [bind, ih]
  | compute socket next ih => simp only [bind, ih]
  | infer node key next ih => simp only [bind, ih]

end Steps

theorem Level.run_bind {α β : Type} (l types : Level) (c : Compiler) (t : Script α) (f : α → Script β) :
    l.run types c (t.bind f) = l.run types c t >>= fun a => l.run types c (f a) := by
  induction t with
  | done a => simp [Script.bind, run]
  | ask q next ih => simp [Script.bind, run, ih]

namespace Compiler

/-- Collects the values of outputs that are present, up to the first error. -/
def gatherSteps : List Socket → Steps (Outcome (List Value))
  | [] => .done (.ok [])
  | socket :: rest => .compute socket fun
    | .error e => .done (.error e)
    | .ok v => (gatherSteps rest).bind fun
      | .error e => .done (.error e)
      | .ok vs => .done (.ok (v.toList ++ vs))

/-- Computes the value that flows into an input. -/
def connectedSteps (c : Compiler) (node : String) (p : Property) : Steps (Outcome (Option Value)) :=
  let peers := c.graph.peers node (inputSide p) p.key
  if p.multi then (gatherSteps peers).bind fun vs => .done (vs.map fun vs => some (.list vs))
  else
    match peers with
    | peer :: _ => .compute peer .done
    | [] => .done (if p.type.isReversed then .ok none else c.storedControl node p.key)

def inputSteps (c : Compiler) (node key : String) : Steps (Outcome (Option Value)) :=
  match c.property node key with
  | .error e => .done (.error e)
  | .ok (_, p) =>
    match p.direction with
    | .input => c.connectedSteps node p
    | .control => .done ((c.storedControl node key).map (c.postProcess node key))
    | .output => .done (.ok none)

def argumentSteps (c : Compiler) (args : Arguments) (key : String) :
    Steps (Outcome (Option Value) × Arguments) :=
  match args.known.find? (·.1 == key) with
  | some (_, v) => .done (.ok v, args)
  | none =>
    match args.schema.prop? key with
    | none => .done (.error (.unknownInput args.schema.name key), args)
    | some p =>
      if p.isOutput then .done (.error (.unknownInput args.schema.name key), args)
      else (c.inputSteps args.node key).bind fun
        | .error e => .done (.error e, args)
        | .ok v =>
          let read : Steps _ := .done (.ok v, { args with known := (key, v) :: args.known })
          if v.isNone && !p.optional then .report (.missingInput args.node args.schema.name key) read
          else read

def answerSteps (c : Compiler) (args : Arguments) : Query → Steps (Outcome (Option Value) × Arguments)
  | .argument key => c.argumentSteps args key
  | .argumentOf node key =>
    match c.arguments node with
    | .error e => .done (.error e, args)
    | .ok fresh => (c.argumentSteps fresh key).bind fun r => .done (r.1, args)
  | .output node key => .compute ⟨node, key⟩ fun r => .done (r, args)
  | .input node key => (c.inputSteps node key).bind fun r => .done (r, args)
  | .infer node key => .infer node key fun r => .done (r.map (·.map .type), args)
  | .control node key => .done (c.storedControl node key, args)
  | .block node => .done ((c.schema node).map fun s => some (.text s.name), args)

def programSteps (c : Compiler) : Program → Arguments → Steps (Except Failure (Option Value))
  | .done r, _ => .done r
  | .ask q next, args => (c.answerSteps args q).bind fun r => c.programSteps (next r.1) r.2

/-- Computes an output that is marked: its program is run, and a failure becomes a warning. -/
def outputSteps (c : Compiler) (socket : Socket) (schema : Schema) (p : Property) : Steps (Option Value) :=
  (c.programSteps (c.program socket.node schema p) { node := socket.node, schema }).bind fun
    | .ok v => .done (c.postProcess socket.node socket.key v)
    | .error f => .report (.warning socket.node schema.name socket.key f.message) (.done none)

/-! ### The evaluator runs these trees -/

variable (c : Compiler) (outputs types : Outputs) (inference : Inference)

theorem gatherWith_eq_run (peers : List Socket) :
    gatherWith outputs peers = (gatherSteps peers).run outputs inference := by
  induction peers with
  | nil => rfl
  | cons socket rest ih =>
    rw [gatherWith, gatherSteps, Steps.run]
    refine bind_congr fun r => ?_
    cases r with
    | error e => rfl
    | ok v =>
      rw [Steps.run_bind, ← ih]
      refine bind_congr fun vs => ?_
      cases vs <;> rfl

theorem connectedWith_eq_run (node : String) (p : Property) :
    c.connectedWith outputs node p = (c.connectedSteps node p).run outputs inference := by
  rw [connectedWith, connectedSteps]
  split
  · rw [gatherWith_eq_run outputs inference, Steps.run_bind]
    rfl
  · cases c.graph.peers node (inputSide p) p.key with
    | nil => simp only [Steps.run]; split <;> rfl
    | cons peer rest => simp [Steps.run]

theorem inputWith_eq_run (node key : String) :
    c.inputWith outputs node key = (c.inputSteps node key).run outputs inference := by
  rw [inputWith, Level.input, inputSteps]
  cases c.property node key with
  | error e => rfl
  | ok r =>
    obtain ⟨schema, p⟩ := r
    cases hdir : p.direction with
    | input => simp only [hdir]; exact c.connectedWith_eq_run outputs inference node p
    | output => simp only [hdir]; rfl
    | control =>
      simp only [hdir]
      cases c.storedControl node key <;> rfl

/-- What an inference comes to: its session is its own, and the events of that are reported unless there is an error. -/
theorem inferWith_apply (node key : String) (s : Session) :
    c.inferWith types node key s =
      match c.inference.inputWith types node key {} with
      | none => none
      | some (.error e, _) => some (.error e, s)
      | some (.ok v, inner) => some (.ok (v.bind Value.asType?), s.raise inner.events) := by
  rw [inferWith, Level.infer, ← inputWith]
  cases c.inference.inputWith types node key {} with
  | none => rfl
  | some r =>
    obtain ⟨result, inner⟩ := r
    cases result with
    | error e => rfl
    | ok v => simp [Eval.emitAll_apply]

theorem argument_levelWith (args : Arguments) (key : String) :
    (c.levelWith outputs).argument c args key = (c.argumentSteps args key).run outputs inference := by
  rw [Level.argument, argumentSteps]
  cases args.known.find? (·.1 == key) with
  | some known => rfl
  | none =>
    cases args.schema.prop? key with
    | none => rfl
    | some p =>
      dsimp only
      split
      · rfl
      · rw [Steps.run_bind, ← c.inputWith_eq_run outputs inference]
        refine bind_congr fun r => ?_
        cases r with
        | error e => rfl
        | ok v => dsimp only; split <;> rfl

theorem Scripts.levelAt_own (n : Nat) (c : Compiler) : Scripts.own.levelAt n c = c.levelWith (outputAt n c) := by
  cases n <;> rfl

theorem run_answerScript (args : Arguments) (q : Query) :
    (c.levelWith outputs).run (c.inference.levelWith types) c (c.answerScript args q) =
      (c.answerSteps args q).run outputs (c.inferWith types) := by
  cases q with
  | argument key =>
    rw [answerSteps, ← c.argument_levelWith outputs]
    simp [answerScript, Level.run, Level.serve]
  | argumentOf node key =>
    rw [answerScript, answerSteps, Level.run, Level.serve, pure_bind]
    cases c.arguments node with
    | error e => rfl
    | ok fresh => rw [Steps.run_bind, ← c.argument_levelWith outputs]; rfl
  | input node key => rw [answerSteps, Steps.run_bind, ← c.inputWith_eq_run outputs]; rfl
  | output node key => rfl
  | infer node key => rfl
  | control node key => rfl
  | block node => rfl

theorem run_programScript (p : Program) (args : Arguments) :
    (c.levelWith outputs).run (c.inference.levelWith types) c (c.programScript p args) =
      (c.programSteps p args).run outputs (c.inferWith types) := by
  induction p generalizing args with
  | done r => rfl
  | ask q next ih =>
    rw [programScript, programSteps, Level.run_bind, Steps.run_bind, c.run_answerScript]
    exact bind_congr fun r => ih r.1 r.2

theorem outputWith_eq (socket : Socket) (s : Session) :
    c.outputWith outputs types socket s =
      match c.property socket.node socket.key with
      | .error e => some (.error e, s)
      | .ok (schema, p) =>
        if socket ∈ s.inProgress then
          some (.ok none, s.raise [.warning socket.node schema.name socket.key
            (Error.cycleDetected socket.node socket.key).message])
        else
          ((c.outputSteps socket schema p).run outputs (c.inferWith types) (s.mark socket)).map
            fun r => (.ok r.1, r.2.unmark socket) := by
  rw [outputWith, Scripts.outputWith]
  cases c.property socket.node socket.key with
  | error e => rfl
  | ok r =>
    obtain ⟨schema, p⟩ := r
    dsimp only
    rw [Eval.bind_apply, Eval.enter_apply]
    by_cases hmark : socket ∈ s.inProgress
    · rw [if_pos hmark, if_pos hmark]
      rfl
    · have hrun : (c.levelWith outputs).run (c.inference.levelWith types) c
          (Scripts.own.output c p { node := socket.node, schema }) =
            (c.programSteps (c.program socket.node schema p) { node := socket.node, schema }).run outputs
              (c.inferWith types) := c.run_programScript _ _ _ _
      rw [if_neg hmark, if_neg hmark, outputSteps, Steps.run_bind, ← hrun]
      simp only [Option.bind_some, if_true, Scripts.attemptWith, Eval.bind_apply, Option.map_bind, Option.bind_assoc]
      congr 1
      funext r
      obtain ⟨result, s'⟩ := r
      cases result <;> rfl

theorem argumentsOf_cons (args : Arguments) (key : String) (rest : List String) :
    c.argumentsOf args (key :: rest) = (do
      match ← c.argument args key with
      | (.error e, args) => return (.error e, args)
      | (.ok _, args) => c.argumentsOf args rest) := rfl

theorem compileEach_cons (t : Socket) (rest : List Socket) :
    c.compileEach (t :: rest) = (do
      match c.schema t.node with
      | .error e => return .error e
      | .ok schema =>
        match ← c.output t.node t.key with
        | .error e => return .error e
        | .ok value =>
          match ← c.compileEach rest with
          | .error e => return .error e
          | .ok outputs => return .ok (⟨t.node, schema.name, t.key, value⟩ :: outputs)) := rfl

theorem compileOutputs_eq_bind (targets : List Socket) :
    c.compileOutputs targets = (do
      match ← c.compileEach targets with
      | .error e => return .error e
      | .ok outputs => return .ok ⟨outputs, ← Eval.takeEvents⟩) := rfl

theorem compileProgram_eq_bind :
    c.compileProgram = (do
      match c.programTargets with
      | .error e => return .error e
      | .ok targets => c.compileOutputs targets) := rfl

theorem outputAt_succ (n : Nat) (socket : Socket) :
    outputAt (n + 1) c socket = c.outputWith (outputAt n c) (outputAt n c.inference) socket := by
  rw [outputWith, ← Scripts.levelAt_own, ← Scripts.levelAt_own]
  rfl

end Compiler

end BlockGraph
