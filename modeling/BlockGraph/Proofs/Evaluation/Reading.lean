import BlockGraph.Proofs.Evaluation.Trace

/-!
# Programs that read each argument once

Such a program never finds an argument that is remembered, so its trace is that of its own tree with each argument
computed where it is read (`trace_programSteps`). What is read of a property (`readTrace`) is computed from the graph
in one of three ways, for a control (`readTrace_control`), for an input of one value that flows forwards
(`readTrace_operand`) and for an input that collects values (`readTrace_collected`).
-/

namespace BlockGraph

/-- The program reads arguments of its own node only, each at most once and none of those that are known. -/
def Program.ReadsOnce : List String → Program → Prop
  | _, .done _ => True
  | known, .ask (.argument key) next => key ∉ known ∧ ∀ answer, (next answer).ReadsOnce (key :: known)
  | _, .ask _ _ => False

/-- The trace of a program that reads arguments, given the traces of these. -/
def Program.readings (read : String → Traced (Outcome (Option Value))) :
    Program → Traced (Except Failure (Option Value))
  | .done r => some (r, [])
  | .ask (.argument key) next => (read key).andThen fun answer => (next answer).readings read
  | .ask _ _ => none

namespace Program

variable {p : Program} {known fewer : List String}

theorem ReadsOnce.mono (hp : p.ReadsOnce known) (hfewer : fewer ⊆ known) : p.ReadsOnce fewer := by
  induction p generalizing known fewer with
  | done r => trivial
  | ask q next ih =>
    cases q with
    | argument key =>
      refine ⟨fun hkey => hp.1 (hfewer hkey), fun answer => ih answer (hp.2 answer) ?_⟩
      exact List.cons_subset_cons key hfewer
    | _ => exact hp.elim

theorem ReadsOnce.asksOnly (hp : p.ReadsOnce known) : p.AsksOnly Query.IsArgument := by
  induction p generalizing known with
  | done r => trivial
  | ask q next ih =>
    cases q with
    | argument key => exact ⟨trivial, fun answer => ih answer (hp.2 answer)⟩
    | _ => exact hp.elim

theorem readsOnce_get {key : String} {k : Option Value → Program} (hkey : key ∉ known)
    (hk : ∀ v, (k v).ReadsOnce (key :: known)) : (Program.get key k).ReadsOnce known := by
  refine ⟨hkey, fun answer => ?_⟩
  cases answer with
  | error e => trivial
  | ok v => exact hk v

theorem readings_get {read : String → Traced (Outcome (Option Value))} {key : String} {v : Option Value}
    {ns : List Notice} (h : read key = some (.ok v, ns)) (k : Option Value → Program) :
    (Program.get key k).readings read = ((k v).readings read).map fun q => (q.1, ns ++ q.2) := by
  rw [get, request, readings, h]
  rfl

end Program

theorem Schema.key_of_prop? {s : Schema} {key : String} {p : Property} (h : s.prop? key = some p) : p.key = key := by
  simpa using List.find?_some h

/-- The property is an input of one value, which flows forwards. -/
structure Property.IsOperand (p : Property) : Prop where
  input : p.direction = .input
  single : p.multi = false
  forward : p.type.isReversed = false

/-- The property is an input that collects values, which are followed backwards. -/
structure Property.Collects (p : Property) : Prop where
  input : p.direction = .input
  multi : p.multi = true
  backward : p.type.isReversed = true

namespace Traced

variable {α β : Type}

@[simp] theorem some_andThen (a : α) (ns : List Notice) (f : α → Traced β) :
    andThen (some (a, ns)) f = (f a).map fun q => (q.1, ns ++ q.2) := rfl

end Traced

namespace Compiler

variable (c : Compiler) {outputs : Socket → Traced (Outcome (Option Value))}
  {types : String → String → Traced (Outcome (Option Ty))} {node key : String} {schema : Schema} {p : Property}

def inputTrace (outputs : Socket → Traced (Outcome (Option Value))) (node key : String) :
    Traced (Outcome (Option Value)) :=
  (c.inputSteps node key).trace outputs fun _ _ => none

/-- The notice of a required argument that is absent. -/
def missing (node : String) (schema : Schema) (p : Property) : Outcome (Option Value) → List Notice
  | .ok none => if p.optional then [] else [.reported (.missingInput node schema.name p.key)]
  | _ => []

theorem missing_of_optional (hoptional : p.optional = true) (r : Outcome (Option Value)) :
    missing node schema p r = [] := by
  cases r with
  | error e => rfl
  | ok v => cases v <;> simp [missing, hoptional]

/-- The trace of an argument that is read for the first time. -/
def readTrace (outputs : Socket → Traced (Outcome (Option Value))) (node : String) (schema : Schema) (key : String) :
    Traced (Outcome (Option Value)) :=
  match schema.prop? key with
  | none => some (.error (.unknownInput schema.name key), [])
  | some p =>
    if p.isOutput then some (.error (.unknownInput schema.name key), [])
    else (c.inputTrace outputs node key).andThen fun r => some (r, missing node schema p r)

theorem readTrace_eq (hprop : schema.prop? key = some p) (hargument : p.isOutput = false) :
    c.readTrace outputs node schema key =
      (c.inputTrace outputs node key).andThen fun r => some (r, missing node schema p r) := by
  rw [readTrace, hprop]
  simp [hargument]

theorem trace_inputSteps : (c.inputSteps node key).trace outputs types = c.inputTrace outputs node key :=
  (c.within_inputSteps node key).trace_congr fun _ _ => rfl

/-! ### Programs -/

theorem trace_argumentSteps {args : Arguments} (hkey : key ∉ args.known.map Prod.fst) :
    (c.argumentSteps args key).trace outputs types =
      (c.readTrace outputs args.node args.schema key).andThen fun r => some ((r, match r with
        | .error _ => args
        | .ok v => { args with known := (key, v) :: args.known }), []) := by
  have hfind : args.known.find? (·.1 == key) = none := by
    rw [List.find?_eq_none]
    intro entry hentry heq
    exact hkey (beq_iff_eq.mp heq ▸ List.mem_map_of_mem hentry)
  rw [argumentSteps, readTrace, hfind]
  cases hprop : args.schema.prop? key with
  | none => rfl
  | some p =>
    have hpkey := Schema.key_of_prop? hprop
    dsimp only
    split
    · rfl
    · rw [Steps.trace_bind, trace_inputSteps]
      cases c.inputTrace outputs args.node key with
      | none => rfl
      | some r =>
        obtain ⟨result, ns⟩ := r
        cases result with
        | error e => simp [Steps.trace, missing]
        | ok v =>
          cases v with
          | some v => simp [Steps.trace, missing]
          | none => cases hopt : p.optional <;> simp [Steps.trace, missing, hopt, hpkey]

theorem trace_programSteps {program : Program} {args : Arguments}
    (hp : program.ReadsOnce (args.known.map Prod.fst)) :
    (c.programSteps program args).trace outputs types =
      program.readings (c.readTrace outputs args.node args.schema) := by
  induction program generalizing args with
  | done r => rfl
  | ask q next ih =>
    cases q with
    | argument key =>
      rw [programSteps, Steps.trace_bind, answerSteps, trace_argumentSteps c hp.1, Program.readings]
      cases c.readTrace outputs args.node args.schema key with
      | none => rfl
      | some r =>
        obtain ⟨result, ns⟩ := r
        cases result with
        | error e =>
          have hnext := ih (.error e) ((hp.2 (.error e)).mono (List.subset_cons_self _ _))
          simp [hnext]
        | ok v =>
          let more : Arguments := { args with known := (key, v) :: args.known }
          have hmore : (next (.ok v)).ReadsOnce (more.known.map Prod.fst) := hp.2 (.ok v)
          simp [ih (.ok v) hmore, more]
    | _ => exact hp.elim

theorem trace_outputSteps {x : Socket} (hp : (c.program x.node schema p).ReadsOnce []) :
    (c.outputSteps x schema p).trace outputs types =
      ((c.program x.node schema p).readings (c.readTrace outputs x.node schema)).andThen fun
        | .ok v => some (c.postProcess x.node x.key v, [])
        | .error f => some (none, [.reported (.warning x.node schema.name x.key f.message)]) := by
  have hprogram : (c.programSteps (c.program x.node schema p) { node := x.node, schema }).trace outputs types =
      (c.program x.node schema p).readings (c.readTrace outputs x.node schema) := c.trace_programSteps hp
  rw [outputSteps, Steps.trace_bind, hprogram]
  congr 1
  funext result
  cases result <;> rfl

/-! ### Properties -/

theorem readTrace_control (hschema : c.schema node = .ok schema) (hprop : schema.prop? key = some p)
    (hcontrol : p.direction = .control) :
    c.readTrace outputs node schema key =
      some ((c.storedControl node key).map (c.postProcess node key),
        missing node schema p ((c.storedControl node key).map (c.postProcess node key))) := by
  have hproperty := property_eq_ok_iff.mpr ⟨hschema, hprop⟩
  have hinput : c.inputTrace outputs node key = some ((c.storedControl node key).map (c.postProcess node key), []) := by
    simp only [inputTrace, inputSteps, hproperty, hcontrol]
    rfl
  rw [c.readTrace_eq hprop (by simp [Property.isOutput, hcontrol]), hinput]
  simp

theorem inputTrace_input (hschema : c.schema node = .ok schema) (hprop : schema.prop? key = some p)
    (hinput : p.direction = .input) :
    c.inputTrace outputs node key = (c.connectedSteps node p).trace outputs fun _ _ => none := by
  have hproperty := property_eq_ok_iff.mpr ⟨hschema, hprop⟩
  simp only [inputTrace, inputSteps, hproperty, hinput]

/-- The trace of an operand is that of the first output that is connected to it, or else it is its control. -/
def operandTrace (outputs : Socket → Traced (Outcome (Option Value))) (node key : String) :
    Traced (Outcome (Option Value)) :=
  match c.graph.peers node .input key with
  | peer :: _ => outputs peer
  | [] => some (c.storedControl node key, [])

theorem readTrace_operand (hschema : c.schema node = .ok schema) (hprop : schema.prop? key = some p)
    (hp : p.IsOperand) :
    c.readTrace outputs node schema key =
      (c.operandTrace outputs node key).andThen fun r => some (r, missing node schema p r) := by
  have hkey := Schema.key_of_prop? hprop
  have hside : inputSide p = .input := by simp [inputSide, hp.forward]
  rw [c.readTrace_eq hprop (by simp [Property.isOutput, hp.input]), c.inputTrace_input hschema hprop hp.input]
  congr 1
  rw [connectedSteps, hp.single, hside, hkey, hp.forward, operandTrace]
  cases c.graph.peers node .input key with
  | nil => rfl
  | cons peer rest =>
    simp only [Bool.false_eq_true, if_false, Steps.trace]
    cases outputs peer with
    | none => rfl
    | some r =>
      obtain ⟨result, ns⟩ := r
      simp

section

variable {β : Type} {value : β → Option Value} {notices : β → List Notice} {items : List β}

theorem trace_gatherSteps {peers : List Socket}
    (h : List.Forall₂ (fun peer item => outputs peer = some (.ok (value item), notices item)) peers items) :
    (gatherSteps peers).trace outputs types = some (.ok (items.filterMap value), items.flatMap notices) := by
  induction h with
  | nil => rfl
  | @cons peer item peers items hpeer _ ih =>
    simp only [gatherSteps, Steps.trace, hpeer, Traced.some_andThen, Steps.trace_bind, ih]
    cases hv : value item <;> simp [hv]

theorem readTrace_collected (hschema : c.schema node = .ok schema) (hprop : schema.prop? key = some p)
    (hp : p.Collects)
    (h : List.Forall₂ (fun peer item => outputs peer = some (.ok (value item), notices item))
      (c.graph.peers node .output key) items) :
    c.readTrace outputs node schema key = some (.ok (some (.list (items.filterMap value))), items.flatMap notices) := by
  have hkey := Schema.key_of_prop? hprop
  have hside : inputSide p = .output := by simp [inputSide, hp.backward]
  rw [c.readTrace_eq hprop (by simp [Property.isOutput, hp.input]), c.inputTrace_input hschema hprop hp.input,
    connectedSteps, hp.multi, if_pos rfl, hside, hkey, Steps.trace_bind, trace_gatherSteps h]
  simp [Steps.trace, Except.map, missing]

end

theorem consulted_operand (hp : p.IsOperand) : c.consulted node p = (c.graph.peers node .input p.key).take 1 := by
  simp [consulted, inputSide, hp.single, hp.forward]

theorem consulted_collected (hp : p.Collects) : c.consulted node p = c.graph.peers node .output p.key := by
  simp [consulted, inputSide, hp.multi, hp.backward]

end Compiler

end BlockGraph
