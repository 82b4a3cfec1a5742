import BlockGraph.Proofs.Evaluation.Framing

/-!
# What an evaluation may ask for

A program that keeps to some kinds of questions has a tree that infers no type and computes some outputs
only. `Steps.Within` states that of a tree, and the trees of the evaluator get it from their programs:

* `within_outputSteps_of_arguments`: a program that reads the arguments of its own node leads to the
  outputs that `Consults` lists for the inputs of that node;
* `within_outputSteps_of_inferFree`: a program that never asks for a type leads to outputs alone.

A run depends on how these outputs are computed and on nothing else: whether it ends
(`Steps.Within.run_isSome`) and what it gives (`Steps.Within.run_congr`).
-/

namespace BlockGraph

/-! ### Programs by the questions that they ask -/

/-- The question is about an argument of the program's own node. -/
def Query.IsArgument : Query → Prop
  | .argument _ => True
  | _ => False

/-- The question is about the type that flows into a property. -/
def Query.IsInference : Query → Prop
  | .infer _ _ => True
  | _ => False

/-- The program asks questions of one kind only, whatever the answers are. -/
def Program.AsksOnly (kind : Query → Prop) : Program → Prop
  | .done _ => True
  | .ask q next => kind q ∧ ∀ answer, (next answer).AsksOnly kind

theorem Program.AsksOnly.mono {kind kind' : Query → Prop} {p : Program} (h : p.AsksOnly kind)
    (hkind : ∀ q, kind q → kind' q) : p.AsksOnly kind' := by
  induction p with
  | done r => exact trivial
  | ask q next ih => exact ⟨hkind q h.1, fun answer => ih answer (h.2 answer)⟩

namespace Compiler

/-- The programs of all properties of the nodes of the graph ask questions of one kind only. -/
def ProgramsAskOnly (c : Compiler) (kind : Query → Prop) : Prop :=
  ∀ node schema p, c.schema node = .ok schema → p ∈ schema.props → (c.program node schema p).AsksOnly kind

/-- No program asks for a type. -/
def InferFree (c : Compiler) : Prop := c.ProgramsAskOnly fun q => ¬ q.IsInference

/-- Every program reads the arguments of its own node and asks for nothing else. -/
def ReadsOwnArguments (c : Compiler) : Prop := c.ProgramsAskOnly Query.IsArgument

theorem ReadsOwnArguments.inferFree {c : Compiler} (hc : c.ReadsOwnArguments) : c.InferFree := by
  intro node schema p hschema hp
  refine (hc node schema p hschema hp).mono fun q hq => ?_
  cases q with
  | argument key => exact id
  | _ => exact hq.elim

/-- The outputs that the value of an input is computed from: all that are connected to an input that takes
many connections, and otherwise the first. -/
def consulted (c : Compiler) (node : String) (p : Property) : List Socket :=
  let peers := c.graph.peers node (inputSide p) p.key
  if p.multi then peers else peers.take 1

/-- An input of the node is computed from the output. -/
def Consults (c : Compiler) (node : String) (peer : Socket) : Prop :=
  ∃ schema key p, c.schema node = .ok schema ∧ schema.prop? key = some p ∧ p.direction = .input ∧
    peer ∈ c.consulted node p

end Compiler

/-! ### Trees by what they compute -/

namespace Steps

variable {α β : Type}

/-- The tree infers no type, computes only what is allowed and ends only as allowed. -/
def Within (computes : Socket → Prop) (ends : α → Prop) : Steps α → Prop
  | .done a => ends a
  | .report _ next => next.Within computes ends
  | .compute socket next => computes socket ∧ ∀ r, (next r).Within computes ends
  | .infer _ _ _ => False

namespace Within

variable {computes computes' : Socket → Prop} {ends ends' : α → Prop} {t : Steps α}

theorem mono (h : t.Within computes ends) (hcomputes : ∀ socket, computes socket → computes' socket)
    (hends : ∀ a, ends a → ends' a) : t.Within computes' ends' := by
  induction t with
  | done a => exact hends a h
  | report e next ih => exact ih h
  | compute socket next ih => exact ⟨hcomputes socket h.1, fun r => ih r (h.2 r)⟩
  | infer node key next ih => exact h.elim

theorem bind {f : α → Steps β} {ends' : β → Prop} (h : t.Within computes ends)
    (hf : ∀ a, ends a → (f a).Within computes ends') : (t.bind f).Within computes ends' := by
  induction t with
  | done a => exact hf a h
  | report e next ih => exact ih h
  | compute socket next ih => exact ⟨h.1, fun r => ih r (h.2 r)⟩
  | infer node key next ih => exact h.elim

variable {outputs outputs' : Outputs} {inference inference' : Inference} {marks : List Socket}

theorem run_isSome (h : t.Within computes ends) (houtputs : ∀ socket, (outputs socket).Framed)
    (hcomputes : ∀ socket, computes socket → ∀ s, s.inProgress = marks → (outputs socket s).isSome) :
    ∀ s, s.inProgress = marks → (t.run outputs inference s).isSome := by
  induction t with
  | done a => intro s _; rfl
  | report e next ih => intro s hs; exact ih h (s.raise [e]) hs
  | compute socket next ih =>
    intro s hs
    obtain ⟨⟨r, s'⟩, hr⟩ := Option.isSome_iff_exists.mp (hcomputes socket h.1 s hs)
    have hs' := (houtputs socket).inProgress_eq hr
    rw [run, Eval.bind_apply, hr]
    exact ih r (h.2 r) s' (hs'.trans hs)
  | infer node key next ih => exact h.elim

theorem run_congr (h : t.Within computes ends) (houtputs : ∀ socket, (outputs socket).Framed)
    (hcomputes : ∀ socket, computes socket → ∀ s, s.inProgress = marks →
      outputs' socket s = outputs socket s) :
    ∀ s, s.inProgress = marks → t.run outputs' inference' s = t.run outputs inference s := by
  induction t with
  | done a => intro s _; rfl
  | report e next ih => intro s hs; exact ih h (s.raise [e]) hs
  | compute socket next ih =>
    intro s hs
    rw [run, run, Eval.bind_apply, Eval.bind_apply, hcomputes socket h.1 s hs]
    cases hr : outputs socket s with
    | none => rfl
    | some r => exact ih r.1 (h.2 r.1) r.2 (((houtputs socket).inProgress_eq hr).trans hs)
  | infer node key next ih => exact h.elim

end Within

end Steps

/-! ### The trees of the evaluator -/

namespace Compiler

variable (c : Compiler)

theorem within_gatherSteps (peers : List Socket) :
    (gatherSteps peers).Within (· ∈ peers) fun _ => True := by
  induction peers with
  | nil => exact trivial
  | cons socket rest ih =>
    refine ⟨List.mem_cons_self, fun r => ?_⟩
    cases r with
    | error e => exact trivial
    | ok v =>
      have hrest := ih.mono (fun peer hpeer => List.mem_cons_of_mem socket hpeer) fun _ h => h
      refine hrest.bind fun vs _ => ?_
      cases vs <;> exact trivial

theorem within_connectedSteps (node : String) (p : Property) :
    (c.connectedSteps node p).Within (· ∈ c.consulted node p) fun _ => True := by
  rw [connectedSteps, consulted]
  split
  · exact (within_gatherSteps _).bind fun _ _ => trivial
  · cases c.graph.peers node (inputSide p) p.key with
    | nil => exact trivial
    | cons peer rest => exact ⟨by simp, fun _ => trivial⟩

theorem within_inputSteps (node key : String) :
    (c.inputSteps node key).Within (c.Consults node) fun _ => True := by
  rw [inputSteps]
  cases hprop : c.property node key with
  | error e => exact trivial
  | ok r =>
    obtain ⟨schema, p⟩ := r
    obtain ⟨hschema, hkey⟩ := property_eq_ok_iff.mp hprop
    cases hdir : p.direction with
    | input =>
      simp only [hdir]
      refine (c.within_connectedSteps node p).mono (fun peer hpeer => ?_) fun _ h => h
      exact ⟨schema, key, p, hschema, hkey, hdir, hpeer⟩
    | output => simp only [hdir]; exact trivial
    | control => simp only [hdir]; exact trivial

theorem within_argumentSteps (args : Arguments) (key : String) :
    (c.argumentSteps args key).Within (c.Consults args.node)
      fun r => r.2.node = args.node ∧ r.2.schema = args.schema := by
  rw [argumentSteps]
  cases args.known.find? (·.1 == key) with
  | some known => exact ⟨rfl, rfl⟩
  | none =>
    cases args.schema.prop? key with
    | none => exact ⟨rfl, rfl⟩
    | some p =>
      dsimp only
      split
      · exact ⟨rfl, rfl⟩
      · refine (c.within_inputSteps args.node key).bind fun r _ => ?_
        cases r with
        | error e => exact ⟨rfl, rfl⟩
        | ok v => dsimp only; split <;> exact ⟨rfl, rfl⟩

theorem within_answerSteps (args : Arguments) {q : Query} (hq : ¬ q.IsInference) :
    (c.answerSteps args q).Within (fun _ => True) fun _ => True := by
  cases q with
  | argument key =>
    exact (c.within_argumentSteps args key).mono (fun _ _ => trivial) fun _ _ => trivial
  | argumentOf node key =>
    rw [answerSteps]
    cases c.arguments node with
    | error e => exact trivial
    | ok fresh =>
      have hread := (c.within_argumentSteps fresh key).mono
        (fun _ _ => trivial) fun _ h => h
      exact hread.bind fun _ _ => trivial
  | output node key => exact ⟨trivial, fun _ => trivial⟩
  | input node key =>
    have hread := (c.within_inputSteps node key).mono
      (fun _ _ => trivial) fun _ h => h
    exact hread.bind fun _ _ => trivial
  | infer node key => exact absurd trivial hq
  | control node key => exact trivial
  | block node => exact trivial

theorem within_programSteps_of_inferFree {p : Program} (hp : p.AsksOnly fun q => ¬ q.IsInference)
    (args : Arguments) : (c.programSteps p args).Within (fun _ => True) fun _ => True := by
  induction p generalizing args with
  | done r => exact trivial
  | ask q next ih => exact (c.within_answerSteps args hp.1).bind fun r _ => ih r.1 (hp.2 r.1) r.2

theorem within_programSteps_of_arguments {p : Program} (hp : p.AsksOnly Query.IsArgument) (args : Arguments) :
    (c.programSteps p args).Within (c.Consults args.node) fun _ => True := by
  induction p generalizing args with
  | done r => exact trivial
  | ask q next ih =>
    cases q with
    | argument key =>
      refine (c.within_argumentSteps args key).bind fun r hr => ?_
      rw [← hr.1]
      exact ih r.1 (hp.2 r.1) r.2
    | _ => exact hp.1.elim

variable {socket : Socket} {schema : Schema} {p : Property}

theorem within_outputSteps {computes : Socket → Prop}
    (h : (c.programSteps (c.program socket.node schema p) { node := socket.node, schema }).Within computes
      fun _ => True) : (c.outputSteps socket schema p).Within computes fun _ => True := by
  refine h.bind fun r _ => ?_
  cases r <;> exact trivial

theorem ProgramsAskOnly.program {kind : Query → Prop} (hc : c.ProgramsAskOnly kind)
    (h : c.property socket.node socket.key = .ok (schema, p)) :
    (c.program socket.node schema p).AsksOnly kind :=
  hc socket.node schema p (property_eq_ok_iff.mp h).1 (mem_props_of_property h)

theorem within_outputSteps_of_inferFree (hc : c.InferFree)
    (h : c.property socket.node socket.key = .ok (schema, p)) :
    (c.outputSteps socket schema p).Within (fun _ => True) fun _ => True :=
  c.within_outputSteps (c.within_programSteps_of_inferFree (hc.program c h) _)

theorem within_outputSteps_of_arguments (hc : c.ReadsOwnArguments)
    (h : c.property socket.node socket.key = .ok (schema, p)) :
    (c.outputSteps socket schema p).Within (c.Consults socket.node) fun _ => True :=
  c.within_outputSteps (c.within_programSteps_of_arguments (hc.program c h) ⟨socket.node, schema, []⟩)

end Compiler

end BlockGraph
