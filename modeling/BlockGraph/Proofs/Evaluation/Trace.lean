import BlockGraph.Proofs.Evaluation.Request

/-!
# Evaluations with their causes

The events of an evaluation do not say who reported them: a program may fail in the words of the check for cycles.
A trace is an evaluation that keeps this apart. Its notices are the events, those of the check among them by name,
and it passes the marks down where the evaluator finds them in its session.

* `Steps.observe_run`: a tree is observed to give its trace, once the causes are forgotten;
* `observe_outputAt` and `perform_trace`: so are outputs and requests.
-/

namespace BlockGraph

/-- An event together with its cause. -/
inductive Notice where
  | reported (e : Event)
  /-- The check for cycles met an output, of a block, that is being computed. -/
  | cycle (socket : Socket) (block : String)

def Notice.event : Notice → Event
  | .reported e => e
  | .cycle socket block =>
    .warning socket.node block socket.key (Error.cycleDetected socket.node socket.key).message

/-- A result and the notices on the way to it, unless there is no end. -/
abbrev Traced (α : Type) := Option (α × List Notice)

namespace Traced

variable {α β : Type}

def forget (x : Traced α) : Option (α × List Event) := x.map fun r => (r.1, r.2.map Notice.event)

/-- Goes on with a result, after the notices so far. -/
def andThen (x : Traced α) (f : α → Traced β) : Traced β :=
  x.bind fun r => (f r.1).map fun q => (q.1, r.2 ++ q.2)

theorem andThen_eq_some {x : Traced α} {f : α → Traced β} {b : β} {ns : List Notice} :
    x.andThen f = some (b, ns) ↔
      ∃ a ns₁ ns₂, x = some (a, ns₁) ∧ f a = some (b, ns₂) ∧ ns = ns₁ ++ ns₂ := by
  unfold andThen
  rw [Option.bind_eq_some_iff]
  constructor
  · rintro ⟨⟨a, ns₁⟩, hx, h⟩
    obtain ⟨⟨b', ns₂⟩, hf, heq⟩ := Option.map_eq_some_iff.mp h
    cases heq
    exact ⟨a, ns₁, ns₂, hx, hf, rfl⟩
  · rintro ⟨a, ns₁, ns₂, hx, hf, rfl⟩
    exact ⟨(a, ns₁), hx, by rw [hf]; rfl⟩

theorem forget_andThen (x : Traced α) (f : α → Traced β) :
    (x.andThen f).forget = x.forget.bind fun r => (f r.1).forget.map fun q => (q.1, r.2 ++ q.2) := by
  unfold andThen forget
  cases x with
  | none => rfl
  | some r =>
    simp only [Option.bind_some, Option.map_some, Option.map_map]
    congr 1
    funext q
    simp

end Traced

/-! ### Traces of trees -/

namespace Steps

variable {α β : Type}

def trace (outputs : Socket → Traced (Outcome (Option Value)))
    (types : String → String → Traced (Outcome (Option Ty))) : Steps α → Traced α
  | .done a => some (a, [])
  | .report e next => Traced.andThen (some ((), [.reported e])) fun _ => next.trace outputs types
  | .compute socket next => (outputs socket).andThen fun r => (next r).trace outputs types
  | .infer node key next => (types node key).andThen fun r => (next r).trace outputs types

variable {outputs : Socket → Traced (Outcome (Option Value))}
  {types : String → String → Traced (Outcome (Option Ty))}

theorem trace_bind (t : Steps α) (f : α → Steps β) :
    (t.bind f).trace outputs types = (t.trace outputs types).andThen fun a => (f a).trace outputs types := by
  have hassoc : ∀ {γ δ : Type} (x : Traced γ) (g : γ → Traced α) (k : α → Traced δ),
      (x.andThen g).andThen k = x.andThen fun a => (g a).andThen k := by
    intro γ δ x g k
    ext ⟨d, ns⟩
    simp only [Traced.andThen_eq_some]
    constructor
    · rintro ⟨a, _, ns₃, ⟨b, ns₁, ns₂, hx, hg, rfl⟩, hk, rfl⟩
      exact ⟨b, ns₁, _, hx, ⟨a, ns₂, ns₃, hg, hk, rfl⟩, List.append_assoc ..⟩
    · rintro ⟨b, ns₁, _, hx, ⟨a, ns₂, ns₃, hg, hk, rfl⟩, rfl⟩
      exact ⟨a, _, ns₃, ⟨b, ns₁, ns₂, hx, hg, rfl⟩, hk, (List.append_assoc ..).symm⟩
  induction t with
  | done a =>
    show (f a).trace outputs types = Traced.andThen (some (a, [])) _
    simp [Traced.andThen]
  | report e next ih => simp only [bind, trace, hassoc, ih]
  | compute socket next ih => simp only [bind, trace, hassoc, ih]
  | infer node key next ih => simp only [bind, trace, hassoc, ih]

variable {outputs' : Socket → Traced (Outcome (Option Value))}
  {types' : String → String → Traced (Outcome (Option Ty))}

theorem Within.trace_congr {computes : Socket → Prop} {ends : α → Prop} {t : Steps α} (h : t.Within computes ends)
    (hcomputes : ∀ socket, computes socket → outputs' socket = outputs socket) :
    t.trace outputs' types' = t.trace outputs types := by
  induction t with
  | done a => rfl
  | report e next ih => rw [trace, trace, ih h]
  | compute socket next ih =>
    have hnext : ∀ r, (next r).trace outputs' types' = (next r).trace outputs types := fun r => ih r (h.2 r)
    simp only [trace, hcomputes socket h.1, hnext]
  | infer node key next ih => exact h.elim

end Steps

/-! ### What is observed is what is traced -/

theorem Eval.Framed.observe_bind {α β : Type} {x : Eval α} {f : α → Eval β} (hx : x.Framed)
    (hf : ∀ a, (f a).Framed) (marks : List Socket) :
    (x >>= f).observe marks =
      (x.observe marks).bind fun r => ((f r.1).observe marks).map fun q => (q.1, r.2 ++ q.2) := by
  rw [observe, bind_apply, hx]
  cases x.observe marks with
  | none => rfl
  | some r =>
    simp only [Option.map_some, Option.bind_some]
    rw [hf r.1, Session.inProgress_raise, Option.map_map]
    simp [Function.comp_def]

theorem Steps.observe_run {α : Type} {outputs : Outputs} {inference : Inference} {marks : List Socket}
    {traced : Socket → Traced (Outcome (Option Value))}
    {types : String → String → Traced (Outcome (Option Ty))}
    (houtputs : ∀ socket, (outputs socket).Framed) (hinference : ∀ node key, (inference node key).Framed)
    (htraced : ∀ socket, (outputs socket).observe marks = (traced socket).forget)
    (htypes : ∀ node key, (inference node key).observe marks = (types node key).forget) (t : Steps α) :
    (t.run outputs inference).observe marks = (t.trace traced types).forget := by
  have hframed : ∀ t : Steps α, (t.run outputs inference).Framed := Steps.framed_run houtputs hinference
  induction t with
  | done a => rfl
  | report e next ih =>
    rw [run, (Eval.Framed.emit e).observe_bind fun _ => hframed next, trace, Traced.forget_andThen, ih]
    rfl
  | compute socket next ih =>
    rw [run, (houtputs socket).observe_bind fun r => hframed (next r), trace, Traced.forget_andThen, htraced]
    simp only [ih]
  | infer node key next ih =>
    rw [run, (hinference node key).observe_bind fun r => hframed (next r), trace, Traced.forget_andThen, htypes]
    simp only [ih]

namespace Compiler

/-- The trace of an inference. Nothing is kept of one that ends in an error. -/
def traceInfer (c : Compiler) (types : Socket → Traced (Outcome (Option Value))) (node key : String) :
    Traced (Outcome (Option Ty)) :=
  ((c.inference.inputSteps node key).trace types fun _ _ => none).map fun
    | (.error e, _) => (.error e, [])
    | (.ok v, ns) => (.ok (v.bind Value.asType?), ns)

/-- The trace of an output under marks, with at most so many steps nested in one another. -/
def traceAt : Nat → Compiler → List Socket → Socket → Traced (Outcome (Option Value))
  | 0, _, _, _ => none
  | n + 1, c, marks, socket =>
    match c.property socket.node socket.key with
    | .error e => some (.error e, [])
    | .ok (schema, p) =>
      if socket ∈ marks then some (.ok none, [.cycle socket schema.name])
      else
        ((c.outputSteps socket schema p).trace (traceAt n c (socket :: marks))
          (c.traceInfer (traceAt n c.inference []))).map fun r => (.ok r.1, r.2)

variable (c : Compiler)

theorem observe_inferWith {types : Outputs} {traced : Socket → Traced (Outcome (Option Value))}
    (hframed : ∀ socket, (types socket).Framed)
    (htraced : ∀ socket, (types socket).observe [] = (traced socket).forget) (marks : List Socket)
    (node key : String) :
    (c.inferWith types node key).observe marks = (c.traceInfer traced node key).forget := by
  have hinput : (c.inference.inputWith types node key).observe [] =
      ((c.inference.inputSteps node key).trace traced fun _ _ => none).forget := by
    rw [c.inference.inputWith_eq_run types fun _ _ => Eval.endless]
    exact Steps.observe_run hframed (fun _ _ => .endless) htraced (fun _ _ => rfl) _
  -- both sides go on with the outcome of the input, and the events of an error are dropped
  unfold Eval.observe traceInfer
  rw [inferWith_apply]
  unfold Eval.observe at hinput
  cases htrace : (c.inference.inputSteps node key).trace traced fun _ _ => none with
  | none =>
    rw [htrace] at hinput
    rw [Option.map_eq_none_iff.mp hinput]
    rfl
  | some r =>
    rw [htrace] at hinput
    obtain ⟨⟨result, s⟩, hrun, hr⟩ := Option.map_eq_some_iff.mp hinput
    obtain ⟨rfl, hevents⟩ := Prod.mk.injEq .. ▸ hr
    rw [hrun]
    obtain ⟨result, ns⟩ := r
    cases result with
    | error e => rfl
    | ok v =>
      dsimp only at hevents ⊢
      rw [hevents]
      rfl

theorem observe_outputAt (n : Nat) (marks : List Socket) (socket : Socket) :
    (outputAt n c socket).observe marks = (traceAt n c marks socket).forget := by
  induction n generalizing c marks socket with
  | zero => rfl
  | succ n ih =>
    rw [Eval.observe, outputAt_succ, outputWith_eq, traceAt]
    cases c.property socket.node socket.key with
    | error e => rfl
    | ok found =>
      obtain ⟨schema, p⟩ := found
      dsimp only
      by_cases hmark : socket ∈ marks
      · rw [if_pos hmark, if_pos hmark]
        rfl
      · rw [if_neg hmark, if_neg hmark]
        have hrun := Steps.observe_run (c.framed_outputAt n)
          (c.framed_inferWith (outputAt n c.inference)) (ih c (socket :: marks))
          (c.observe_inferWith (c.inference.framed_outputAt n) (ih c.inference []) (socket :: marks))
          (c.outputSteps socket schema p)
        calc _ = (((c.outputSteps socket schema p).run (outputAt n c)
                (c.inferWith (outputAt n c.inference))).observe (socket :: marks)).map
              fun r => (Except.ok r.1, r.2) := by
              rw [Eval.observe, Option.map_map, Option.map_map]
              rfl
          _ = _ := by
              rw [hrun, Traced.forget, Traced.forget, Option.map_map, Option.map_map]
              rfl

/-! ### Requests -/

/-- The trace of a request on a compiler that computes nothing yet. -/
def requestTrace (q : Request) : Traced Unit :=
  (c.requestSteps q).trace (traceAt c.depth c []) (c.traceInfer (traceAt c.depth c.inference []))

theorem observe_execute_requestSteps (q : Request) :
    (c.execute (c.requestSteps q)).observe [] = (c.requestTrace q).forget :=
  Steps.observe_run (c.framed_outputAt c.depth) (c.framed_inferWith _) (c.observe_outputAt c.depth [])
    (c.observe_inferWith (c.inference.framed_outputAt c.depth) (c.inference.observe_outputAt c.depth []) []) _

variable {c} {q : Request} {s s' : Session}

theorem perform_trace (hs : s.inProgress = []) (h : c.perform q s = some ((), s')) :
    ∃ ns, c.requestTrace q = some ((), ns) ∧ s'.heard = s.heard ++ ns.map Notice.event := by
  obtain ⟨es, hobserve, -, hheard⟩ := perform_eq_some h
  rw [hs, observe_execute_requestSteps] at hobserve
  obtain ⟨⟨_, ns⟩, htrace, hns⟩ := Option.map_eq_some_iff.mp hobserve
  obtain ⟨-, rfl⟩ := Prod.mk.injEq .. ▸ hns
  exact ⟨ns, htrace, hheard⟩

theorem requestTrace_output {node key : String} {ns : List Notice}
    (h : c.requestTrace (.output node key) = some ((), ns)) : ∃ r, traceAt c.depth c [] ⟨node, key⟩ = some (r, ns) := by
  rw [requestTrace, requestSteps, Steps.trace] at h
  obtain ⟨r, ns₁, _, htrace, hend, rfl⟩ := Traced.andThen_eq_some.mp h
  cases hend
  rw [List.append_nil]
  exact ⟨r, htrace⟩

end Compiler

end BlockGraph
