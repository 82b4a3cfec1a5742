import BlockGraph.Proofs.Evaluation.Steps

/-!
# Evaluations and their sessions

An evaluation looks at nothing of its session but the marks on the outputs that are being computed, it
takes back every mark that it sets, and it only adds events: it is `Framed`. So what it does in any session
is known from what it does in a session without events, `Eval.observe`.

* `Eval.Framed.bind` and `Steps.framed_run`: frames compose, along a tree too.
* `Compiler.framed_outputAt`: computing an output is framed, whatever becomes of its program.
-/

namespace BlockGraph

namespace Eval

variable {α β : Type}

/-- What an evaluation gives and reports while some outputs are being computed. -/
def observe (x : Eval α) (marks : List Socket) : Option (α × List Event) :=
  (x { inProgress := marks }).map fun r => (r.1, r.2.events)

/-- The evaluation in any session: it gives what is observed under the marks of the session, adds the
observed events, and leaves the marks. -/
def Framed (x : Eval α) : Prop :=
  ∀ s, x s = (x.observe s.inProgress).map fun r => (r.1, s.raise r.2)

namespace Framed

variable {x : Eval α} {f : α → Eval β} {s s' : Session} {a : α}

theorem of_apply {o : List Socket → Option (α × List Event)}
    (h : ∀ s, x s = (o s.inProgress).map fun r => (r.1, s.raise r.2)) : x.Framed := by
  have hobs : ∀ marks, x.observe marks = o marks := by
    intro marks
    rw [observe, h, Option.map_map]
    cases o marks with
    | none => rfl
    | some r => simp
  intro s
  rw [h, hobs]

theorem apply_eq_some (hx : x.Framed) (h : x s = some (a, s')) :
    ∃ es, x.observe s.inProgress = some (a, es) ∧ s' = s.raise es := by
  rw [hx s, Option.map_eq_some_iff] at h
  obtain ⟨⟨b, es⟩, hobs, hr⟩ := h
  obtain ⟨rfl, rfl⟩ := Prod.mk.injEq .. ▸ hr
  exact ⟨es, hobs, rfl⟩

theorem inProgress_eq (hx : x.Framed) (h : x s = some (a, s')) : s'.inProgress = s.inProgress := by
  obtain ⟨es, -, rfl⟩ := hx.apply_eq_some h
  rfl

theorem pure (a : α) : (Pure.pure a : Eval α).Framed :=
  of_apply (o := fun _ => some (a, [])) fun s => by simp

theorem endless : (endless : Eval α).Framed := of_apply (o := fun _ => none) fun _ => rfl

theorem emit (e : Event) : (emit e).Framed := of_apply (o := fun _ => some ((), [e])) fun _ => rfl

theorem bind (hx : x.Framed) (hf : ∀ a, (f a).Framed) : (x >>= f).Framed := by
  refine of_apply (o := fun marks => (x.observe marks).bind fun r =>
    ((f r.1).observe marks).map fun q => (q.1, r.2 ++ q.2)) fun s => ?_
  rw [bind_apply, hx s]
  cases x.observe s.inProgress with
  | none => rfl
  | some r =>
    simp only [Option.map_some, Option.bind_some]
    rw [hf r.1 (s.raise r.2), Session.inProgress_raise, Option.map_map]
    simp [Function.comp_def]

end Framed

end Eval

theorem Steps.framed_run {α : Type} {outputs : Outputs} {inference : Inference}
    (houtputs : ∀ socket, (outputs socket).Framed) (hinference : ∀ node key, (inference node key).Framed)
    (t : Steps α) : (t.run outputs inference).Framed := by
  induction t with
  | done a => exact .pure a
  | report e next ih => exact (Eval.Framed.emit e).bind fun _ => ih
  | compute socket next ih => exact (houtputs socket).bind ih
  | infer node key next ih => exact (hinference node key).bind ih

namespace Compiler

variable (c : Compiler)

theorem framed_inferWith (types : Outputs) (node key : String) : (c.inferWith types node key).Framed := by
  refine .of_apply (o := fun _ => (c.inference.inputWith types node key {}).map fun
    | (.error e, _) => (.error e, [])
    | (.ok v, inner) => (.ok (v.bind Value.asType?), inner.events)) fun s => ?_
  rw [inferWith_apply]
  cases c.inference.inputWith types node key {} with
  | none => rfl
  | some r =>
    obtain ⟨result, inner⟩ := r
    cases result with
    | error e => simp
    | ok v => simp

theorem framed_outputWith {outputs : Outputs} (houtputs : ∀ socket, (outputs socket).Framed) (types : Outputs)
    (socket : Socket) : (c.outputWith outputs types socket).Framed := by
  cases hprop : c.property socket.node socket.key with
  | error e =>
    refine .of_apply (o := fun _ => some (.error e, [])) fun s => ?_
    rw [outputWith_eq, hprop]
    simp
  | ok r =>
    obtain ⟨schema, p⟩ := r
    refine .of_apply (o := fun marks =>
      if socket ∈ marks then
        some (.ok none, [.warning socket.node schema.name socket.key
          (Error.cycleDetected socket.node socket.key).message])
      else
        (((c.outputSteps socket schema p).run outputs (c.inferWith types)).observe (socket :: marks)).map
          fun r => (.ok r.1, r.2)) fun s => ?_
    rw [outputWith_eq, hprop]
    dsimp only
    by_cases hmark : socket ∈ s.inProgress
    · rw [if_pos hmark, if_pos hmark]
      rfl
    · have hrun := Steps.framed_run houtputs (c.framed_inferWith types) (c.outputSteps socket schema p)
      rw [if_neg hmark, if_neg hmark, hrun (s.mark socket), Option.map_map, Option.map_map]
      simp [Function.comp_def]

/-- Computing an output, whether it ends in a value, a failure, a cycle or an error, adds its events to
the session and changes nothing else in it. -/
theorem framed_outputAt (n : Nat) (socket : Socket) : (outputAt n c socket).Framed := by
  induction n generalizing c socket with
  | zero => exact .endless
  | succ n ih =>
    rw [outputAt_succ]
    exact c.framed_outputWith (ih c) _ socket

end Compiler

end BlockGraph
