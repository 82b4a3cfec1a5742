import BlockGraph.Proofs.Evaluation.Request

/-!
# Evaluation by rules

The evaluator is a function with a bound on the nesting of steps. `Compiler.Gives` says by rules, without a bound, what
a tree of steps gives while some outputs are being computed, and which events are raised on the way. The log has all
of them. An inference that fails does not hand its events over, so those are lost there, and only what is `kept` gets
into the session.

* `Gives.unique`: the rules leave no choice;
* `outputAt_mono`: a larger bound keeps every answer;
* `gives_of_runAt`: what the evaluator gives with some bound, the rules give.
-/

namespace BlockGraph

theorem Session.raise_eq_raise_iff {s : Session} {es fs : List Event} : s.raise es = s.raise fs ↔ es = fs := by
  constructor
  · intro h
    exact List.append_cancel_left (congrArg Session.events h)
  · rintro rfl
    rfl

/-- An event that was raised, and whether it was lost with an inference that failed. -/
structure Raised where
  event : Event
  lost : Bool

/-- The events of a log that were not lost. -/
def kept (log : List Raised) : List Event := (log.filter fun x => !x.lost).map (·.event)

@[simp] theorem kept_nil : kept [] = [] := rfl

@[simp] theorem kept_cons (e : Event) (log : List Raised) : kept (⟨e, false⟩ :: log) = e :: kept log := rfl

@[simp] theorem kept_append (log more : List Raised) : kept (log ++ more) = kept log ++ kept more := by
  simp [kept]

theorem kept_eq_map_iff {log : List Raised} : kept log = log.map (·.event) ↔ ∀ x ∈ log, x.lost = false := by
  constructor
  · intro h
    have hlength := congrArg List.length h
    rw [kept, List.length_map, List.length_map] at hlength
    simpa using List.length_filter_eq_length_iff.mp hlength
  · intro h
    rw [kept, List.filter_eq_self.mpr]
    simpa using h

/-- The log of an inference after it has ended: all of it is lost if it failed. -/
def handOver {α : Type} : Outcome α → List Raised → List Raised
  | .ok _, log => log
  | .error _, log => log.map fun x => { x with lost := true }

/-- The events that an inference hands over. -/
def handedOver {α : Type} : Outcome α → List Event → List Event
  | .ok _, es => es
  | .error _, _ => []

@[simp] theorem kept_handOver {α : Type} (r : Outcome α) (log : List Raised) :
    kept (handOver r log) = handedOver r (kept log) := by
  cases r with
  | ok a => rfl
  | error e => simp [kept, handOver, handedOver]

namespace Compiler

/-- The event of meeting an output that is being computed. -/
def cycleWarning (socket : Socket) (schema : Schema) : Event :=
  .warning socket.node schema.name socket.key (Error.cycleDetected socket.node socket.key).message

/-- The type that an inference finds when a value flows into the property. -/
def typeFound (r : Outcome (Option Value)) : Outcome (Option Ty) := r.map fun v => v.bind Value.asType?

/-- Under the marks, the tree ends with the result, and the log has the events that are raised on the way. -/
inductive Gives : Compiler → List Socket → {α : Type} → Steps α → α → List Raised → Prop
  | done {c : Compiler} {marks : List Socket} {α : Type} (a : α) : Gives c marks (.done a) a []
  | report {c : Compiler} {marks : List Socket} {α : Type} {e : Event} {next : Steps α} {a : α} {log : List Raised}
      (h : Gives c marks next a log) : Gives c marks (.report e next) a (⟨e, false⟩ :: log)
  | unknown {c : Compiler} {marks : List Socket} {α : Type} {socket : Socket}
      {next : Outcome (Option Value) → Steps α} {e : Error} {a : α} {log : List Raised}
      (hprop : c.property socket.node socket.key = .error e) (h : Gives c marks (next (.error e)) a log) :
      Gives c marks (.compute socket next) a log
  | cycle {c : Compiler} {marks : List Socket} {α : Type} {socket : Socket}
      {next : Outcome (Option Value) → Steps α} {schema : Schema} {p : Property} {a : α} {log : List Raised}
      (hprop : c.property socket.node socket.key = .ok (schema, p)) (hmark : socket ∈ marks)
      (h : Gives c marks (next (.ok none)) a log) :
      Gives c marks (.compute socket next) a (⟨cycleWarning socket schema, false⟩ :: log)
  | output {c : Compiler} {marks : List Socket} {α : Type} {socket : Socket}
      {next : Outcome (Option Value) → Steps α} {schema : Schema} {p : Property} {v : Option Value} {a : α}
      {inner log : List Raised}
      (hprop : c.property socket.node socket.key = .ok (schema, p)) (hmark : socket ∉ marks)
      (hv : Gives c (socket :: marks) (c.outputSteps socket schema p) v inner)
      (h : Gives c marks (next (.ok v)) a log) : Gives c marks (.compute socket next) a (inner ++ log)
  | infer {c : Compiler} {marks : List Socket} {α : Type} {node key : String}
      {next : Outcome (Option Ty) → Steps α} {r : Outcome (Option Value)} {a : α} {inner log : List Raised}
      (hr : Gives c.inference [] (c.inference.inputSteps node key) r inner)
      (h : Gives c marks (next (typeFound r)) a log) :
      Gives c marks (.infer node key next) a (handOver r inner ++ log)

theorem Gives.unique {c : Compiler} {marks : List Socket} {α : Type} {t : Steps α} {a a' : α} {log log' : List Raised}
    (h : c.Gives marks t a log) (h' : c.Gives marks t a' log') : a' = a ∧ log' = log := by
  induction h generalizing log' with
  | done a =>
    cases h'
    exact ⟨rfl, rfl⟩
  | report _ ih =>
    cases h' with
    | report h' =>
      obtain ⟨rfl, rfl⟩ := ih h'
      exact ⟨rfl, rfl⟩
  | unknown hprop _ ih =>
    cases h' with
    | unknown hprop' h' =>
      rw [hprop] at hprop'
      cases hprop'
      exact ih h'
    | cycle hprop' _ _ => rw [hprop] at hprop'; cases hprop'
    | output hprop' _ _ _ => rw [hprop] at hprop'; cases hprop'
  | cycle hprop hmark _ ih =>
    cases h' with
    | unknown hprop' _ => rw [hprop] at hprop'; cases hprop'
    | cycle hprop' _ h' =>
      rw [hprop] at hprop'
      cases hprop'
      obtain ⟨rfl, rfl⟩ := ih h'
      exact ⟨rfl, rfl⟩
    | output _ hmark' _ _ => exact absurd hmark hmark'
  | output hprop hmark _ _ ihv ih =>
    cases h' with
    | unknown hprop' _ => rw [hprop] at hprop'; cases hprop'
    | cycle _ hmark' _ => exact absurd hmark' hmark
    | output hprop' _ hv' h' =>
      rw [hprop] at hprop'
      cases hprop'
      obtain ⟨rfl, rfl⟩ := ihv hv'
      obtain ⟨rfl, rfl⟩ := ih h'
      exact ⟨rfl, rfl⟩
  | infer _ _ ihr ih =>
    cases h' with
    | infer hr' h' =>
      obtain ⟨rfl, rfl⟩ := ihr hr'
      obtain ⟨rfl, rfl⟩ := ih h'
      exact ⟨rfl, rfl⟩

end Compiler

/-! ### The evaluator, one step at a time -/

theorem Steps.run_mono {α : Type} {outputs outputs' : Outputs} {inference inference' : Inference}
    (houtputs : ∀ socket s r, outputs socket s = some r → outputs' socket s = some r)
    (hinference : ∀ node key s r, inference node key s = some r → inference' node key s = some r) (t : Steps α) :
    ∀ s r, t.run outputs inference s = some r → t.run outputs' inference' s = some r := by
  induction t with
  | done a => exact fun s r h => h
  | report e next ih => exact fun s r h => ih _ _ h
  | compute socket next ih =>
    intro s r h
    rw [run, Eval.bind_apply, Option.bind_eq_some_iff] at h ⊢
    obtain ⟨q, hq, hnext⟩ := h
    exact ⟨q, houtputs socket s q hq, ih _ _ _ hnext⟩
  | infer node key next ih =>
    intro s r h
    rw [run, Eval.bind_apply, Option.bind_eq_some_iff] at h ⊢
    obtain ⟨q, hq, hnext⟩ := h
    exact ⟨q, hinference node key s q hq, ih _ _ _ hnext⟩

namespace Compiler

/-- Carries a tree out with at most so many steps nested in it. -/
def runAt {α : Type} (n : Nat) (c : Compiler) (t : Steps α) : Eval α :=
  t.run (outputAt n c) (c.inferWith (outputAt n c.inference))

variable {c : Compiler} {α : Type} {n m : Nat} {node key : String} {socket : Socket} {schema : Schema} {p : Property}
  {marks : List Socket} {s s' : Session}

theorem runAt_compute (next : Outcome (Option Value) → Steps α) :
    runAt n c (.compute socket next) s = (outputAt n c socket s).bind fun q => runAt n c (next q.1) q.2 := rfl

theorem runAt_infer (next : Outcome (Option Ty) → Steps α) :
    runAt n c (.infer node key next) s =
      (c.inferWith (outputAt n c.inference) node key s).bind fun q => runAt n c (next q.1) q.2 := rfl

theorem outputAt_unknown {e : Error} (hprop : c.property socket.node socket.key = .error e) :
    outputAt (n + 1) c socket s = some (.error e, s) := by
  rw [outputAt_succ, outputWith_eq, hprop]

theorem outputAt_cycle (hprop : c.property socket.node socket.key = .ok (schema, p)) (hmark : socket ∈ s.inProgress) :
    outputAt (n + 1) c socket s = some (.ok none, s.raise [cycleWarning socket schema]) := by
  rw [outputAt_succ, outputWith_eq, hprop]
  exact if_pos hmark

theorem outputAt_entered (hprop : c.property socket.node socket.key = .ok (schema, p)) (hmark : socket ∉ s.inProgress) :
    outputAt (n + 1) c socket s =
      (runAt n c (c.outputSteps socket schema p) (s.mark socket)).map fun q => (.ok q.1, q.2.unmark socket) := by
  rw [outputAt_succ, outputWith_eq, hprop]
  exact if_neg hmark

theorem run_inputSteps (c : Compiler) (n : Nat) (inference : Inference) (s : Session) :
    (c.inputSteps node key).run (outputAt n c) inference s = runAt n c (c.inputSteps node key) s :=
  (c.within_inputSteps node key).run_congr (c.framed_outputAt n) (fun _ _ _ _ => rfl) s rfl

theorem inferWith_eq : c.inferWith (outputAt n c.inference) node key s =
    (runAt n c.inference (c.inference.inputSteps node key) {}).map fun q =>
      (typeFound q.1, s.raise (handedOver q.1 q.2.events)) := by
  rw [inferWith_apply, c.inference.inputWith_eq_run _ fun _ _ => Eval.endless, run_inputSteps]
  cases runAt n c.inference (c.inference.inputSteps node key) {} with
  | none => rfl
  | some q =>
    obtain ⟨r, inner⟩ := q
    cases r with
    | error e => simp [typeFound, Except.map, handedOver]
    | ok v => simp [typeFound, Except.map, handedOver]

theorem inferWith_mono {types types' : Outputs} (h : ∀ socket s r, types socket s = some r → types' socket s = some r)
    (s : Session) (r : Outcome (Option Ty) × Session) (hr : c.inferWith types node key s = some r) :
    c.inferWith types' node key s = some r := by
  rw [inferWith_apply, c.inference.inputWith_eq_run _ fun _ _ => Eval.endless] at hr ⊢
  cases hrun : (c.inference.inputSteps node key).run types (fun _ _ => Eval.endless) {} with
  | none =>
    rw [hrun] at hr
    cases hr
  | some q =>
    rw [hrun] at hr
    rwa [Steps.run_mono h (fun _ _ _ _ h => h) _ _ _ hrun]

theorem outputAt_mono {r : Outcome (Option Value) × Session} (hnm : n ≤ m) (h : outputAt n c socket s = some r) :
    outputAt m c socket s = some r := by
  induction n generalizing m c socket s r with
  | zero => cases h
  | succ n ih =>
    obtain ⟨m, rfl⟩ : ∃ k, m = k + 1 := ⟨m - 1, by omega⟩
    have hle : n ≤ m := by omega
    cases hprop : c.property socket.node socket.key with
    | error e =>
      rw [outputAt_unknown hprop] at h ⊢
      exact h
    | ok found =>
      obtain ⟨schema, p⟩ := found
      by_cases hmark : socket ∈ s.inProgress
      · rw [outputAt_cycle hprop hmark] at h ⊢
        exact h
      · rw [outputAt_entered hprop hmark] at h ⊢
        obtain ⟨q, hq, rfl⟩ := Option.map_eq_some_iff.mp h
        have hrun : runAt m c (c.outputSteps socket schema p) (s.mark socket) = some q :=
          Steps.run_mono (fun _ _ _ h => ih hle h) (fun _ _ => inferWith_mono fun _ _ _ h => ih hle h) _ _ _ hq
        rw [hrun]
        rfl

theorem runAt_mono {t : Steps α} {r : α × Session} (hnm : n ≤ m) (h : runAt n c t s = some r) :
    runAt m c t s = some r :=
  Steps.run_mono (fun _ _ _ h => outputAt_mono hnm h) (fun _ _ => inferWith_mono fun _ _ _ h => outputAt_mono hnm h)
    _ _ _ h

/-! ### The evaluator follows the rules -/

theorem Gives.compute {next : Outcome (Option Value) → Steps α} {r : Outcome (Option Value)} {a : α}
    {inner log : List Raised} (hr : c.Gives marks (.compute socket .done) r inner) (h : c.Gives marks (next r) a log) :
    c.Gives marks (.compute socket next) a (inner ++ log) := by
  cases hr with
  | unknown hprop hdone =>
    cases hdone
    exact .unknown hprop h
  | cycle hprop hmark hdone =>
    cases hdone
    exact .cycle hprop hmark h
  | output hprop hmark hv hdone =>
    cases hdone
    rw [List.append_nil]
    exact .output hprop hmark hv h

theorem gives_of_run {outputs : Outputs} {inference : Inference}
    (houtputs : ∀ socket s r s', outputs socket s = some (r, s') →
      ∃ log, c.Gives s.inProgress (.compute socket .done) r log ∧ s' = s.raise (kept log))
    (hinference : ∀ node key s r s', inference node key s = some (r, s') →
      ∃ v log, c.inference.Gives [] (c.inference.inputSteps node key) v log ∧ r = typeFound v ∧
        s' = s.raise (kept (handOver v log)))
    (t : Steps α) : ∀ s a s', t.run outputs inference s = some (a, s') →
      ∃ log, c.Gives s.inProgress t a log ∧ s' = s.raise (kept log) := by
  induction t with
  | done a =>
    intro s a s' h
    cases h
    exact ⟨[], .done a, by simp⟩
  | report e next ih =>
    intro s a s' h
    obtain ⟨log, hgives, rfl⟩ := ih (s.raise [e]) a s' h
    exact ⟨_, .report hgives, by simp⟩
  | compute socket next ih =>
    intro s a s' h
    rw [Steps.run, Eval.bind_apply, Option.bind_eq_some_iff] at h
    obtain ⟨⟨r, s₁⟩, hr, hnext⟩ := h
    obtain ⟨inner, hfirst, rfl⟩ := houtputs socket s r s₁ hr
    obtain ⟨log, hgives, rfl⟩ := ih r _ a s' hnext
    exact ⟨inner ++ log, hfirst.compute hgives, by simp⟩
  | infer node key next ih =>
    intro s a s' h
    rw [Steps.run, Eval.bind_apply, Option.bind_eq_some_iff] at h
    obtain ⟨⟨r, s₁⟩, hr, hnext⟩ := h
    obtain ⟨v, inner, hfirst, rfl, rfl⟩ := hinference node key s r s₁ hr
    obtain ⟨log, hgives, rfl⟩ := ih _ _ a s' hnext
    exact ⟨handOver v inner ++ log, .infer hfirst hgives, by simp⟩

theorem gives_of_inferWith {r : Outcome (Option Ty)}
    (houtputs : ∀ socket s r s', outputAt n c.inference socket s = some (r, s') →
      ∃ log, c.inference.Gives s.inProgress (.compute socket .done) r log ∧ s' = s.raise (kept log))
    (h : c.inferWith (outputAt n c.inference) node key s = some (r, s')) :
    ∃ v log, c.inference.Gives [] (c.inference.inputSteps node key) v log ∧ r = typeFound v ∧
      s' = s.raise (kept (handOver v log)) := by
  rw [inferWith_eq, Option.map_eq_some_iff] at h
  obtain ⟨⟨v, inner⟩, hrun, heq⟩ := h
  cases heq
  rw [← run_inputSteps _ _ fun _ _ => Eval.endless] at hrun
  obtain ⟨log, hgives, rfl⟩ := gives_of_run houtputs (fun _ _ _ _ _ h => by cases h) _ _ _ _ hrun
  exact ⟨v, log, hgives, rfl, by simp⟩

theorem gives_of_outputAt {r : Outcome (Option Value)} (h : outputAt n c socket s = some (r, s')) :
    ∃ log, c.Gives s.inProgress (.compute socket .done) r log ∧ s' = s.raise (kept log) := by
  induction n generalizing c socket s r s' with
  | zero => cases h
  | succ n ih =>
    cases hprop : c.property socket.node socket.key with
    | error e =>
      rw [outputAt_unknown hprop] at h
      cases h
      exact ⟨[], .unknown hprop (.done _), by simp⟩
    | ok found =>
      obtain ⟨schema, p⟩ := found
      by_cases hmark : socket ∈ s.inProgress
      · rw [outputAt_cycle hprop hmark] at h
        cases h
        exact ⟨_, .cycle hprop hmark (.done _), by simp⟩
      · rw [outputAt_entered hprop hmark, Option.map_eq_some_iff] at h
        obtain ⟨⟨v, s₁⟩, hrun, heq⟩ := h
        obtain ⟨log, hgives, rfl⟩ := gives_of_run (fun _ _ _ _ h => ih h)
          (fun _ _ _ _ _ h => gives_of_inferWith (fun _ _ _ _ h => ih h) h) _ _ _ _ hrun
        cases heq
        exact ⟨log ++ [], .output hprop hmark hgives (.done _), by simp⟩

/-- What the evaluator gives, the rules give, and the events that are added are those that were kept. -/
theorem gives_of_runAt {t : Steps α} {a : α} (h : runAt n c t s = some (a, s')) :
    ∃ log, c.Gives s.inProgress t a log ∧ s' = s.raise (kept log) :=
  gives_of_run (fun _ _ _ _ h => gives_of_outputAt h)
    (fun _ _ _ _ _ h => gives_of_inferWith (fun _ _ _ _ h => gives_of_outputAt h) h) _ _ _ _ h

/-! ### What an inference hands over -/

theorem gives_of_infer {r : Outcome (Option Ty)} (h : c.infer node key s = some (r, s')) :
    ∃ v log, c.inference.Gives [] (c.inference.inputSteps node key) v log ∧ r = typeFound v ∧
      s' = s.raise (kept (handOver v log)) :=
  gives_of_inferWith (fun _ _ _ _ h => gives_of_outputAt h) h

/-- **An inference hands over what was raised in it, in order, unless it fails.** What is raised while a type is
inferred is determined by the rules. An inference that finds a type or none adds all of it to the session but for what
other inferences lost on the way, and one that fails adds nothing. So nothing is lost just when no inference on
the way had lost anything, and this one did not fail or had raised nothing. -/
theorem inference_hands_over (c : Compiler) (node key : String) (s s' : Session) (r : Outcome (Option Ty))
    (h : c.infer node key s = some (r, s')) :
    ∃ v log, (∀ v' log', c.inference.Gives [] (c.inference.inputSteps node key) v' log' ↔ v' = v ∧ log' = log) ∧
      r = typeFound v ∧
      (∀ type, r = .ok type → s' = s.raise (kept log)) ∧
      (∀ e, r = .error e → s' = s) ∧
      (s' = s.raise (log.map (·.event)) ↔ (∀ x ∈ log, x.lost = false) ∧ ∀ e, r = .error e → log = []) := by
  obtain ⟨v, log, hgives, rfl, rfl⟩ := gives_of_infer h
  have hrule : ∀ v' log', c.inference.Gives [] (c.inference.inputSteps node key) v' log' ↔ v' = v ∧ log' = log := by
    intro v' log'
    refine ⟨fun h' => hgives.unique h', ?_⟩
    rintro ⟨rfl, rfl⟩
    exact hgives
  refine ⟨v, log, hrule, rfl, ?_⟩
  cases v with
  | ok v => simp [typeFound, Except.map, handedOver, Session.raise_eq_raise_iff, kept_eq_map_iff]
  | error e =>
    have hnone : kept (handOver (.error e : Outcome (Option Value)) log) = [] := by simp [handedOver]
    rw [hnone]
    refine ⟨fun type h => (by cases h), fun _ _ => s.raise_nil, ?_⟩
    rw [Session.raise_eq_raise_iff]
    constructor
    · intro hempty
      obtain rfl : log = [] := List.map_eq_nil_iff.mp hempty.symm
      simp
    · intro hkept
      rw [hkept.2 e rfl]
      rfl

/-- A block whose type cannot be told. -/
def loud : Schema where
  name := "Loud"
  category := none
  isGlobal := false
  props :=
    [ { key := "out", type := ⟨"Int", none, [], {}, .empty, true⟩, direction := .output, multi := false,
        optional := false, callbacks := KeyMap.empty.insert typeKey fun _ => .fail "no type" } ]

/-- A block that takes any number of values. -/
def sink : Schema where
  name := "Sink"
  category := none
  isGlobal := false
  props :=
    [ { key := "in", type := ⟨"Int", none, [], {}, .empty, true⟩, direction := .input, multi := true,
        optional := false, callbacks := .empty } ]

/-- A sink of a loud node, and of a node that does not exist. -/
def leak : Compiler where
  graph := ⟨[.new "loud" "Loud", .new "sink" "Sink"],
    [⟨"loud", "out", "sink", "in"⟩, ⟨"ghost", "out", "sink", "in"⟩], {}⟩
  catalog := ⟨[loud, sink]⟩
  registry := .empty
  compileKey := motokoKey

/-- The type pass over the sink raises a warning before it fails, and the warning does not arrive. -/
theorem inference_hands_over_leak :
    ∃ v log, leak.inference.Gives [] (leak.inference.inputSteps "sink" "in") v log ∧ log ≠ [] ∧
      leak.infer "sink" "in" {} = some (typeFound v, {}) := by
  have hinfer : leak.infer "sink" "in" {} = some (.error (.unknownNode "ghost"), {}) := rfl
  obtain ⟨v, log, hrule, hv, -, -, hlost⟩ := inference_hands_over leak "sink" "in" {} {} _ hinfer
  have hpass : leak.inference.input "sink" "in" {} =
      some (.error (.unknownNode "ghost"), ({} : Session).raise [.warning "loud" "Loud" "out" "no type"]) := rfl
  obtain ⟨log', hgives, hlog'⟩ := gives_of_runAt ((leak.inference.input_eq_execute "sink" "in") ▸ hpass)
  obtain ⟨rfl, rfl⟩ := (hrule _ _).mp hgives
  refine ⟨_, _, hgives, ?_, hinfer⟩
  rintro rfl
  cases hlog'

theorem inference_loses_events :
    leak.inference.input "sink" "in" {} =
      some (.error (.unknownNode "ghost"), ({} : Session).raise [.warning "loud" "Loud" "out" "no type"]) ∧
    leak.infer "sink" "in" {} = some (.error (.unknownNode "ghost"), {}) :=
  ⟨rfl, rfl⟩

end Compiler

end BlockGraph
