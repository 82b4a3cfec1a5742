import BlockGraph.Proofs.Evaluation.Termination

/-!
# Requests leave nothing behind

Between two requests a compiler keeps its session and nothing else. Every request carries out a tree of steps,
as programs do, and may then hand out the collected events (`perform_eq`). The tree takes back its marks, so
however many requests were made, and however they ended, no output is marked when the next one comes.

* `inProgress_perform` and `inProgress_performAll`: one request and a history of them keep the marks;
* `requests_independent`: what is computed after a history is what a fresh compiler computes.
-/

namespace BlockGraph

namespace Compiler

variable (c : Compiler)

/-- Makes a request. What is answered is left out. -/
def perform (q : Request) : Eval Unit := (fun _ => ()) <$> c.serve q

def performAll : List Request → Eval Unit
  | [] => pure ()
  | q :: rest => do
    c.perform q
    performAll rest

/-! ### Requests as trees of steps -/

def prefetchSteps (args : Arguments) : List String → Steps (Outcome Unit × Arguments)
  | [] => .done (.ok (), args)
  | key :: rest => (c.argumentSteps args key).bind fun
    | (.error e, args) => .done (.error e, args)
    | (.ok _, args) => prefetchSteps args rest

def compileSteps : List Socket → Steps (Outcome (List CompiledOutput))
  | [] => .done (.ok [])
  | t :: rest =>
    match c.schema t.node with
    | .error e => .done (.error e)
    | .ok schema => .compute t fun
      | .error e => .done (.error e)
      | .ok value => (compileSteps rest).bind fun
        | .error e => .done (.error e)
        | .ok outputs => .done (.ok (⟨t.node, schema.name, t.key, value⟩ :: outputs))

/-- The tree that a request carries out. -/
def requestSteps : Request → Steps Unit
  | .output node key => .compute ⟨node, key⟩ fun _ => .done ()
  | .input node key => (c.inputSteps node key).bind fun _ => .done ()
  | .infer node key => .infer node key fun _ => .done ()
  | .arguments _ => .done ()
  | .argument args key => (c.argumentSteps args key).bind fun _ => .done ()
  | .text args key => (c.argumentSteps args key).bind fun _ => .done ()
  | .texts args key => (c.argumentSteps args key).bind fun _ => .done ()
  | .prefetch args => (c.prefetchSteps args args.schema.argumentKeys).bind fun _ => .done ()
  | .compileOutputs targets => (c.compileSteps targets).bind fun _ => .done ()
  | .compileProgram =>
    match c.programTargets with
    | .error _ => .done ()
    | .ok targets => (c.compileSteps targets).bind fun _ => .done ()
  | .events => .done ()
  | .takeEvents => .done ()

/-- Carries a tree out with the outputs and types of the compiler. -/
def execute {α : Type} (t : Steps α) : Eval α :=
  t.run (outputAt c.depth c) (c.inferWith (outputAt c.depth c.inference))

theorem framed_execute {α : Type} (t : Steps α) : (c.execute t).Framed :=
  Steps.framed_run (c.framed_outputAt c.depth) (c.framed_inferWith _) t

theorem execute_bind_done {α : Type} (t : Steps α) :
    c.execute (t.bind fun _ => .done ()) = (fun _ => ()) <$> c.execute t := by
  unfold execute
  rw [Steps.run_bind, map_eq_pure_bind]
  rfl

theorem input_eq_execute (node key : String) : c.input node key = c.execute (c.inputSteps node key) :=
  c.inputWith_eq_run _ _ node key

theorem argument_eq_execute (args : Arguments) (key : String) :
    c.argument args key = c.execute (c.argumentSteps args key) :=
  c.argument_levelWith _ _ args key

theorem argumentsOf_eq_execute (args : Arguments) (keys : List String) :
    c.argumentsOf args keys = c.execute (c.prefetchSteps args keys) := by
  unfold execute
  induction keys generalizing args with
  | nil => rfl
  | cons key rest ih =>
    rw [argumentsOf_cons, prefetchSteps, Steps.run_bind, argument_eq_execute, execute]
    refine bind_congr fun r => ?_
    obtain ⟨result, args'⟩ := r
    cases result with
    | error e => rfl
    | ok v => exact ih args'

theorem compileEach_eq_execute (targets : List Socket) : c.compileEach targets = c.execute (c.compileSteps targets) := by
  unfold execute
  induction targets with
  | nil => rfl
  | cons t rest ih =>
    rw [compileEach_cons, compileSteps]
    cases c.schema t.node with
    | error e => rfl
    | ok schema =>
      dsimp only
      rw [Steps.run]
      refine bind_congr fun r => ?_
      cases r with
      | error e => rfl
      | ok value =>
        dsimp only
        rw [Steps.run_bind, ← ih]
        refine bind_congr fun outputs => ?_
        cases outputs <;> rfl

theorem compileOutputs_eq (targets : List Socket) (s : Session) :
    ((fun _ => ()) <$> c.compileOutputs targets) s = c.execute ((c.compileSteps targets).bind fun _ => .done ()) s ∨
    ((fun _ => ()) <$> c.compileOutputs targets) s =
      (c.execute ((c.compileSteps targets).bind fun _ => .done ()) s).map fun r => ((), r.2.handOut) := by
  rw [execute_bind_done, ← compileEach_eq_execute]
  simp only [map_eq_pure_bind, Eval.bind_apply, compileOutputs_eq_bind]
  cases c.compileEach targets s with
  | none => exact .inl rfl
  | some r =>
    obtain ⟨result, s'⟩ := r
    cases result with
    | error e => exact .inl rfl
    | ok outputs => exact .inr rfl

theorem argument_map_eq {α : Type} (f : Outcome (Option Value) × Arguments → α) (args : Arguments) (key : String) :
    (fun _ => ()) <$> f <$> c.argument args key = c.execute ((c.argumentSteps args key).bind fun _ => .done ()) := by
  rw [Functor.map_map, execute_bind_done, argument_eq_execute]

/-- A request carries out its tree, and may hand out the collected events in the end. -/
theorem perform_eq (q : Request) (s : Session) :
    c.perform q s = c.execute (c.requestSteps q) s ∨
    c.perform q s = (c.execute (c.requestSteps q) s).map fun r => ((), r.2.handOut) := by
  cases q with
  | output node key => left; rw [perform, map_eq_pure_bind]; rfl
  | input node key => left; rw [requestSteps, execute_bind_done, ← input_eq_execute]; rfl
  | infer node key => left; rw [perform, map_eq_pure_bind]; rfl
  | arguments node => exact .inl rfl
  | argument args key => left; rw [requestSteps, execute_bind_done, ← argument_eq_execute]; rfl
  | text args key => left; rw [requestSteps, ← c.argument_map_eq (Level.reshape Value.textOf)]; rfl
  | texts args key => left; rw [requestSteps, ← c.argument_map_eq (Level.reshape Value.texts)]; rfl
  | prefetch args => left; rw [requestSteps, execute_bind_done, ← argumentsOf_eq_execute]; rfl
  | compileOutputs targets => exact c.compileOutputs_eq targets s
  | compileProgram =>
    have hperform : c.perform .compileProgram = (fun _ => ()) <$> c.compileProgram := rfl
    rw [hperform, requestSteps, compileProgram_eq_bind]
    cases c.programTargets with
    | error e => exact .inl rfl
    | ok targets => exact c.compileOutputs_eq targets s
  | events => exact .inl rfl
  | takeEvents => exact .inr rfl

/-! ### Requests end -/

theorem within_prefetchSteps (args : Arguments) (keys : List String) :
    (c.prefetchSteps args keys).Within (fun _ => True) fun _ => True := by
  induction keys generalizing args with
  | nil => exact trivial
  | cons key rest ih =>
    have hread := (c.within_argumentSteps args key).mono (fun _ _ => trivial) fun _ h => h
    refine hread.bind fun r _ => ?_
    obtain ⟨result, args'⟩ := r
    cases result with
    | error e => exact trivial
    | ok v => exact ih args'

theorem within_compileSteps (targets : List Socket) :
    (c.compileSteps targets).Within (fun _ => True) fun _ => True := by
  induction targets with
  | nil => exact trivial
  | cons t rest ih =>
    unfold compileSteps
    cases c.schema t.node with
    | error e => exact trivial
    | ok schema =>
      refine ⟨trivial, fun r => ?_⟩
      cases r with
      | error e => exact trivial
      | ok v =>
        refine ih.bind fun outputs _ => ?_
        cases outputs <;> exact trivial

theorem within_requestSteps {q : Request} (hq : ∀ node key, q ≠ .infer node key) :
    (c.requestSteps q).Within (fun _ => True) fun _ => True := by
  have hread : ∀ args key,
      ((c.argumentSteps args key).bind fun _ => .done ()).Within (fun _ => True) fun _ => True := fun args key =>
    ((c.within_argumentSteps args key).mono (fun _ _ => trivial) fun _ h => h).bind fun _ _ => trivial
  cases q with
  | output node key => exact ⟨trivial, fun _ => trivial⟩
  | input node key =>
    have hinput := (c.within_inputSteps node key).mono (fun _ _ => trivial) fun _ h => h
    exact hinput.bind fun _ _ => trivial
  | infer node key => exact absurd rfl (hq node key)
  | argument args key => exact hread args key
  | text args key => exact hread args key
  | texts args key => exact hread args key
  | prefetch args => exact (c.within_prefetchSteps args _).bind fun _ _ => trivial
  | compileOutputs targets => exact (c.within_compileSteps targets).bind fun _ _ => trivial
  | compileProgram =>
    unfold requestSteps
    cases c.programTargets with
    | error e => exact trivial
    | ok targets => exact (c.within_compileSteps targets).bind fun _ _ => trivial
  | arguments _ | events | takeEvents => exact trivial

variable {c} {q : Request} {history : List Request} {s s' : Session}

theorem infer_isSome (htypes : c.inference.InferFree) (node key : String) (s : Session) :
    (c.infer node key s).isSome := by
  obtain ⟨⟨result, inner⟩, hinput⟩ := Option.isSome_iff_exists.mp (input_isSome htypes node key {})
  have hread : c.inference.inputWith (outputAt c.depth c.inference) node key {} = some (result, inner) := hinput
  rw [infer, inferWith_apply, hread]
  cases result <;> rfl

theorem perform_isSome (hc : c.InferFree) (htypes : c.inference.InferFree) (q : Request) (s : Session) :
    (c.perform q s).isSome := by
  by_cases hq : ∃ node key, q = .infer node key
  · obtain ⟨node, key, rfl⟩ := hq
    obtain ⟨r, hr⟩ := Option.isSome_iff_exists.mp (infer_isSome htypes node key s)
    have hperform : c.perform (.infer node key) = (fun _ => ()) <$> c.infer node key := rfl
    rw [hperform, Eval.map_apply, hr]
    rfl
  · have hexecute : (c.execute (c.requestSteps q) s).isSome :=
      c.within_isSome hc (c.within_requestSteps fun node key heq => hq ⟨node, key, heq⟩) _ s
    rcases c.perform_eq q s with heq | heq
    · rw [heq]
      exact hexecute
    · rw [heq, Option.isSome_map]
      exact hexecute

theorem performAll_isSome (hc : c.InferFree) (htypes : c.inference.InferFree) (history : List Request) (s : Session) :
    (c.performAll history s).isSome := by
  induction history generalizing s with
  | nil => rfl
  | cons q rest ih =>
    obtain ⟨⟨_, s'⟩, hfirst⟩ := Option.isSome_iff_exists.mp (perform_isSome hc htypes q s)
    rw [performAll, Eval.bind_apply, hfirst]
    exact ih s'

/-! ### Marks after a history of requests -/

/-- What a request does to its session: it adds events, and collects or hands them out. -/
theorem perform_eq_some (h : c.perform q s = some ((), s')) :
    ∃ es, (c.execute (c.requestSteps q)).observe s.inProgress = some ((), es) ∧
      s'.inProgress = s.inProgress ∧ s'.heard = s.heard ++ es := by
  rcases c.perform_eq q s with heq | heq
  · rw [heq] at h
    obtain ⟨es, hobserve, rfl⟩ := (c.framed_execute _).apply_eq_some h
    exact ⟨es, hobserve, rfl, rfl⟩
  · rw [heq] at h
    obtain ⟨⟨_, s₁⟩, hrun, hs₁⟩ := Option.map_eq_some_iff.mp h
    obtain ⟨es, hobserve, rfl⟩ := (c.framed_execute _).apply_eq_some hrun
    cases hs₁
    exact ⟨es, hobserve, rfl, rfl⟩

theorem inProgress_perform (h : c.perform q s = some ((), s')) : s'.inProgress = s.inProgress := by
  obtain ⟨_, _, hmarks, _⟩ := perform_eq_some h
  exact hmarks

theorem inProgress_performAll (h : c.performAll history s = some ((), s')) : s'.inProgress = s.inProgress := by
  induction history generalizing s with
  | nil =>
    cases h
    rfl
  | cons q rest ih =>
    rw [performAll, Eval.bind_apply, Option.bind_eq_some_iff] at h
    obtain ⟨⟨_, s₁⟩, hfirst, hrest⟩ := h
    have hmarks := inProgress_perform hfirst
    rw [ih hrest, hmarks]

theorem output_apply (node key : String) (hs : s.inProgress = []) :
    c.output node key s = (c.output node key {}).map fun r => (r.1, s.raise r.2.events) := by
  have hframed := c.framed_outputAt c.depth ⟨node, key⟩
  rw [output, hframed s, hs, Eval.observe, Option.map_map]
  rfl

theorem input_apply (node key : String) (hs : s.inProgress = []) :
    c.input node key s = (c.input node key {}).map fun r => (r.1, s.raise r.2.events) := by
  rw [input_eq_execute, c.framed_execute _ s, hs, Eval.observe, Option.map_map]
  rfl

/-- **No request leaves a trace in the ones after it.** After any requests, whether they were answered or refused,
an output and an input have the value or the error that they have on a fresh compiler, and the events that are
added are those that are raised there. All these requests end unless programs ask for types. -/
theorem requests_independent (c : Compiler) :
    (∀ history s, c.performAll history {} = some ((), s) → ∀ node key,
      (c.output node key s = (c.output node key {}).map fun r => (r.1, s.raise r.2.events)) ∧
      (c.input node key s = (c.input node key {}).map fun r => (r.1, s.raise r.2.events))) ∧
    (c.InferFree → ∀ node key, (c.output node key {}).isSome ∧ (c.input node key {}).isSome) ∧
    (c.InferFree → c.inference.InferFree → ∀ history, (c.performAll history {}).isSome) := by
  refine ⟨?_, ?_, fun hc htypes history => performAll_isSome hc htypes history {}⟩
  · intro history s h node key
    have hs : s.inProgress = [] := inProgress_performAll h
    exact ⟨output_apply node key hs, input_apply node key hs⟩
  · intro hc node key
    exact ⟨output_isSome hc ⟨node, key⟩ {}, input_isSome hc node key {}⟩

/-! ### Requests to a ring -/

/-- Requests that run into a cycle, into an unknown property and into an unknown node. -/
def ringHistory : List Request :=
  [.output "a" "out", .input "a" "none", .takeEvents, .argument ⟨"a", echo, []⟩ "in", .infer "a" "in",
    .prefetch ⟨"b", echo, [("in", none)]⟩, .compileOutputs [⟨"b", "out"⟩, ⟨"c", "out"⟩]]

/-- After these requests, seven events of which are still collected, the ring is computed as by a fresh compiler:
one warning about the cycle, and two inputs that are missing. -/
theorem requests_independent_ring :
    ∃ s, ring.performAll ringHistory {} = some ((), s) ∧ s.events.length = 7 ∧
      ring.output "a" "out" s = some (.ok none, s.raise
        [.warning "a" "Echo" "out" "Cycle detected while compiling a.out", .missingInput "b" "Echo" "in",
          .missingInput "a" "Echo" "in"]) := by
  obtain ⟨s, hs⟩ : ∃ s, ring.performAll ringHistory {} = some ((), s) := ⟨_, rfl⟩
  have hlength : (ring.performAll ringHistory {}).map (·.2.events.length) = some 7 := rfl
  rw [hs] at hlength
  refine ⟨s, hs, Option.some.inj hlength, ?_⟩
  rw [((requests_independent ring).1 ringHistory s hs "a" "out").1]
  rfl

end Compiler

end BlockGraph
