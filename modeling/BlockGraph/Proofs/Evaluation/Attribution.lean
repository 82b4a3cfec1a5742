import BlockGraph.Proofs.Evaluation.Ledger

/-!
# Events name the property that they are about

Node, block and key of an event come from different places: the arguments of a node carry its id and its schema, an
output is known by its socket, and what is raised in an inference is handed to the pass around it. Wherever an event
is raised, they belong together (`Compiler.Attributed`), as long as the arguments that are read from are those of a node
(`Compiler.Owns`). A compiler gives no others, so this is a policy that it keeps to itself (`Policy.sound_owning`), and
what scripts do that read from the arguments that they are given, in the last step of a value too, is attributed.

An evaluation that does not end has raised events as well. `Compiler.Emits` says which events are raised when the tree
of a program is carried out, at any depth, in inferences too, and whether it ends or not (`Gives.emits`); they are
attributed because the trees of the evaluator report no others themselves (`Steps.Reports`).
-/

namespace BlockGraph

/-- The event tells of an argument that is missing. -/
def Event.IsMissing : Event → Prop
  | .missingInput _ _ _ => True
  | .warning _ _ _ _ => False

/-- The property can be missing: it is a required input or control, and no input that takes many connections. -/
structure Property.CanMiss (p : Property) : Prop where
  argument : p.isOutput = false
  required : p.optional = false
  single : p.direction = .input → p.multi = false

namespace Compiler

variable (c : Compiler)

/-- The event says what it is about: its node is in the graph, its block is the name of the schema of that node, and
its key is declared there. What it tells to be missing can be missing. -/
def Attributed (e : Event) : Prop :=
  ∃ node schema p, c.graph.node? e.node = some node ∧ c.catalog.get? node.block = some schema ∧
    e.block = schema.name ∧ schema.prop? e.key = some p ∧ (e.IsMissing → p.CanMiss)

/-- The arguments are those of a node, with its schema. -/
def Owns (args : Arguments) : Prop := c.schema args.node = .ok args.schema

variable {c} {args : Arguments} {node key message : String} {socket : Socket} {schema : Schema} {p : Property}

theorem attributed_warning (h : c.property node key = .ok (schema, p)) :
    c.Attributed (.warning node schema.name key message) := by
  obtain ⟨hschema, hprop⟩ := property_eq_ok_iff.mp h
  obtain ⟨n, hnode, hget⟩ := schema_eq_ok_iff.mp hschema
  exact ⟨n, schema, p, hnode, hget, rfl, hprop, False.elim⟩

theorem attributed_missingInput (h : c.property node key = .ok (schema, p)) (hp : p.CanMiss) :
    c.Attributed (.missingInput node schema.name key) := by
  obtain ⟨hschema, hprop⟩ := property_eq_ok_iff.mp h
  obtain ⟨n, hnode, hget⟩ := schema_eq_ok_iff.mp hschema
  exact ⟨n, schema, p, hnode, hget, rfl, hprop, fun _ => hp⟩

theorem owns_of_arguments (h : c.arguments node = .ok args) : c.Owns args := by
  obtain ⟨schema, hschema, h⟩ := bind_eq_ok_iff.mp h
  cases h
  exact hschema

end Compiler

/-! ### Scripts that read from the arguments of nodes -/

namespace Policy

/-- Events name what they are about, and arguments are read from that are those of a node. Events may be taken. -/
def owning : Policy := ⟨Compiler.Attributed, Compiler.Owns, True⟩

theorem sound_owning : owning.Sound where
  warning _ h := Compiler.attributed_warning h
  missing hargs hprop hargument hrequired hsingle := by
    have hproperty := Compiler.property_eq_ok_iff.mpr ⟨hargs, hprop⟩
    exact Compiler.attributed_missingInput hproperty ⟨hargument, hrequired, hsingle _ _ hproperty⟩
  fresh h := Compiler.owns_of_arguments h
  known _ hargs := hargs
  -- an inference works on the same graph and catalog
  inference h := h

end Policy

theorem Scripts.Obey.attributed {k : Scripts} {n : Nat} {c : Compiler} {α : Type} {t : Script α} {a : α} {s : Session}
    {e : Event} (hk : k.Obey .owning) (ht : t.Obeys .owning c) (h : k.runAt n c t {} = some (a, s)) (he : e ∈ s.heard) :
    c.Attributed e := by
  obtain ⟨-, ms, hms, rfl⟩ := hk.does_runAt Policy.sound_owning n ht {} a s h
  rw [Session.heard_after] at he
  exact hms _ (Move.mem_raised.mp he)

/-! ### What a tree reports -/

namespace Steps

variable {α β : Type}

/-- Whatever it is answered, the tree itself reports events of one kind only and ends only as allowed. -/
def Reports (kind : Event → Prop) (ends : α → Prop) : Steps α → Prop
  | .done a => ends a
  | .report e next => kind e ∧ next.Reports kind ends
  | .compute _ next => ∀ r, (next r).Reports kind ends
  | .infer _ _ next => ∀ r, (next r).Reports kind ends

theorem Reports.bind {kind : Event → Prop} {ends : α → Prop} {ends' : β → Prop} {t : Steps α} {f : α → Steps β}
    (h : t.Reports kind ends) (hf : ∀ a, ends a → (f a).Reports kind ends') : (t.bind f).Reports kind ends' := by
  induction t with
  | done a => exact hf a h
  | report e next ih => exact ⟨h.1, ih h.2⟩
  | compute socket next ih => exact fun r => ih r (h r)
  | infer node key next ih => exact fun r => ih r (h r)

end Steps

namespace Compiler

variable {c : Compiler} {args : Arguments} {node key : String} {socket : Socket} {schema : Schema} {p : Property}

/-! ### The trees of the evaluator -/

theorem reports_gatherSteps {kind : Event → Prop} (peers : List Socket) :
    (gatherSteps peers).Reports kind fun _ => True := by
  induction peers with
  | nil => trivial
  | cons socket rest ih =>
    intro r
    cases r with
    | error e => trivial
    | ok v =>
      refine ih.bind fun vs _ => ?_
      cases vs <;> trivial

theorem reports_inputSteps {kind : Event → Prop} (node key : String) :
    (c.inputSteps node key).Reports kind fun r => r = .ok none →
      ∀ schema p, c.property node key = .ok (schema, p) → p.direction = .input → p.multi = false := by
  rw [inputSteps]
  cases hprop : c.property node key with
  | error e => exact fun h => by cases h
  | ok found =>
    obtain ⟨schema, p⟩ := found
    cases hdir : p.direction with
    | output | control =>
      simp only [hdir, Steps.Reports]
      rintro - schema' p' heq hinput
      cases heq
      rw [hdir] at hinput
      cases hinput
    | input =>
      simp only [hdir]
      cases hmulti : p.multi with
      | true =>
        rw [connectedSteps, if_pos hmulti]
        refine (reports_gatherSteps _).bind fun vs _ habsent => ?_
        cases vs <;> cases habsent
      | false =>
        have hsingle : ∀ schema' p', Except.ok (schema, p) = (Except.ok (schema', p') : Outcome _) →
            p'.direction = .input → p'.multi = false := by
          rintro schema' p' heq -
          cases heq
          exact hmulti
        rw [connectedSteps, if_neg (by simp [hmulti])]
        cases c.graph.peers node (inputSide p) p.key with
        | nil => exact fun _ => hsingle
        | cons peer rest => exact fun _ _ => hsingle

theorem reports_argumentSteps (hargs : c.Owns args) (key : String) :
    (c.argumentSteps args key).Reports c.Attributed fun r => c.Owns r.2 := by
  rw [argumentSteps]
  cases args.known.find? (·.1 == key) with
  | some known => exact hargs
  | none =>
    cases hprop : args.schema.prop? key with
    | none => exact hargs
    | some p =>
      have hproperty : c.property args.node key = .ok (args.schema, p) := property_eq_ok_iff.mpr ⟨hargs, hprop⟩
      dsimp only
      split
      · exact hargs
      · next houtput =>
        refine (reports_inputSteps args.node key).bind fun r hr => ?_
        cases r with
        | error e => exact hargs
        | ok v =>
          dsimp only
          split
          · next habsent =>
            obtain ⟨hnone, hrequired⟩ : v = none ∧ p.optional = false := by simpa using habsent
            subst hnone
            refine ⟨attributed_missingInput hproperty ?_, hargs⟩
            exact ⟨by simpa using houtput, hrequired, hr rfl args.schema p hproperty⟩
          · exact hargs

theorem reports_answerSteps (hargs : c.Owns args) (q : Query) :
    (c.answerSteps args q).Reports c.Attributed fun r => c.Owns r.2 := by
  cases q with
  | argument key => exact reports_argumentSteps hargs key
  | argumentOf node key =>
    rw [answerSteps]
    cases hfresh : c.arguments node with
    | error e => exact hargs
    | ok fresh => exact (reports_argumentSteps (owns_of_arguments hfresh) key).bind fun _ _ => hargs
  | output node key => exact fun _ => hargs
  | input node key => exact (reports_inputSteps node key).bind fun _ _ => hargs
  | infer node key => exact fun _ => hargs
  | control node key => exact hargs
  | block node => exact hargs

theorem reports_programSteps (program : Program) (hargs : c.Owns args) :
    (c.programSteps program args).Reports c.Attributed fun _ => True := by
  induction program generalizing args with
  | done r => trivial
  | ask q next ih => exact (reports_answerSteps hargs q).bind fun r hr => ih r.1 hr

theorem reports_outputSteps (h : c.property socket.node socket.key = .ok (schema, p)) :
    (c.outputSteps socket schema p).Reports c.Attributed fun _ => True := by
  have hargs : c.Owns { node := socket.node, schema } := (property_eq_ok_iff.mp h).1
  refine (reports_programSteps _ hargs).bind fun r _ => ?_
  cases r with
  | ok v => trivial
  | error f => exact ⟨attributed_warning h, trivial⟩

theorem reports_prefetchSteps (hargs : c.Owns args) (keys : List String) :
    (c.prefetchSteps args keys).Reports c.Attributed fun r => c.Owns r.2 := by
  induction keys generalizing args with
  | nil => exact hargs
  | cons key rest ih =>
    refine (reports_argumentSteps hargs key).bind fun r hr => ?_
    obtain ⟨result, args'⟩ := r
    cases result with
    | error e => exact hr
    | ok v => exact ih hr

theorem reports_compileSteps {kind : Event → Prop} (targets : List Socket) :
    (c.compileSteps targets).Reports kind fun _ => True := by
  induction targets with
  | nil => trivial
  | cons t rest ih =>
    unfold compileSteps
    cases c.schema t.node with
    | error e => trivial
    | ok schema =>
      intro r
      cases r with
      | error e => trivial
      | ok v =>
        refine ih.bind fun outputs _ => ?_
        cases outputs <;> trivial

theorem reports_requestSteps {q : Request} (hq : ∀ args, q.reads? = some args → c.Owns args) :
    (c.requestSteps q).Reports c.Attributed fun _ => True := by
  have hread : ∀ key {args : Arguments}, c.Owns args →
      ((c.argumentSteps args key).bind fun _ => .done ()).Reports c.Attributed fun _ => True :=
    fun key _ hargs => (reports_argumentSteps hargs key).bind fun _ _ => trivial
  cases q with
  | output node key => exact fun _ => trivial
  | input node key => exact (reports_inputSteps node key).bind fun _ _ => trivial
  | infer node key => exact fun _ => trivial
  | argument args key => exact hread key (hq args rfl)
  | text args key => exact hread key (hq args rfl)
  | texts args key => exact hread key (hq args rfl)
  | prefetch args => exact (reports_prefetchSteps (hq args rfl) _).bind fun _ _ => trivial
  | compileOutputs targets => exact (reports_compileSteps targets).bind fun _ _ => trivial
  | compileProgram =>
    unfold requestSteps
    cases c.programTargets with
    | error e => trivial
    | ok targets => exact (reports_compileSteps targets).bind fun _ _ => trivial
  | arguments _ | events | takeEvents => trivial

/-! ### What is raised on the way -/

/-- Carrying out the tree under the marks comes to raising the event: in the tree itself, in an output that it computes
or in an inference. Neither need the tree end, nor need the event get out of the inference. -/
inductive Emits : Compiler → List Socket → {α : Type} → Steps α → Event → Prop
  | here {c : Compiler} {marks : List Socket} {α : Type} (e : Event) (next : Steps α) :
      Emits c marks (.report e next) e
  | report {c : Compiler} {marks : List Socket} {α : Type} {e e' : Event} {next : Steps α}
      (h : Emits c marks next e') : Emits c marks (.report e next) e'
  | cycle {c : Compiler} {marks : List Socket} {α : Type} {socket : Socket}
      {next : Outcome (Option Value) → Steps α} {schema : Schema} {p : Property}
      (hprop : c.property socket.node socket.key = .ok (schema, p)) (hmark : socket ∈ marks) :
      Emits c marks (.compute socket next) (cycleWarning socket schema)
  | entered {c : Compiler} {marks : List Socket} {α : Type} {socket : Socket}
      {next : Outcome (Option Value) → Steps α} {schema : Schema} {p : Property} {e : Event}
      (hprop : c.property socket.node socket.key = .ok (schema, p)) (hmark : socket ∉ marks)
      (h : Emits c (socket :: marks) (c.outputSteps socket schema p) e) : Emits c marks (.compute socket next) e
  | computed {c : Compiler} {marks : List Socket} {α : Type} {socket : Socket}
      {next : Outcome (Option Value) → Steps α} {r : Outcome (Option Value)} {log : List Raised} {e : Event}
      (hr : c.Gives marks (.compute socket .done) r log) (h : Emits c marks (next r) e) :
      Emits c marks (.compute socket next) e
  | inferring {c : Compiler} {marks : List Socket} {α : Type} {node key : String}
      {next : Outcome (Option Ty) → Steps α} {e : Event}
      (h : Emits c.inference [] (c.inference.inputSteps node key) e) : Emits c marks (.infer node key next) e
  | inferred {c : Compiler} {marks : List Socket} {α : Type} {node key : String}
      {next : Outcome (Option Ty) → Steps α} {r : Outcome (Option Value)} {log : List Raised} {e : Event}
      (hr : c.inference.Gives [] (c.inference.inputSteps node key) r log) (h : Emits c marks (next (typeFound r)) e) :
      Emits c marks (.infer node key next) e

variable {α : Type} {marks : List Socket} {t : Steps α} {e : Event} {s s' : Session}

theorem Emits.attributed {ends : α → Prop} (h : c.Emits marks t e) (ht : t.Reports c.Attributed ends) :
    c.Attributed e := by
  induction h with
  | here e next => exact ht.1
  | report _ ih => exact ih ht.2
  | cycle hprop _ => exact attributed_warning hprop
  | entered hprop _ _ ih => exact ih (reports_outputSteps hprop)
  | computed _ _ ih => exact ih (ht _)
  -- an inference works on the same graph and catalog
  | inferring _ ih => exact ih (reports_inputSteps _ _)
  | inferred _ _ ih => exact ih (ht _)

/-- All events of a log are raised on the way, those that are lost among them. -/
theorem Gives.emits {a : α} {log : List Raised} (h : c.Gives marks t a log) : ∀ x ∈ log, c.Emits marks t x.event := by
  induction h with
  | done a => intro x hx; cases hx
  | report _ ih =>
    intro x hx
    rcases List.mem_cons.mp hx with rfl | hx
    · exact .here _ _
    · exact .report (ih x hx)
  | unknown hprop _ ih =>
    intro x hx
    exact .computed (.unknown hprop (.done _)) (ih x hx)
  | cycle hprop hmark _ ih =>
    intro x hx
    rcases List.mem_cons.mp hx with rfl | hx
    · exact .cycle hprop hmark
    · exact .computed (.cycle hprop hmark (.done _)) (ih x hx)
  | output hprop hmark hv _ ihv ih =>
    intro x hx
    rcases List.mem_append.mp hx with hx | hx
    · exact .entered hprop hmark (ihv x hx)
    · exact .computed (.output hprop hmark hv (.done _)) (ih x hx)
  | @infer c marks α node key next r a inner log hr _ ihr ih =>
    intro x hx
    rcases List.mem_append.mp hx with hx | hx
    · obtain ⟨y, hy, heq⟩ : ∃ y ∈ inner, y.event = x.event := by
        cases r with
        | ok v => exact ⟨x, hx, rfl⟩
        | error e =>
          obtain ⟨y, hy, rfl⟩ := List.mem_map.mp hx
          exact ⟨y, hy, rfl⟩
      exact heq ▸ .inferring (ihr y hy)
    · exact .inferred hr (ih x hx)

/-- **Every event is about the property that it names.** Whatever scripts a compiler runs, for outputs and in the last
step of each value, and whatever a client does with it, request by request and whether these succeed or not: each event
that was heard, each that is collected and each that was handed out names a node of the graph, the block of that node
and a key that the block declares; and what is reported missing is a required input or control, but no input that takes
many connections. All that scripts and clients have to keep to is that they read from arguments that a compiler gave
them, and programs do.

The same holds of each event that a request raises at any depth where programs are run, whether it ends or not, even
if the event is lost in an inference. -/
theorem events_attributed (c : Compiler) :
    (∀ (k : Scripts), k.Obey .owning → ∀ (n : Nat) (α : Type) (t : Script α), t.Obeys .owning c →
      ∀ a s, k.runAt n c t {} = some (a, s) →
        ∀ e, e ∈ s.heard ∨ e ∈ s.events ∨ e ∈ s.handed.flatten → c.Attributed e) ∧
    (∀ (α : Type) (t : Script α), t.Obeys .owning c → ∀ a s, c.run t {} = some (a, s) →
      ∀ e, e ∈ s.heard ∨ e ∈ s.events ∨ e ∈ s.handed.flatten → c.Attributed e) ∧
    (∀ marks q e, q.Obeys .owning c → c.Emits marks (c.requestSteps q) e → c.Attributed e) ∧
    (∀ marks q log, c.Gives marks (c.requestSteps q) () log → ∀ x ∈ log, c.Emits marks (c.requestSteps q) x.event) := by
  have hscripts : ∀ (k : Scripts), k.Obey .owning → ∀ (n : Nat) (α : Type) (t : Script α), t.Obeys .owning c →
      ∀ a s, k.runAt n c t {} = some (a, s) →
        ∀ e, e ∈ s.heard ∨ e ∈ s.events ∨ e ∈ s.handed.flatten → c.Attributed e := by
    intro k hk n α t ht a s h e he
    have hheard : e ∈ s.heard := by
      rw [Scripts.heard_eq_of_runAt h, List.mem_append] at he ⊢
      tauto
    exact hk.attributed ht h hheard
  refine ⟨hscripts, ?_, ?_, ?_⟩
  · intro α t ht a s h
    rw [run_eq_runAt] at h
    exact hscripts .own (own_obey _) c.depth α t ht a s h
  · intro marks q e hq he
    exact he.attributed (reports_requestSteps hq.reads)
  · intro marks q log h
    exact h.emits

/-- The events of reading what flows into the first node of the ring: the check for cycles meets the second node, and
the input of each node is missing where it is read. -/
def ringEvents : List Event :=
  [.warning "b" "Echo" "out" "Cycle detected while compiling b.out", .missingInput "a" "Echo" "in",
    .missingInput "b" "Echo" "in", .missingInput "a" "Echo" "in"]

def readInput (node : String) : Script Unit := .ask (.arguments node) fun
  | .ok args => .ask (.argument args "in") fun _ => .done ()
  | .error _ => .done ()

theorem obeys_readInput {c : Compiler} {node : String} : (readInput node).Obeys .owning c := by
  refine ⟨.plain rfl id, fun r hr => ?_⟩
  cases r with
  | ok args => exact ⟨.argument (hr args rfl) "in", fun _ _ => trivial⟩
  | error e => trivial

/-- Scripts that find nothing, read the input of the node in the last step and take the events. -/
def prying : Scripts where
  output _ _ _ := .done (.ok none)
  post _ node _ v := .ask (.arguments node) fun
    | .ok args => .ask (.argument args "in") fun _ => .ask .takeEvents fun _ => .done v
    | .error _ => .done v

/-- In the ring the events name the node that they are about, be it the one that is read from or the other, and also
where the last step of a value reads and takes them. An event that is lost in an inference names the peer that raised
it. -/
theorem events_attributed_leak :
    (∃ s, ring.run (readInput "a") {} = some ((), s) ∧ s.events = ringEvents ∧ ∀ e ∈ s.events, ring.Attributed e) ∧
    (∃ s, prying.runAt 3 ring (readInput "a") {} = some ((), s) ∧ s.handed.flatten = ringEvents.take 3 ∧
      ∀ e ∈ s.handed.flatten, ring.Attributed e) ∧
    leak.Emits [] (leak.requestSteps (.infer "sink" "in")) (.warning "loud" "Loud" "out" "no type") ∧
    leak.Attributed (.warning "loud" "Loud" "out" "no type") := by
  obtain ⟨hscripts, hprograms, -, -⟩ := events_attributed ring
  refine ⟨?_, ?_, ?_⟩
  · have hrun : ring.run (readInput "a") {} = some ((), ({} : Session).raise ringEvents) := rfl
    exact ⟨_, hrun, rfl, fun e he => hprograms _ _ obeys_readInput _ _ hrun e (.inr (.inl he))⟩
  · have hobey : prying.Obey .owning := by
      refine ⟨fun _ _ _ _ => trivial, fun c node key v => ⟨.plain rfl id, fun r hr => ?_⟩⟩
      cases r with
      | ok args =>
        have htake : Request.takeEvents.Obeys .owning c := { reads := fun _ h => (by cases h), takes := fun _ => trivial }
        exact ⟨.argument (hr args rfl) "in", fun _ _ => ⟨htake, fun _ _ => trivial⟩⟩
      | error e => trivial
    obtain ⟨s, hrun, hhanded⟩ : ∃ s, prying.runAt 3 ring (readInput "a") {} = some ((), s) ∧
        s.handed.flatten = ringEvents.take 3 := ⟨_, rfl, rfl⟩
    exact ⟨s, hrun, hhanded, fun e he => hscripts _ hobey 3 _ _ obeys_readInput _ _ hrun e (.inr (.inr he))⟩
  · have hemits : leak.Emits [] (leak.requestSteps (.infer "sink" "in")) (.warning "loud" "Loud" "out" "no type") :=
      .inferring (.entered rfl (by simp) (.here _ _))
    exact ⟨hemits, (events_attributed leak).2.2.1 [] _ _ (.plain rfl id) hemits⟩

end Compiler

end BlockGraph
