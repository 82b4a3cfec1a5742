import BlockGraph.Proofs.Evaluation.Trace

/-!
# The words of the check for cycles

A warning quotes the failure that it is about, so a program could fail in the words of the check for cycles. It
would have to do so on purpose: no question is answered by an error that tells of a cycle (`Genuine`), and the
errors that are answered are worded differently (`Genuine.message_ne`). Where no program fails in these words
(`Compiler.Candid`), an event in them was reported by the check.

`Steps.Fair` states this of a tree, as far as it reports anything itself; `plainNotices_requestTrace` is about
whole requests.
-/

namespace BlockGraph

/-- The outcome is not an error that tells of a cycle. -/
def Genuine {α : Type} (r : Outcome α) : Prop := ∀ node key, r ≠ .error (.cycleDetected node key)

theorem genuine_ok {α : Type} (a : α) : Genuine (.ok a : Outcome α) := fun _ _ => nofun

theorem Genuine.error {α β : Type} {e : Error} (h : Genuine (.error e : Outcome α)) :
    Genuine (.error e : Outcome β) := by
  intro node key heq
  exact h node key (by rw [Except.error.inj heq])

theorem Genuine.map {α β : Type} {r : Outcome α} (h : Genuine r) (f : α → β) : Genuine (r.map f) := by
  cases r with
  | ok a => exact genuine_ok _
  | error e => exact h.error

theorem Genuine.bind {α β : Type} {r : Outcome α} {f : α → Outcome β} (h : Genuine r) (hf : ∀ a, Genuine (f a)) :
    Genuine (r >>= f) := by
  cases r with
  | ok a => exact hf a
  | error e => exact h.error

theorem Genuine.message_ne {α : Type} {e : Error} (h : Genuine (.error e : Outcome α)) (node key : String) :
    e.message ≠ (Error.cycleDetected node key).message := by
  have hcycle : (Error.cycleDetected node key).message.toList.head? = some 'C' := by
    unfold Error.message
    simp only [String.toList_append, List.head?_append]
    rfl
  have hother : e.message.toList.head? ≠ some 'C' := by
    cases e with
    | cycleDetected node' key' => exact absurd rfl (h node' key')
    | _ =>
      unfold Error.message
      simp only [String.toList_append, List.head?_append]
      intro hfirst
      exact absurd (Option.some.inj hfirst) (by decide)
  intro heq
  exact hother (by rw [heq, hcycle])

/-- The event is not in the words of the check for cycles. -/
def Event.Plain (e : Event) : Prop := ∀ y block, e ≠ (Notice.cycle y block).event

/-- Whatever was reported and not by the check is not in its words. -/
def PlainNotices (ns : List Notice) : Prop := ∀ e, Notice.reported e ∈ ns → e.Plain

theorem plainNotices_nil : PlainNotices [] := fun _ he => absurd he List.not_mem_nil

theorem plainNotices_append {ns ms : List Notice} (hns : PlainNotices ns) (hms : PlainNotices ms) :
    PlainNotices (ns ++ ms) := by
  intro e he
  rcases List.mem_append.mp he with he | he
  · exact hns e he
  · exact hms e he

theorem cycle_mem_of_event_mem {ns : List Notice} (hns : PlainNotices ns) {y : Socket} {block : String}
    (h : (Notice.cycle y block).event ∈ ns.map Notice.event) : Notice.cycle y block ∈ ns := by
  obtain ⟨notice, hnotice, heq⟩ := List.mem_map.mp h
  cases notice with
  | reported e => exact absurd heq (hns e hnotice y block)
  | cycle z block' =>
    obtain ⟨hnode, hblock, hkey, -⟩ := Event.warning.injEq .. ▸ heq
    obtain ⟨node, key⟩ := y
    obtain ⟨node', key'⟩ := z
    dsimp only at hnode hkey
    rwa [← hnode, ← hblock, ← hkey]

/-! ### Trees -/

namespace Steps

variable {α β : Type}

/-- As long as its questions have genuine answers, the tree reports nothing in the words of the check itself and
ends only as allowed. -/
def Fair (ends : α → Prop) : Steps α → Prop
  | .done a => ends a
  | .report e next => e.Plain ∧ next.Fair ends
  | .compute _ next => ∀ r, Genuine r → (next r).Fair ends
  | .infer _ _ next => ∀ r, Genuine r → (next r).Fair ends

namespace Fair

variable {ends : α → Prop} {t : Steps α}

theorem bind {ends' : β → Prop} {f : α → Steps β} (h : t.Fair ends) (hf : ∀ a, ends a → (f a).Fair ends') :
    (t.bind f).Fair ends' := by
  induction t with
  | done a => exact hf a h
  | report e next ih => exact ⟨h.1, ih h.2⟩
  | compute socket next ih => exact fun r hr => ih r (h r hr)
  | infer node key next ih => exact fun r hr => ih r (h r hr)

theorem mono {ends' : α → Prop} (h : t.Fair ends) (hends : ∀ a, ends a → ends' a) : t.Fair ends' := by
  induction t with
  | done a => exact hends a h
  | report e next ih => exact ⟨h.1, ih h.2⟩
  | compute socket next ih => exact fun r hr => ih r (h r hr)
  | infer node key next ih => exact fun r hr => ih r (h r hr)

theorem of_trace {outputs : Socket → Traced (Outcome (Option Value))}
    {types : String → String → Traced (Outcome (Option Ty))} {a : α} {ns : List Notice} (h : t.Fair ends)
    (houtputs : ∀ socket r ms, outputs socket = some (r, ms) → Genuine r ∧ PlainNotices ms)
    (htypes : ∀ node key r ms, types node key = some (r, ms) → Genuine r ∧ PlainNotices ms)
    (htrace : t.trace outputs types = some (a, ns)) : ends a ∧ PlainNotices ns := by
  induction t generalizing ns with
  | done b =>
    cases htrace
    exact ⟨h, plainNotices_nil⟩
  | report e next ih =>
    obtain ⟨_, _, ns₂, hreport, hnext, rfl⟩ := Traced.andThen_eq_some.mp htrace
    cases hreport
    obtain ⟨hends, hns₂⟩ := ih h.2 hnext
    refine ⟨hends, plainNotices_append (fun e' he' => ?_) hns₂⟩
    cases List.mem_singleton.mp he'
    exact h.1
  | compute socket next ih =>
    obtain ⟨r, ns₁, ns₂, hsocket, hnext, rfl⟩ := Traced.andThen_eq_some.mp htrace
    obtain ⟨hr, hns₁⟩ := houtputs socket r ns₁ hsocket
    obtain ⟨hends, hns₂⟩ := ih r (h r hr) hnext
    exact ⟨hends, plainNotices_append hns₁ hns₂⟩
  | infer node key next ih =>
    obtain ⟨r, ns₁, ns₂, htype, hnext, rfl⟩ := Traced.andThen_eq_some.mp htrace
    obtain ⟨hr, hns₁⟩ := htypes node key r ns₁ htype
    obtain ⟨hends, hns₂⟩ := ih r (h r hr) hnext
    exact ⟨hends, plainNotices_append hns₁ hns₂⟩

end Fair

end Steps

/-! ### Look-ups -/

namespace Registry

variable (r : Registry)

theorem genuine_resolve (name : String) : Genuine (r.resolve name) := by
  unfold resolve
  cases r.get? name with
  | some t => exact genuine_ok t
  | none => exact fun _ _ => nofun

mutual

theorem genuine_fromPortable : ∀ p : Portable, Genuine (r.fromPortable p)
  | .mk name generics => by
    unfold fromPortable
    refine (r.genuine_resolve name).bind fun base => (genuine_fromPortables generics).bind fun ts => ?_
    unfold Ty.of
    dsimp only
    split
    · exact genuine_ok _
    · split
      · exact genuine_ok _
      · exact fun _ _ => nofun

theorem genuine_fromPortables : ∀ ps : List Portable, Genuine (r.fromPortables ps)
  | [] => genuine_ok []
  | p :: ps => by
    unfold fromPortables
    exact (genuine_fromPortable p).bind fun t => (genuine_fromPortables ps).bind fun ts => genuine_ok (t :: ts)

end

end Registry

namespace Compiler

variable (c : Compiler)

theorem genuine_schema (node : String) : Genuine (c.schema node) := by
  unfold Compiler.schema
  cases c.graph.blockName? node with
  | none => exact fun _ _ => nofun
  | some name =>
    dsimp only [Catalog.get]
    cases c.catalog.get? name with
    | some s => exact genuine_ok s
    | none => exact fun _ _ => nofun

theorem genuine_property (node key : String) : Genuine (c.property node key) := by
  unfold property
  refine (c.genuine_schema node).bind fun schema => Genuine.bind ?_ fun p => genuine_ok (schema, p)
  unfold Schema.prop
  cases schema.prop? key with
  | some p => exact genuine_ok p
  | none => exact fun _ _ => nofun

theorem genuine_storedControl (node key : String) : Genuine (c.storedControl node key) := by
  unfold storedControl
  cases c.graph.control? node key with
  | none => exact genuine_ok none
  | some control =>
    refine Genuine.map (r := control.toValue c.registry) ?_ some
    cases control with
    | type p => exact (c.registry.genuine_fromPortable p).bind fun t => genuine_ok _
    | _ => exact genuine_ok _

/-! ### The trees of the evaluator -/

theorem fair_gatherSteps (peers : List Socket) : (gatherSteps peers).Fair Genuine := by
  induction peers with
  | nil => exact genuine_ok _
  | cons socket rest ih =>
    intro r hr
    cases r with
    | error e => exact hr.error
    | ok v =>
      refine ih.bind fun vs hvs => ?_
      cases vs with
      | error e => exact hvs
      | ok vs => exact genuine_ok _

theorem fair_inputSteps (node key : String) : (c.inputSteps node key).Fair Genuine := by
  have hprop := c.genuine_property node key
  unfold inputSteps
  cases hfound : c.property node key with
  | error e =>
    rw [hfound] at hprop
    exact hprop.error
  | ok found =>
    obtain ⟨schema, p⟩ := found
    cases hdir : p.direction with
    | output => simp only [hdir]; exact genuine_ok none
    | control => simp only [hdir]; exact (c.genuine_storedControl node key).map _
    | input =>
      simp only [hdir]
      unfold connectedSteps
      split
      · exact (fair_gatherSteps _).bind fun vs hvs => hvs.map _
      · cases c.graph.peers node (inputSide p) p.key with
        | cons peer rest => exact fun r hr => hr
        | nil =>
          dsimp only [Steps.Fair]
          split
          · exact genuine_ok none
          · exact c.genuine_storedControl node p.key

theorem fair_argumentSteps (args : Arguments) (key : String) :
    (c.argumentSteps args key).Fair fun r => Genuine r.1 := by
  unfold argumentSteps
  cases args.known.find? (·.1 == key) with
  | some entry => exact genuine_ok _
  | none =>
    cases args.schema.prop? key with
    | none => exact fun _ _ => nofun
    | some p =>
      dsimp only
      split
      · exact fun _ _ => nofun
      · refine (c.fair_inputSteps args.node key).bind fun r hr => ?_
        cases r with
        | error e => exact hr
        | ok v =>
          dsimp only
          split
          · exact ⟨fun _ _ => nofun, genuine_ok v⟩
          · exact genuine_ok v

theorem fair_answerSteps (args : Arguments) (q : Query) : (c.answerSteps args q).Fair fun r => Genuine r.1 := by
  cases q with
  | argument key => exact c.fair_argumentSteps args key
  | argumentOf node key =>
    rw [answerSteps]
    have hargs : Genuine (c.arguments node) := (c.genuine_schema node).bind fun schema => genuine_ok _
    cases hfound : c.arguments node with
    | error e =>
      rw [hfound] at hargs
      exact hargs.error
    | ok fresh => exact (c.fair_argumentSteps fresh key).bind fun r hr => hr
  | input node key => exact (c.fair_inputSteps node key).bind fun r hr => hr
  | output node key => exact fun r hr => hr
  | infer node key => exact fun r hr => hr.map _
  | control node key => exact c.genuine_storedControl node key
  | block node => exact (c.genuine_schema node).map _

end Compiler

/-- The program may come to fail, if its questions have genuine answers. -/
def Program.MayFail (f : Failure) : Program → Prop
  | .done r => r = .error f
  | .ask _ next => ∃ answer, Genuine answer ∧ (next answer).MayFail f

namespace Compiler

variable (c : Compiler)

theorem fair_programSteps (p : Program) (args : Arguments) :
    (c.programSteps p args).Fair fun r => ∀ f, r = .error f → p.MayFail f := by
  induction p generalizing args with
  | done r => exact fun f hf => hf
  | ask q next ih =>
    refine (c.fair_answerSteps args q).bind fun answer hanswer => ?_
    refine (ih answer.1 answer.2).mono fun r hr f hf => ?_
    exact ⟨answer.1, hanswer, hr f hf⟩

/-- No program fails in the words in which the check reports its output. -/
def Candid : Prop :=
  ∀ node schema p f, c.schema node = .ok schema → p ∈ schema.props → (c.program node schema p).MayFail f →
    f.message ≠ (Error.cycleDetected node p.key).message

theorem fair_outputSteps {socket : Socket} {schema : Schema} {p : Property} (hc : c.Candid)
    (hprop : c.property socket.node socket.key = .ok (schema, p)) :
    (c.outputSteps socket schema p).Fair fun _ => True := by
  refine (c.fair_programSteps _ _).bind fun r hr => ?_
  cases r with
  | ok v => trivial
  | error f =>
    refine ⟨?_, trivial⟩
    intro y block heq
    obtain ⟨hnode, -, hkey, hmessage⟩ := Event.warning.injEq .. ▸ heq
    obtain ⟨hschema, hfind⟩ := property_eq_ok_iff.mp hprop
    have hpkey : p.key = socket.key := by simpa using List.find?_some hfind
    refine hc socket.node schema p f hschema (mem_props_of_property hprop) (hr f rfl) ?_
    rw [hpkey, hnode, hkey, hmessage]

theorem fair_prefetchSteps (args : Arguments) (keys : List String) :
    (c.prefetchSteps args keys).Fair fun _ => True := by
  induction keys generalizing args with
  | nil => trivial
  | cons key rest ih =>
    refine (c.fair_argumentSteps args key).bind fun r _ => ?_
    obtain ⟨result, args'⟩ := r
    cases result with
    | error e => trivial
    | ok v => exact ih args'

theorem fair_compileSteps (targets : List Socket) : (c.compileSteps targets).Fair fun _ => True := by
  induction targets with
  | nil => trivial
  | cons t rest ih =>
    unfold compileSteps
    cases c.schema t.node with
    | error e => trivial
    | ok schema =>
      intro r _
      cases r with
      | error e => trivial
      | ok v =>
        refine ih.bind fun outputs _ => ?_
        cases outputs <;> trivial

theorem fair_requestSteps (q : Request) : (c.requestSteps q).Fair fun _ => True := by
  cases q with
  | output node key => exact fun _ _ => trivial
  | input node key => exact (c.fair_inputSteps node key).bind fun _ _ => trivial
  | infer node key => exact fun _ _ => trivial
  | argument args key | text args key | texts args key =>
    exact (c.fair_argumentSteps args key).bind fun _ _ => trivial
  | prefetch args => exact (c.fair_prefetchSteps args _).bind fun _ _ => trivial
  | compileOutputs targets => exact (c.fair_compileSteps targets).bind fun _ _ => trivial
  | compileProgram =>
    unfold requestSteps
    cases c.programTargets with
    | error e => trivial
    | ok targets => exact (c.fair_compileSteps targets).bind fun _ _ => trivial
  | arguments _ | events | takeEvents => trivial

/-! ### Traces -/

variable {c} {ns : List Notice}

theorem plain_traceInfer {types : Socket → Traced (Outcome (Option Value))}
    (htypes : ∀ socket r ms, types socket = some (r, ms) → Genuine r ∧ PlainNotices ms) {node key : String}
    {r : Outcome (Option Ty)} (h : c.traceInfer types node key = some (r, ns)) : Genuine r ∧ PlainNotices ns := by
  obtain ⟨⟨result, ms⟩, htrace, hr⟩ := Option.map_eq_some_iff.mp h
  obtain ⟨hresult, hms⟩ := (c.inference.fair_inputSteps node key).of_trace htypes (by simp) htrace
  cases result with
  | error e =>
    cases hr
    exact ⟨hresult.error, plainNotices_nil⟩
  | ok v =>
    cases hr
    exact ⟨genuine_ok _, hms⟩

theorem plain_traceAt (hc : c.Candid) (htypes : c.inference.Candid) (n : Nat) {marks : List Socket}
    {socket : Socket} {r : Outcome (Option Value)} (h : traceAt n c marks socket = some (r, ns)) :
    Genuine r ∧ PlainNotices ns := by
  induction n generalizing c marks socket r ns with
  | zero => cases h
  | succ n ih =>
    have hfound := c.genuine_property socket.node socket.key
    rw [traceAt] at h
    cases hprop : c.property socket.node socket.key with
    | error e =>
      rw [hprop] at h hfound
      cases h
      exact ⟨hfound.error, plainNotices_nil⟩
    | ok found =>
      obtain ⟨schema, p⟩ := found
      rw [hprop] at h
      dsimp only at h
      split at h
      · cases h
        refine ⟨genuine_ok _, fun e he => ?_⟩
        cases List.mem_singleton.mp he
      · obtain ⟨⟨v, ms⟩, hsteps, hr⟩ := Option.map_eq_some_iff.mp h
        cases hr
        have hinfer : ∀ node key r ms, c.traceInfer (traceAt n c.inference []) node key = some (r, ms) →
            Genuine r ∧ PlainNotices ms := fun node key r ms =>
          plain_traceInfer fun _ _ _ htrace => ih htypes htypes htrace
        obtain ⟨-, hms⟩ := (c.fair_outputSteps hc hprop).of_trace (fun _ _ _ htrace => ih hc htypes htrace) hinfer hsteps
        exact ⟨genuine_ok _, hms⟩

theorem plainNotices_requestTrace (hc : c.Candid) (htypes : c.inference.Candid) {q : Request}
    (h : c.requestTrace q = some ((), ns)) : PlainNotices ns := by
  refine ((c.fair_requestSteps q).of_trace ?_ ?_ h).2
  · intro socket r ms htrace
    exact plain_traceAt hc htypes c.depth htrace
  · intro node key r ms htrace
    exact plain_traceInfer (fun _ _ _ => plain_traceAt htypes htypes c.depth) htrace

end Compiler

end BlockGraph
