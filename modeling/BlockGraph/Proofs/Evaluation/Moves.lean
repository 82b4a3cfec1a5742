import BlockGraph.Proofs.Evaluation.Steps

/-!
# What scripts do to a session

Scripts may do more than programs. They look at the collected events and take them, they make reports while outputs are
being computed, and the last step of every value may be a script as well. Whatever they do, a session changes by moves
of two kinds: an event is raised, or the collected events are taken. A mark that was set is taken back on every way out.

A `Policy` says which events may be raised, whether events may be taken, and which arguments may be read from. Under a
policy that the evaluator itself keeps to (`Policy.Sound`), scripts that obey it make no other moves:

* `Session.Books`: what is raised and handed out from one session to a later one, as entries that can be added up; every
  move keeps the books;
* `Eval.Does`: an evaluation makes allowed moves only, and ends as it should; `Eval.Does.within_mark` is the one place
  where marks are set;
* `Level.Does.serve` and `Level.Does.run`: one request, and a script of them;
* `Scripts.Obey.does_levelAt`: one more step of nesting keeps it, so it holds under every bound.
-/

namespace BlockGraph

/-! ### Moves of a session -/

inductive Move where
  | raise (e : Event)
  | take

/-- The events that moves raise, in order. -/
def Move.raised (ms : List Move) : List Event :=
  ms.filterMap fun
    | .raise e => some e
    | .take => none

theorem Move.mem_raised {e : Event} {ms : List Move} : e ∈ Move.raised ms ↔ .raise e ∈ ms := by
  rw [raised, List.mem_filterMap]
  constructor
  · rintro ⟨m, hm, hme⟩
    cases m with
    | raise e' =>
      cases hme
      exact hm
    | take => cases hme
  · exact fun h => ⟨.raise e, h, rfl⟩

namespace Session

def move (s : Session) : Move → Session
  | .raise e => s.raise [e]
  | .take => s.handOut

def after (s : Session) (ms : List Move) : Session := ms.foldl move s

variable (s : Session) (m : Move) (ms : List Move)

theorem after_cons : s.after (m :: ms) = (s.move m).after ms := rfl

theorem after_append (ns : List Move) : s.after (ms ++ ns) = (s.after ms).after ns := List.foldl_append

theorem after_raise (es : List Event) : s.after (es.map .raise) = s.raise es := by
  induction es generalizing s with
  | nil => exact s.raise_nil.symm
  | cons e rest ih =>
    rw [List.map_cons, after_cons, ih]
    exact s.raise_raise [e] rest

theorem after_mark (socket : Socket) : (s.mark socket).after ms = (s.after ms).mark socket := by
  induction ms generalizing s with
  | nil => rfl
  | cons m rest ih =>
    have hmove : (s.mark socket).move m = (s.move m).mark socket := by cases m <;> rfl
    rw [after_cons, after_cons, hmove, ih]

@[simp] theorem inProgress_after : (s.after ms).inProgress = s.inProgress := by
  induction ms generalizing s with
  | nil => rfl
  | cons m rest ih =>
    rw [after_cons, ih]
    cases m <;> rfl

theorem unmark_after_mark (socket : Socket) : ((s.mark socket).after ms).unmark socket = s.after ms := by
  have hmarks : ∀ t : Session, (t.mark socket).unmark socket = t := fun t => by simp [mark, unmark]
  rw [after_mark, hmarks]

theorem after_eq_raise (h : ∀ m ∈ ms, m ≠ .take) : s.after ms = s.raise (Move.raised ms) := by
  induction ms generalizing s with
  | nil => exact s.raise_nil.symm
  | cons m rest ih =>
    obtain ⟨hm, hrest⟩ := List.forall_mem_cons.mp h
    rw [after_cons, ih _ hrest]
    cases m with
    | raise e => exact s.raise_raise [e] _
    | take => exact absurd rfl hm

end Session

/-! ### The books of a session -/

/-- From one session to a later one, the events were raised and the lists of events were handed out. -/
structure Session.Books (s s' : Session) (raised : List Event) (lists : List (List Event)) : Prop where
  inProgress : s'.inProgress = s.inProgress
  heard : s'.heard = s.heard ++ raised
  handed : s'.handed = s.handed ++ lists
  collected : s.events ++ raised = lists.flatten ++ s'.events

namespace Session.Books

variable {s s₁ s' : Session} {raised raised' : List Event} {lists lists' : List (List Event)}

theorem refl (s : Session) : s.Books s [] [] :=
  ⟨rfl, (List.append_nil _).symm, (List.append_nil _).symm, List.append_nil _⟩

theorem raise (s : Session) (es : List Event) : s.Books (s.raise es) es [] :=
  ⟨rfl, rfl, (List.append_nil _).symm, rfl⟩

theorem trans (h : s.Books s₁ raised lists) (h' : s₁.Books s' raised' lists') :
    s.Books s' (raised ++ raised') (lists ++ lists') where
  inProgress := h'.inProgress.trans h.inProgress
  heard := by rw [h'.heard, h.heard, List.append_assoc]
  handed := by rw [h'.handed, h.handed, List.append_assoc]
  collected :=
    calc s.events ++ (raised ++ raised') = (s.events ++ raised) ++ raised' := (List.append_assoc ..).symm
      _ = lists.flatten ++ (s₁.events ++ raised') := by rw [h.collected, List.append_assoc]
      _ = (lists ++ lists').flatten ++ s'.events := by rw [h'.collected, List.flatten_append, List.append_assoc]

theorem handOut (h : s.Books s' raised lists) : s.Books s'.handOut raised (lists ++ [s'.events]) where
  inProgress := h.inProgress
  heard := h.heard
  handed := by rw [Session.handOut, h.handed, List.append_assoc]
  collected := by
    rw [h.collected, List.flatten_append, List.flatten_singleton, List.append_assoc]
    exact congrArg _ (List.append_nil _).symm

/-- Every move keeps the books. -/
theorem exists_after (s : Session) (ms : List Move) : ∃ lists, s.Books (s.after ms) (Move.raised ms) lists := by
  induction ms generalizing s with
  | nil => exact ⟨[], .refl s⟩
  | cons m rest ih =>
    obtain ⟨lists, hrest⟩ := ih (s.move m)
    cases m with
    | raise e => exact ⟨lists, (Books.raise s [e]).trans hrest⟩
    | take => exact ⟨[s.events] ++ lists, (Books.refl s).handOut.trans hrest⟩

end Session.Books

theorem Session.heard_after (s : Session) (ms : List Move) : (s.after ms).heard = s.heard ++ Move.raised ms := by
  obtain ⟨lists, hbooks⟩ := Session.Books.exists_after s ms
  exact hbooks.heard

theorem Session.raise_mem_of_mem_events {e : Event} {ms : List Move} (he : e ∈ (({} : Session).after ms).events) :
    .raise e ∈ ms := by
  obtain ⟨lists, hbooks⟩ := Session.Books.exists_after {} ms
  have hcollected : Move.raised ms = lists.flatten ++ (({} : Session).after ms).events := hbooks.collected
  exact Move.mem_raised.mp (hcollected ▸ List.mem_append_right lists.flatten he)

/-! ### Evaluations by allowed moves -/

namespace Eval

variable {α β : Type}

/-- Whenever the evaluation ends, it does so as it should, and came there by allowed moves. -/
def Does (allowed : Move → Prop) (ends : α → Prop) (x : Eval α) : Prop :=
  ∀ s a s', x s = some (a, s') → ends a ∧ ∃ ms, (∀ m ∈ ms, allowed m) ∧ s' = s.after ms

namespace Does

variable {allowed : Move → Prop} {ends : α → Prop} {ends' : β → Prop} {x : Eval α} {f : α → Eval β}

theorem pure {a : α} (ha : ends a) : (Pure.pure a : Eval α).Does allowed ends := by
  intro s b s' h
  cases h
  exact ⟨ha, [], by simp, rfl⟩

theorem endless : (endless : Eval α).Does allowed ends := by
  intro s a s' h
  cases h

theorem look : (Session.events <$> get : Eval (List Event)).Does allowed fun _ => True := by
  intro s es s' h
  cases h
  exact ⟨trivial, [], by simp, rfl⟩

theorem emit {e : Event} (he : allowed (.raise e)) : (emit e).Does allowed fun _ => True := by
  intro s a s' h
  cases h
  exact ⟨trivial, [.raise e], by simpa using he, rfl⟩

theorem takeEvents (ht : allowed .take) : takeEvents.Does allowed fun _ => True := by
  intro s a s' h
  cases h
  exact ⟨trivial, [.take], by simpa using ht, rfl⟩

theorem bind (hx : x.Does allowed ends) (hf : ∀ a, ends a → (f a).Does allowed ends') : (x >>= f).Does allowed ends' := by
  intro s b s' h
  rw [bind_apply, Option.bind_eq_some_iff] at h
  obtain ⟨⟨a, s₁⟩, hfirst, hrest⟩ := h
  obtain ⟨ha, ms, hms, rfl⟩ := hx s a s₁ hfirst
  obtain ⟨hb, ns, hns, rfl⟩ := hf a ha (s.after ms) b s' hrest
  refine ⟨hb, ms ++ ns, ?_, (s.after_append ms ns).symm⟩
  intro m hm
  exact (List.mem_append.mp hm).elim (hms m) (hns m)

theorem map {g : α → β} (hx : x.Does allowed ends) (hg : ∀ a, ends a → ends' (g a)) : (g <$> x).Does allowed ends' := by
  rw [map_eq_pure_bind]
  exact hx.bind fun a ha => .pure (hg a ha)

theorem mono {ends₁ : α → Prop} (hx : x.Does allowed ends) (h : ∀ a, ends a → ends₁ a) : x.Does allowed ends₁ := by
  intro s a s' hrun
  obtain ⟨ha, hms⟩ := hx s a s' hrun
  exact ⟨h a ha, hms⟩

/-- What is computed under a mark takes the mark back when it is done. Where the mark is found it stays. -/
theorem within_mark {socket : Socket} {marked : Eval α} {found : Eval β} {g : α → β} (hmarked : marked.Does allowed ends)
    (hg : ∀ a, ends a → ends' (g a)) (hfound : found.Does allowed ends') :
    (do if ← enter socket then
          let a ← marked
          leave socket
          return g a
        else found : Eval β).Does allowed ends' := by
  intro s b s' h
  rw [bind_apply, enter_apply] at h
  by_cases hmark : socket ∈ s.inProgress
  · rw [if_pos hmark] at h
    exact hfound s b s' h
  · rw [if_neg hmark, Option.bind_some] at h
    obtain ⟨⟨a, s₁⟩, hrun, hleave⟩ := Option.bind_eq_some_iff.mp h
    -- no move touches the marks, so the mark that is taken back is the one that was set
    obtain ⟨ha, ms, hms, rfl⟩ := hmarked (s.mark socket) a s₁ hrun
    cases hleave
    exact ⟨hg a ha, ms, hms, s.unmark_after_mark ms socket⟩

end Does

end Eval

/-! ### Policies -/

/-- What scripts may do: the events that may be raised, the arguments that may be read from, and whether events may be
taken. -/
structure Policy where
  raises : Compiler → Event → Prop
  reads : Compiler → Compiler.Arguments → Prop
  takes : Prop

namespace Policy

def allows (π : Policy) (c : Compiler) : Move → Prop
  | .raise e => π.raises c e
  | .take => π.takes

/-- The evaluator itself keeps to the policy: with the warnings about outputs, with what it reports missing when it
reads from arguments that may be read from, and with the arguments that it gives. -/
structure Sound (π : Policy) : Prop where
  warning : ∀ {c : Compiler} {node key : String} {schema : Schema} {p : Property} (message : String),
    c.property node key = .ok (schema, p) → π.raises c (.warning node schema.name key message)
  missing : ∀ {c : Compiler} {args : Compiler.Arguments} {key : String} {p : Property},
    π.reads c args → args.schema.prop? key = some p → p.isOutput = false → p.optional = false →
    (∀ schema q, c.property args.node key = .ok (schema, q) → q.direction = .input → q.multi = false) →
    π.raises c (.missingInput args.node args.schema.name key)
  fresh : ∀ {c : Compiler} {node : String} {args : Compiler.Arguments}, c.arguments node = .ok args → π.reads c args
  known : ∀ {c : Compiler} {args : Compiler.Arguments} (known : List (String × Option Value)),
    π.reads c args → π.reads c { args with known }
  inference : ∀ {c : Compiler} {e : Event}, π.raises c.inference e → π.raises c e

end Policy

namespace Request

/-- The arguments that a request reads from. -/
def reads? : Request → Option Compiler.Arguments
  | .argument args _ => some args
  | .text args _ => some args
  | .texts args _ => some args
  | .prefetch args => some args
  | _ => none

/-- The arguments that a request gives. -/
def arguments? : (q : Request) → q.Reply → Option Compiler.Arguments
  | .arguments _, .ok args => some args
  | .argument _ _, r => some r.2
  | .text _ _, r => some r.2
  | .texts _ _, r => some r.2
  | .prefetch _, r => some r.2
  | _, _ => none

def Takes : Request → Prop
  | .compileOutputs _ | .compileProgram | .takeEvents => True
  | _ => False

structure Obeys (π : Policy) (c : Compiler) (q : Request) : Prop where
  reads : ∀ args, q.reads? = some args → π.reads c args
  takes : q.Takes → π.takes

theorem Obeys.plain {π : Policy} {c : Compiler} {q : Request} (hreads : q.reads? = none) (htakes : ¬ q.Takes) :
    q.Obeys π c where
  reads args h := by
    rw [hreads] at h
    cases h
  takes h := absurd h htakes

theorem Obeys.argument {π : Policy} {c : Compiler} {args : Compiler.Arguments} (h : π.reads c args) (key : String) :
    (Request.argument args key).Obeys π c where
  reads args' heq := by
    cases heq
    exact h
  takes := False.elim

/-- The reply gives no arguments but such as may be read from. -/
def Gives (π : Policy) (c : Compiler) (q : Request) (r : q.Reply) : Prop :=
  ∀ args, q.arguments? r = some args → π.reads c args

end Request

/-- The script makes requests that obey the policy, as long as it is given such arguments only. -/
def Script.Obeys {α : Type} (π : Policy) (c : Compiler) : Script α → Prop
  | .done _ => True
  | .ask q next => q.Obeys π c ∧ ∀ r, q.Gives π c r → (next r).Obeys π c

/-- The scripts obey the policy, whichever compiler runs them. -/
structure Scripts.Obey (k : Scripts) (π : Policy) : Prop where
  output : ∀ c p args, π.reads c args → (k.output c p args).Obeys π c
  post : ∀ c node key v, (k.post c node key v).Obeys π c

/-! ### Policies about taking alone -/

namespace Policy

/-- All events may be raised and all arguments read from. -/
def withTakes (takes : Prop) : Policy := ⟨fun _ _ => True, fun _ _ => True, takes⟩

def free : Policy := withTakes True

/-- The policy of those who leave the collected events where they are. -/
def keeping : Policy := withTakes False

theorem sound_withTakes (takes : Prop) : (withTakes takes).Sound :=
  ⟨fun _ _ => trivial, fun _ _ _ _ _ => trivial, fun _ => trivial, fun _ _ => trivial, fun _ => trivial⟩

theorem after_eq_raise {takes : Prop} {c : Compiler} {ms : List Move} (htakes : ¬ takes)
    (hms : ∀ m ∈ ms, (withTakes takes).allows c m) (s : Session) : s.after ms = s.raise (Move.raised ms) := by
  refine s.after_eq_raise ms fun m hm heq => ?_
  subst heq
  exact htakes (hms _ hm)

end Policy

theorem Request.Obeys.withTakes {c : Compiler} {q : Request} {takes : Prop} (h : q.Takes → takes) :
    q.Obeys (.withTakes takes) c := ⟨fun _ _ => trivial, h⟩

theorem Script.obeys_free {α : Type} {c : Compiler} (t : Script α) : t.Obeys .free c := by
  induction t with
  | done a => exact trivial
  | ask q next ih => exact ⟨Request.Obeys.withTakes fun _ => trivial, fun r _ => ih r⟩

theorem Scripts.obey_free (k : Scripts) : k.Obey .free := ⟨fun _ _ _ _ => Script.obeys_free _, fun _ _ _ _ => Script.obeys_free _⟩

/-! ### One level -/

/-- Outputs and last steps make allowed moves. -/
structure Level.Does (π : Policy) (c : Compiler) (l : Level) : Prop where
  output : ∀ socket, (l.output socket).Does (π.allows c) fun _ => True
  post : ∀ node key v, (l.post node key v).Does (π.allows c) fun _ => True

namespace Level.Does

variable {π : Policy} {c : Compiler} {l types : Level} {args : Compiler.Arguments}

theorem gatherWith (hl : l.Does π c) (peers : List Socket) :
    (Compiler.gatherWith l.output peers).Does (π.allows c) fun _ => True := by
  induction peers with
  | nil => exact .pure trivial
  | cons socket rest ih =>
    refine (hl.output socket).bind fun r _ => ?_
    cases r with
    | error e => exact .pure trivial
    | ok v =>
      refine ih.bind fun vs _ => ?_
      cases vs <;> exact .pure trivial

theorem connectedWith (hl : l.Does π c) (node : String) (p : Property) :
    (c.connectedWith l.output node p).Does (π.allows c) fun r => r = .ok none → p.multi = false := by
  rw [Compiler.connectedWith]
  cases hmulti : p.multi with
  | true =>
    refine (hl.gatherWith _).bind fun vs _ => .pure fun habsent => ?_
    cases vs <;> cases habsent
  | false =>
    rw [if_neg Bool.false_ne_true]
    cases c.graph.peers node (Compiler.inputSide p) p.key with
    | nil =>
      dsimp only
      split <;> exact .pure fun _ => rfl
    | cons peer rest => exact (hl.output peer).mono fun _ _ _ => rfl

theorem input (hl : l.Does π c) (node key : String) :
    (l.input c node key).Does (π.allows c) fun r => r = .ok none →
      ∀ schema p, c.property node key = .ok (schema, p) → p.direction = .input → p.multi = false := by
  rw [Level.input]
  cases hprop : c.property node key with
  | error e => exact .pure fun h => by cases h
  | ok found =>
    obtain ⟨schema, p⟩ := found
    have hother : p.direction ≠ .input → ∀ schema' p', Except.ok (schema, p) = (Except.ok (schema', p') : Outcome _) →
        p'.direction = .input → p'.multi = false := by
      rintro hdir schema' p' heq hinput
      cases heq
      exact absurd hinput hdir
    cases hdir : p.direction with
    | input =>
      simp only [hdir]
      refine (hl.connectedWith node p).mono fun r hr habsent schema' p' heq _ => ?_
      cases heq
      exact hr habsent
    | output =>
      simp only [hdir]
      exact .pure fun _ => hother (by simp [hdir])
    | control =>
      simp only [hdir]
      cases c.storedControl node key with
      | error e => exact .pure fun h => by cases h
      | ok v => exact (hl.post node key v).map fun _ _ _ => hother (by simp [hdir])

theorem argument (hπ : π.Sound) (hl : l.Does π c) (hargs : π.reads c args) (key : String) :
    (l.argument c args key).Does (π.allows c) fun r => π.reads c r.2 := by
  rw [Level.argument]
  cases args.known.find? (·.1 == key) with
  | some known => exact .pure hargs
  | none =>
    cases hprop : args.schema.prop? key with
    | none => exact .pure hargs
    | some p =>
      dsimp only
      split
      · exact .pure hargs
      · next houtput =>
        refine (hl.input args.node key).bind fun r hr => ?_
        cases r with
        | error e => exact .pure hargs
        | ok v =>
          have hknown := hπ.known ((key, v) :: args.known) hargs
          dsimp only
          split
          · next habsent =>
            obtain ⟨rfl, hrequired⟩ : v = none ∧ p.optional = false := by simpa using habsent
            have hmissing := hπ.missing hargs hprop (by simpa using houtput) hrequired (hr rfl)
            exact (Eval.Does.emit hmissing).bind fun _ _ => .pure hknown
          · exact .pure hknown

theorem argumentsOf (hπ : π.Sound) (hl : l.Does π c) (hargs : π.reads c args) (keys : List String) :
    (l.argumentsOf c args keys).Does (π.allows c) fun r => π.reads c r.2 := by
  induction keys generalizing args with
  | nil => exact .pure hargs
  | cons key rest ih =>
    rw [Level.argumentsOf]
    refine (hl.argument hπ hargs key).bind fun r hr => ?_
    obtain ⟨result, args'⟩ := r
    cases result with
    | error e => exact .pure hr
    | ok v => exact ih hr

/-- The moves of an inference are in a session of its own. What is collected there at the end was raised there. -/
theorem infer (hπ : π.Sound) (htypes : types.Does π c.inference) (node key : String) :
    (types.infer c node key).Does (π.allows c) fun _ => True := by
  intro s r s' h
  rw [Level.infer] at h
  cases hinput : types.input c.inference node key {} with
  | none =>
    rw [hinput] at h
    cases h
  | some found =>
    obtain ⟨result, inner⟩ := found
    rw [hinput] at h
    cases result with
    | error e =>
      cases h
      exact ⟨trivial, [], by simp, rfl⟩
    | ok v =>
      obtain ⟨-, ms, hms, rfl⟩ := htypes.input node key _ _ _ hinput
      dsimp only at h
      rw [Eval.emitAll_apply] at h
      cases h
      refine ⟨trivial, _, ?_, (s.after_raise _).symm⟩
      intro m hm
      obtain ⟨e, he, rfl⟩ := List.mem_map.mp hm
      exact hπ.inference (hms _ (Session.raise_mem_of_mem_events he))

theorem compileEach (hl : l.Does π c) (targets : List Socket) :
    (l.compileEach c targets).Does (π.allows c) fun _ => True := by
  induction targets with
  | nil => exact .pure trivial
  | cons t rest ih =>
    rw [Level.compileEach]
    cases c.schema t.node with
    | error e => exact .pure trivial
    | ok schema =>
      refine (hl.output t).bind fun r _ => ?_
      cases r with
      | error e => exact .pure trivial
      | ok value =>
        refine ih.bind fun outputs _ => ?_
        cases outputs <;> exact .pure trivial

theorem compileOutputs (hl : l.Does π c) (ht : π.takes) (targets : List Socket) :
    (l.compileOutputs c targets).Does (π.allows c) fun _ => True := by
  refine (hl.compileEach targets).bind fun outputs _ => ?_
  cases outputs with
  | error e => exact .pure trivial
  | ok outputs => exact (Eval.Does.takeEvents ht).bind fun _ _ => .pure trivial

theorem compileProgram (hl : l.Does π c) (ht : π.takes) : (l.compileProgram c).Does (π.allows c) fun _ => True := by
  rw [Level.compileProgram]
  cases c.programTargets with
  | error e => exact .pure trivial
  | ok targets => exact hl.compileOutputs ht targets

theorem serve (hπ : π.Sound) (hl : l.Does π c) (htypes : types.Does π c.inference) {q : Request} (hq : q.Obeys π c) :
    (l.serve types c q).Does (π.allows c) (q.Gives π c) := by
  have hread : ∀ {args : Compiler.Arguments}, π.reads c args → ∀ args', some args = some args' → π.reads c args' := by
    rintro args hargs args' heq
    cases heq
    exact hargs
  cases q with
  | output node key => exact (hl.output ⟨node, key⟩).mono fun _ _ _ h => by cases h
  | input node key => exact (hl.input node key).mono fun _ _ _ h => by cases h
  | infer node key => exact (infer hπ htypes node key).mono fun _ _ _ h => by cases h
  | arguments node =>
    refine .pure fun args hargs => ?_
    cases hfresh : c.arguments node with
    | error e =>
      rw [hfresh] at hargs
      cases hargs
    | ok fresh =>
      rw [hfresh] at hargs
      exact hread (hπ.fresh hfresh) args hargs
  | argument args key => exact (hl.argument hπ (hq.reads args rfl) key).mono fun _ => hread
  | text args key => exact (hl.argument hπ (hq.reads args rfl) key).map fun _ => hread
  | texts args key => exact (hl.argument hπ (hq.reads args rfl) key).map fun _ => hread
  | prefetch args => exact (hl.argumentsOf hπ (hq.reads args rfl) _).mono fun _ => hread
  | compileOutputs targets => exact (hl.compileOutputs (hq.takes trivial) targets).mono fun _ _ _ h => by cases h
  | compileProgram => exact (hl.compileProgram (hq.takes trivial)).mono fun _ _ _ h => by cases h
  | events => exact Eval.Does.look.mono fun _ _ _ h => by cases h
  | takeEvents => exact (Eval.Does.takeEvents (hq.takes trivial)).mono fun _ _ _ h => by cases h

theorem run {α : Type} (hπ : π.Sound) (hl : l.Does π c) (htypes : types.Does π c.inference) {t : Script α}
    (ht : t.Obeys π c) : (l.run types c t).Does (π.allows c) fun _ => True := by
  induction t with
  | done a => exact .pure trivial
  | ask q next ih => exact (hl.serve hπ htypes ht.1).bind fun r hr => ih r (ht.2 r hr)

end Level.Does

/-! ### Every bound -/

namespace Scripts.Obey

variable {π : Policy} {k : Scripts} {l types : Level} {c : Compiler}

theorem does_attemptWith (hk : k.Obey π) (hπ : π.Sound) (hl : l.Does π c) (htypes : types.Does π c.inference)
    {socket : Socket} {schema : Schema} {p : Property} (hprop : c.property socket.node socket.key = .ok (schema, p)) :
    (k.attemptWith l types c socket schema p).Does (π.allows c) fun _ => True := by
  have hfresh : c.arguments socket.node = .ok { node := socket.node, schema } := by
    rw [Compiler.arguments, (Compiler.property_eq_ok_iff.mp hprop).1]
    rfl
  have hargs := hπ.fresh hfresh
  refine (hl.run hπ htypes (hk.output c p _ hargs)).bind fun result _ => ?_
  cases result with
  | ok v => exact hl.run hπ htypes (hk.post c _ _ v)
  | error f => exact (Eval.Does.emit (hπ.warning f.message hprop)).bind fun _ _ => .pure trivial

theorem does_outputWith (hk : k.Obey π) (hπ : π.Sound) (hl : l.Does π c) (htypes : types.Does π c.inference)
    (socket : Socket) : (k.outputWith l types c socket).Does (π.allows c) fun _ => True := by
  rw [outputWith]
  cases hprop : c.property socket.node socket.key with
  | error e => exact .pure trivial
  | ok r =>
    obtain ⟨schema, p⟩ := r
    have hcycle := hπ.warning (Error.cycleDetected socket.node socket.key).message hprop
    exact (hk.does_attemptWith hπ hl htypes hprop).within_mark (fun _ _ => trivial)
      ((Eval.Does.emit hcycle).bind fun _ _ => .pure trivial)

theorem does_levelAt (hk : k.Obey π) (hπ : π.Sound) (n : Nat) (c : Compiler) : (k.levelAt n c).Does π c := by
  induction n generalizing c with
  | zero =>
    -- no output ends, but a last step does that asks for nothing
    have hendless : ∀ c, Level.endless.Does π c := fun c => ⟨fun _ => .endless, fun _ _ _ => .endless⟩
    exact ⟨fun _ => .endless, fun _ _ _ => (hendless c).run hπ (hendless c.inference) (hk.post c _ _ _)⟩
  | succ n ih =>
    exact ⟨hk.does_outputWith hπ (ih c) (ih c.inference),
      fun _ _ _ => (ih c).run hπ (ih c.inference) (hk.post c _ _ _)⟩

/-- **Scripts that obey a policy make no other moves**, whatever they are asked for, and under every bound. -/
theorem does_serveAt (hk : k.Obey π) (hπ : π.Sound) (n : Nat) {q : Request} (hq : q.Obeys π c) :
    (k.serveAt n c q).Does (π.allows c) (q.Gives π c) :=
  (hk.does_levelAt hπ n c).serve hπ (hk.does_levelAt hπ n c.inference) hq

theorem does_runAt {α : Type} (hk : k.Obey π) (hπ : π.Sound) (n : Nat) {t : Script α} (ht : t.Obeys π c) :
    (k.runAt n c t).Does (π.allows c) fun _ => True :=
  (hk.does_levelAt hπ n c).run hπ (hk.does_levelAt hπ n c.inference) ht

end Scripts.Obey

namespace Scripts

variable {k : Scripts} {c : Compiler} {n : Nat} {s s' : Session}

theorem exists_moves_of_serveAt {q : Request} {r : q.Reply} (h : k.serveAt n c q s = some (r, s')) :
    ∃ ms, s' = s.after ms := by
  have hq : q.Obeys .free c := Request.Obeys.withTakes fun _ => trivial
  obtain ⟨-, ms, -, hms⟩ := k.obey_free.does_serveAt (Policy.sound_withTakes True) n hq s r s' h
  exact ⟨ms, hms⟩

theorem exists_moves_of_runAt {α : Type} {t : Script α} {a : α} (h : k.runAt n c t s = some (a, s')) :
    ∃ ms, s' = s.after ms := by
  obtain ⟨-, ms, -, hms⟩ := k.obey_free.does_runAt (Policy.sound_withTakes True) n t.obeys_free s a s' h
  exact ⟨ms, hms⟩

/-- Scripts that keep the events add to them, unless the request itself takes them. -/
theorem Obey.exists_raise_of_serveAt {q : Request} {r : q.Reply} (hk : k.Obey .keeping) (hq : ¬ q.Takes)
    (h : k.serveAt n c q s = some (r, s')) : ∃ es, s' = s.raise es := by
  have hobeys : q.Obeys .keeping c := Request.Obeys.withTakes hq
  obtain ⟨-, ms, hms, rfl⟩ := hk.does_serveAt (Policy.sound_withTakes False) n hobeys s r s' h
  exact ⟨_, Policy.after_eq_raise id hms s⟩

end Scripts

/-! ### Programs -/

namespace Compiler

variable {π : Policy} {c : Compiler} {args : Arguments}

theorem obeys_answerScript {α : Type} {next : Outcome (Option Value) × Arguments → Script α} (hargs : π.reads c args)
    (hnext : ∀ r : Outcome (Option Value) × Arguments, π.reads c r.2 → (next r).Obeys π c) (q : Query) :
    ((c.answerScript args q).bind next).Obeys π c := by
  cases q with
  | argument key => exact ⟨.argument hargs key, fun r hr => hnext r (hr r.2 rfl)⟩
  | argumentOf node key =>
    refine ⟨.plain rfl id, fun r hr => ?_⟩
    cases r with
    | error e => exact hnext _ hargs
    | ok fresh => exact ⟨.argument (hr fresh rfl) key, fun _ _ => hnext _ hargs⟩
  | output node key => exact ⟨.plain rfl id, fun _ _ => hnext _ hargs⟩
  | input node key => exact ⟨.plain rfl id, fun _ _ => hnext _ hargs⟩
  | infer node key => exact ⟨.plain rfl id, fun _ _ => hnext _ hargs⟩
  | control node key => exact hnext _ hargs
  | block node => exact hnext _ hargs

theorem obeys_programScript (p : Program) (hargs : π.reads c args) : (c.programScript p args).Obeys π c := by
  induction p generalizing args with
  | done r => exact trivial
  | ask q next ih => exact obeys_answerScript hargs (fun r hr => ih r.1 hr) q

theorem own_obey (π : Policy) : Scripts.own.Obey π where
  output _ _ _ hargs := obeys_programScript _ hargs
  post _ _ _ _ := trivial

theorem serve_eq_serveAt (c : Compiler) (q : Request) : c.serve q = Scripts.own.serveAt c.depth c q := by
  rw [Scripts.serveAt, Scripts.levelAt_own, Scripts.levelAt_own]
  rfl

theorem run_eq_runAt {α : Type} (c : Compiler) (t : Script α) : c.run t = Scripts.own.runAt c.depth c t := by
  rw [Scripts.runAt, Scripts.levelAt_own, Scripts.levelAt_own]
  rfl

end Compiler

end BlockGraph
