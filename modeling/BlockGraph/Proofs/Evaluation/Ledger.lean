import BlockGraph.Proofs.Evaluation.Isolation
import BlockGraph.Proofs.Evaluation.Moves

/-!
# Events are heard once, and handed out once

An event goes two ways when it is raised: to the listener, and into the collection of the compiler. It leaves the
collection when the events are taken, or with a report, be it from outside or by a script that runs meanwhile. A report
that fails takes nothing with it. So the books of a compiler balance after every request: what was heard is what was
handed out, in order, and then what is still collected.

* `Scripts.books_serveAt`: the books of one request, whatever scripts do; the list that the request itself hands out is
  the last one;
* `Scripts.books_each`: the books of requests one after the other;
* `Compiler.exists_raises_each`: what is raised where programs are run, by the rules of evaluation;
* `Compiler.compileEach_refused`: the events that stay collected when a list of targets is refused midway.
-/

namespace BlockGraph

/-! ### Requests one after the other -/

/-- The lists of events that a request hands out. Events that are only looked at are not handed out. -/
def Request.handedOut : (q : Request) → q.Reply → List (List Event)
  | .compileOutputs _, .ok r => [r.events]
  | .compileProgram, .ok r => [r.events]
  | .takeEvents, es => [es]
  | _, _ => []

/-- A request and what it gave. -/
abbrev Answer := (q : Request) × q.Reply

def Answer.handedOut (a : Answer) : List (List Event) := a.1.handedOut a.2

/-- Makes requests one after the other, whether they succeed or not. -/
def Script.each : List Request → Script (List Answer)
  | [] => .done []
  | q :: rest => .ask q fun r => (each rest).bind fun answers => .done (⟨q, r⟩ :: answers)

theorem Request.handedOut_of_not_takes {q : Request} (hq : ¬ q.Takes) (r : q.Reply) : q.handedOut r = [] := by
  cases q with
  | compileOutputs _ | compileProgram | takeEvents => exact absurd trivial hq
  | _ => rfl

theorem Level.run_each_cons {l types : Level} {c : Compiler} {q : Request} {rest : List Request} {s : Session} :
    l.run types c (.each (q :: rest)) s = (l.serve types c q s).bind fun x =>
      (l.run types c (.each rest) x.2).map fun y => (⟨q, x.1⟩ :: y.1, y.2) := by
  rw [Script.each, Level.run, Eval.bind_apply]
  congr 1
  funext x
  rw [Level.run_bind, Eval.bind_apply]
  cases l.run types c (.each rest) x.2 <;> rfl

/-! ### The books of scripts -/

namespace Scripts

variable {k : Scripts} {n : Nat} {c : Compiler} {s s' : Session}

theorem obey_withTakes_not_keeping (k : Scripts) : k.Obey (.withTakes ¬ k.Obey .keeping) := by
  by_cases hk : k.Obey .keeping
  · have htakes : (¬ k.Obey .keeping) = False := by simp [hk]
    rw [htakes]
    exact hk
  · have htakes : (¬ k.Obey .keeping) = True := by simp [hk]
    rw [htakes]
    exact k.obey_free

theorem books_of_does {α : Type} {takes : Prop} {ends : α → Prop} {x : Eval α} {a : α}
    (hx : x.Does ((Policy.withTakes takes).allows c) ends) (h : x s = some (a, s')) :
    ∃ raised lists, s.Books s' raised lists ∧ (¬ takes → lists = []) := by
  obtain ⟨-, ms, hms, rfl⟩ := hx s a s' h
  obtain ⟨lists, hbooks⟩ := Session.Books.exists_after s ms
  refine ⟨_, lists, hbooks, fun htakes => ?_⟩
  have hhanded := hbooks.handed
  rw [Policy.after_eq_raise htakes hms s] at hhanded
  exact List.self_eq_append_right.mp hhanded

theorem books_compileOutputs {takes : Prop} {l : Level} (hl : l.Does (.withTakes takes) c) {targets : List Socket}
    {r : Outcome Report} (h : l.compileOutputs c targets s = some (r, s')) :
    ∃ raised inner, s.Books s' raised (inner ++ Request.handedOut (.compileOutputs targets) r) ∧ (¬ takes → inner = []) := by
  rw [Level.compileOutputs, Eval.bind_apply, Option.bind_eq_some_iff] at h
  obtain ⟨⟨result, s₁⟩, heach, h⟩ := h
  obtain ⟨raised, inner, hbooks, hinner⟩ := books_of_does (hl.compileEach targets) heach
  cases result with
  | error e =>
    cases h
    exact ⟨raised, inner, (List.append_nil inner).symm ▸ hbooks, hinner⟩
  | ok outputs =>
    cases h
    exact ⟨raised, inner, hbooks.handOut, hinner⟩

/-- **The books of one request.** The lists that scripts take while it is answered come first, and there are none if
the scripts keep the events; then comes the list that the request itself hands out, if it does. -/
theorem books_serveAt {q : Request} {r : q.Reply} (h : k.serveAt n c q s = some (r, s')) :
    ∃ raised inner, s.Books s' raised (inner ++ q.handedOut r) ∧ (k.Obey .keeping → inner = []) := by
  have hsound := Policy.sound_withTakes (¬ k.Obey .keeping)
  have hl := k.obey_withTakes_not_keeping.does_levelAt hsound n c
  suffices hbooks : ∃ raised inner, s.Books s' raised (inner ++ q.handedOut r) ∧ (¬ ¬ k.Obey .keeping → inner = []) by
    obtain ⟨raised, inner, hbooks, hinner⟩ := hbooks
    exact ⟨raised, inner, hbooks, fun hk => hinner (not_not_intro hk)⟩
  by_cases hq : q.Takes
  · cases q with
    | compileOutputs targets => exact books_compileOutputs hl h
    | compileProgram =>
      have hrun : (k.levelAt n c).compileProgram c s = some (r, s') := h
      rw [Level.compileProgram] at hrun
      cases htargets : c.programTargets with
      | error e =>
        -- without targets nothing is computed, and the collection is left alone
        rw [htargets] at hrun
        cases hrun
        exact ⟨[], [], .refl s, fun _ => rfl⟩
      | ok targets =>
        rw [htargets] at hrun
        obtain ⟨raised, inner, hbooks, hinner⟩ := books_compileOutputs hl hrun
        refine ⟨raised, inner, ?_, hinner⟩
        cases r <;> exact hbooks
    | takeEvents =>
      cases h
      exact ⟨[], [], (Session.Books.refl s).handOut, fun _ => rfl⟩
    | _ => cases hq
  · have hobeys : q.Obeys (.withTakes ¬ k.Obey .keeping) c := .withTakes fun htakes => absurd htakes hq
    obtain ⟨raised, lists, hbooks, hlists⟩ := books_of_does (k.obey_withTakes_not_keeping.does_serveAt hsound n hobeys) h
    refine ⟨raised, lists, ?_, hlists⟩
    rw [Request.handedOut_of_not_takes hq, List.append_nil]
    exact hbooks

/-- **The books of requests one after the other** are those of the requests, added up. -/
theorem books_each {qs : List Request} {answers : List Answer} (h : k.runAt n c (.each qs) s = some (answers, s')) :
    ∃ raised lists, s.Books s' raised lists ∧ (answers.flatMap Answer.handedOut).Sublist lists ∧
      (k.Obey .keeping → lists = answers.flatMap Answer.handedOut) := by
  induction qs generalizing s answers with
  | nil =>
    cases h
    exact ⟨[], [], .refl _, .refl _, fun _ => rfl⟩
  | cons q rest ih =>
    rw [runAt, Level.run_each_cons, Option.bind_eq_some_iff] at h
    obtain ⟨⟨r, s₁⟩, hfirst, h⟩ := h
    obtain ⟨⟨as, s₂⟩, hrest, heq⟩ := Option.map_eq_some_iff.mp h
    cases heq
    obtain ⟨raised, inner, hbooks, hinner⟩ := books_serveAt hfirst
    obtain ⟨raised', lists, hbooks', hsub, hlists⟩ := ih hrest
    refine ⟨raised ++ raised', (inner ++ q.handedOut r) ++ lists, hbooks.trans hbooks', ?_, fun hk => ?_⟩
    · rw [List.flatMap_cons]
      exact (List.sublist_append_right inner _).append hsub
    · rw [hinner hk, hlists hk, List.nil_append, List.flatMap_cons]
      rfl

/-- Whatever scripts and clients do, the books of a compiler balance. -/
theorem heard_eq_of_runAt {α : Type} {t : Script α} {a : α} (h : k.runAt n c t {} = some (a, s)) :
    s.heard = s.handed.flatten ++ s.events := by
  obtain ⟨ms, rfl⟩ := exists_moves_of_runAt h
  obtain ⟨lists, hbooks⟩ := Session.Books.exists_after {} ms
  have hhanded : (({} : Session).after ms).handed = lists := hbooks.handed
  rw [Session.heard_after, hhanded]
  exact hbooks.collected

end Scripts

/-! ### What programs raise -/

namespace Compiler

variable (c : Compiler)

/-- The events that the request raises by the rules of evaluation, while some outputs are being computed. -/
def Raises (marks : List Socket) (q : Request) (es : List Event) : Prop :=
  ∃ log, c.Gives marks (c.requestSteps q) () log ∧ es = kept log

/-- No inference that the request comes to is nested in itself. -/
def Ends (marks : List Socket) (q : Request) : Prop := ∀ b, c.Prompts marks (c.requestSteps q) b → c.WellNested b

variable {c} {q : Request} {targets : List Socket} {s s' : Session}

theorem exists_raises (h : c.perform q s = some ((), s')) :
    ∃ raised, c.Raises s.inProgress q raised ∧ s'.inProgress = s.inProgress ∧ s'.heard = s.heard ++ raised := by
  rcases c.perform_eq q s with heq | heq
  · rw [heq] at h
    obtain ⟨log, hgives, rfl⟩ := execute_eq_some_iff.mp h
    exact ⟨kept log, ⟨log, hgives, rfl⟩, rfl, rfl⟩
  · rw [heq] at h
    obtain ⟨⟨_, s₁⟩, hrun, hs₁⟩ := Option.map_eq_some_iff.mp h
    obtain ⟨log, hgives, rfl⟩ := execute_eq_some_iff.mp hrun
    cases hs₁
    exact ⟨kept log, ⟨log, hgives, rfl⟩, rfl, rfl⟩

theorem serve_isSome_iff : (c.serve q s).isSome ↔ c.Ends s.inProgress q := by
  have hperform : (c.perform q s).isSome = (c.serve q s).isSome := by
    rw [perform, Eval.map_apply, Option.isSome_map]
  have hexecute : (c.perform q s).isSome = (c.execute (c.requestSteps q) s).isSome := by
    rcases c.perform_eq q s with heq | heq
    · rw [heq]
    · rw [heq, Option.isSome_map]
  rw [← hperform, hexecute, execute_isSome_iff, Ends]

theorem perform_of_serve {r : q.Reply} (h : c.serve q s = some (r, s')) : c.perform q s = some ((), s') := by
  rw [perform, Eval.map_apply, h]
  rfl

/-- What a run raises is what its requests raise by the rules, each of them under the marks of the beginning. -/
theorem exists_raises_each {qs : List Request} {answers : List Answer}
    (h : c.run (.each qs) s = some (answers, s')) :
    ∃ raised, List.Forall₂ (c.Raises s.inProgress) qs raised ∧ s'.heard = s.heard ++ raised.flatten := by
  induction qs generalizing s answers with
  | nil =>
    cases h
    exact ⟨[], .nil, (List.append_nil _).symm⟩
  | cons q rest ih =>
    rw [run, Level.run_each_cons, Option.bind_eq_some_iff] at h
    obtain ⟨⟨r, s₁⟩, hfirst, h⟩ := h
    obtain ⟨⟨as, s₂⟩, hrest, heq⟩ := Option.map_eq_some_iff.mp h
    cases heq
    obtain ⟨es, hraises, hmarks, hheard⟩ := exists_raises (perform_of_serve hfirst)
    obtain ⟨raised, hrun, hheard'⟩ := ih hrest
    rw [hmarks] at hrun
    exact ⟨es :: raised, .cons hraises hrun, by rw [hheard', hheard, List.flatten_cons, List.append_assoc]⟩

theorem run_each_isSome_iff {qs : List Request} :
    (c.run (.each qs) s).isSome ↔ ∀ q ∈ qs, c.Ends s.inProgress q := by
  induction qs generalizing s with
  | nil => exact iff_of_true rfl (by simp)
  | cons q rest ih =>
    rw [List.forall_mem_cons, ← serve_isSome_iff, run, Level.run_each_cons]
    cases hfirst : c.level.serve (c.inference.levelWith (outputAt c.depth c.inference)) c q s with
    | none =>
      have hserve : c.serve q s = none := hfirst
      simp [hserve]
    | some x =>
      obtain ⟨r, s₁⟩ := x
      have hserve : c.serve q s = some (r, s₁) := hfirst
      have hmarks := inProgress_perform (perform_of_serve hserve)
      rw [hserve, ← hmarks, ← ih, Option.bind_some, Option.isSome_map]
      simp [run]

/-! ### Targets refused midway -/

theorem compileEach_refused {before after : List Socket} {t : Socket} {e : Error} (hs : s.inProgress = [])
    (hbefore : ∀ u ∈ before, c.Declares u ∧ c.Settles u) (ht : c.property t.node t.key = .error e) :
    c.compileEach (before ++ t :: after) s = some (.error e, s.raise (before.flatMap c.eventsAlone)) := by
  induction before generalizing s with
  | nil => rw [List.nil_append, compileEach_cons_error ht, List.flatMap_nil, Session.raise_nil]
  | cons u rest ih =>
    obtain ⟨hfirst, hrest⟩ := List.forall_mem_cons.mp hbefore
    obtain ⟨⟨schema, p⟩, hprop⟩ := declares_iff.mp hfirst.1
    obtain ⟨⟨result, s₁⟩, hout⟩ := Option.isSome_iff_exists.mp (settles_iff.mp hfirst.2)
    have houtcome := output_outcome hout
    rw [hprop] at houtcome
    obtain ⟨v, rfl⟩ := houtcome
    have hraised : (s.raise s₁.events).inProgress = [] := hs
    rw [List.cons_append, compileEach_cons_ok hprop hs, hout, Option.bind_some]
    dsimp only
    rw [ih hraised hrest, Session.raise_raise, List.flatMap_cons, eventsAlone_eq hout]
    rfl

theorem compileOutputs_eq_error {e : Error} (hs : s.inProgress = [])
    (h : c.compileOutputs targets s = some (.error e, s')) :
    ∃ before t after, targets = before ++ t :: after ∧ c.property t.node t.key = .error e ∧
      s' = s.raise (before.flatMap c.eventsAlone) := by
  rw [compileOutputs_eq_bind, Eval.bind_apply, Option.bind_eq_some_iff] at h
  obtain ⟨⟨result, s₁⟩, heach, h⟩ := h
  cases result with
  | ok outputs => cases h
  | error e' =>
    cases h
    obtain ⟨before, t, after, rfl, hbefore, ht⟩ := (compileEach_eq_error_iff hs).mp ⟨_, _, heach⟩
    cases hprop : c.property t.node t.key with
    | ok found => exact absurd (declares_iff.mpr ⟨found, hprop⟩) ht
    | error e =>
      rw [compileEach_refused hs hbefore hprop] at heach
      cases heach
      exact ⟨before, t, after, rfl, hprop, rfl⟩

/-- **Collected, taken and heard events agree.** Whatever scripts a compiler runs, and whatever a client does with it,
request by request, the listener of a compiler that was fresh has heard what was handed out, in order, and then what is
still collected. The lists that were handed out are those of the answers, with the ones between them that scripts took
while the answers were computed; they are those of the answers alone if the scripts take none. It is so for each single
request in any session.

Where programs are run, what is heard are the events that the requests raise by the rules, each of them once; a run
ends just when no inference that it comes to is nested in itself; and where a list of targets fails midway, the events
of the targets before that one stay collected. -/
theorem heard_eq_handedOut_append_events (c : Compiler) (qs : List Request) :
    (∀ (k : Scripts) (n : Nat) (α : Type) (t : Script α) (a : α) (s : Session),
      k.runAt n c t {} = some (a, s) → s.heard = s.handed.flatten ++ s.events) ∧
    (∀ (k : Scripts) (n : Nat) (answers : List Answer) (s : Session), k.runAt n c (.each qs) {} = some (answers, s) →
      (answers.flatMap Answer.handedOut).Sublist s.handed ∧
      (k.Obey .keeping → s.handed = answers.flatMap Answer.handedOut)) ∧
    (∀ (k : Scripts) (n : Nat) (q : Request) (s : Session) (r : q.Reply) (s' : Session),
      k.serveAt n c q s = some (r, s') → ∃ raised inner, s.Books s' raised (inner ++ q.handedOut r)) ∧
    (∀ (answers : List Answer) (s : Session), c.run (.each qs) {} = some (answers, s) →
      s.heard = (answers.flatMap Answer.handedOut).flatten ++ s.events ∧
      (∃ raised, List.Forall₂ (c.Raises []) qs raised ∧ s.heard = raised.flatten) ∧
      ∀ targets e s', c.compileOutputs targets s = some (.error e, s') →
        ∃ before t after, targets = before ++ t :: after ∧ c.property t.node t.key = .error e ∧
          s' = s.raise (before.flatMap c.eventsAlone)) ∧
    ((c.run (.each qs) {}).isSome ↔ ∀ q ∈ qs, c.Ends [] q) := by
  have heach : ∀ (k : Scripts) (n : Nat) (answers : List Answer) (s : Session),
      k.runAt n c (.each qs) {} = some (answers, s) → (answers.flatMap Answer.handedOut).Sublist s.handed ∧
        (k.Obey .keeping → s.handed = answers.flatMap Answer.handedOut) := by
    intro k n answers s h
    obtain ⟨raised, lists, hbooks, hsub, hlists⟩ := Scripts.books_each h
    have hhanded : s.handed = lists := hbooks.handed
    rw [hhanded]
    exact ⟨hsub, hlists⟩
  refine ⟨fun k n α t a s h => Scripts.heard_eq_of_runAt h, heach, ?_, ?_, run_each_isSome_iff⟩
  · intro k n q s r s' h
    obtain ⟨raised, inner, hbooks, -⟩ := Scripts.books_serveAt h
    exact ⟨raised, inner, hbooks⟩
  · intro answers s h
    have hrun : Scripts.own.runAt c.depth c (.each qs) {} = some (answers, s) := run_eq_runAt c _ ▸ h
    have hheard := Scripts.heard_eq_of_runAt hrun
    rw [(heach _ _ _ _ hrun).2 (own_obey _)] at hheard
    obtain ⟨raised, hraises, hraised⟩ := exists_raises_each h
    obtain ⟨ms, hms⟩ := Scripts.exists_moves_of_runAt hrun
    have hmarks : s.inProgress = [] := hms ▸ Session.inProgress_after {} ms
    exact ⟨hheard, ⟨raised, hraises, hraised⟩, fun targets e s' => compileOutputs_eq_error hmarks⟩

/-- Requests to a ring, with a look at the events, a list of targets that fails midway, and a whole program. -/
def ringRun : List Request :=
  [.output "a" "out", .events, .compileOutputs [⟨"b", "out"⟩, ⟨"c", "out"⟩], .takeEvents,
    .argument ⟨"a", echo, []⟩ "in", .input "c" "in", .compileProgram, .infer "a" "in", .output "b" "out"]

/-- Scripts that read an input and take the events, and compile an output in the end. -/
def hoarder : Scripts where
  output _ _ args := .ask (.argument args "in") fun _ => .ask .takeEvents fun _ => .done (.ok none)
  post _ node key v := .ask (.compileOutputs [⟨node, key⟩]) fun _ => .done v

/-- Where programs are run, six events are taken, three of them from the list that failed, ten go with the report, and
three are left. The hoarder takes events in between, more than the answers hand out, and none is lost either. -/
theorem heard_eq_handedOut_append_events_ring :
    (∃ answers s, ring.run (.each ringRun) {} = some (answers, s) ∧
      answers.map (fun a => a.handedOut.flatten.length) = [0, 0, 0, 6, 0, 0, 10, 0, 0] ∧ s.events.length = 3 ∧
      s.heard = (answers.flatMap Answer.handedOut).flatten ++ s.events) ∧
    (∃ s, ring.compileOutputs [⟨"b", "out"⟩, ⟨"c", "out"⟩] {} = some (.error (.unknownNode "c"), s) ∧
      s.events.length = 3 ∧
      ∃ before t after, [⟨"b", "out"⟩, ⟨"c", "out"⟩] = before ++ t :: after ∧
        ring.property t.node t.key = .error (.unknownNode "c") ∧
        s = ({} : Session).raise (before.flatMap ring.eventsAlone)) ∧
    (∃ answers s, hoarder.runAt 3 ring (.each [.output "a" "out", .argument ⟨"a", echo, []⟩ "in", .takeEvents]) {} =
        some (answers, s) ∧
      answers.map (fun a => a.handedOut.map List.length) = [[], [], [1]] ∧
      s.handed.map List.length = [2, 1, 1, 1, 2, 1, 1, 1, 1] ∧
      s.heard = s.handed.flatten ++ s.events ∧ (answers.flatMap Answer.handedOut).Sublist s.handed) := by
  refine ⟨?_, ?_, ?_⟩
  · have hlengths : (ring.run (.each ringRun) {}).map
        (fun r => (r.1.map fun a => a.handedOut.flatten.length, r.2.events.length)) =
          some ([0, 0, 0, 6, 0, 0, 10, 0, 0], 3) := by decide +kernel
    obtain ⟨⟨answers, s⟩, hrun, hr⟩ := Option.map_eq_some_iff.mp hlengths
    obtain ⟨hanswers, hleft⟩ := Prod.mk.inj hr
    obtain ⟨-, -, -, hown, -⟩ := heard_eq_handedOut_append_events ring ringRun
    exact ⟨answers, s, hrun, hanswers, hleft, (hown answers s hrun).1⟩
  · obtain ⟨-, -, -, hown, -⟩ := heard_eq_handedOut_append_events ring []
    obtain ⟨-, -, hrefused⟩ := hown [] {} rfl
    exact ⟨_, rfl, rfl, hrefused _ _ _ rfl⟩
  · have hlengths : (hoarder.runAt 3 ring
        (.each [.output "a" "out", .argument ⟨"a", echo, []⟩ "in", .takeEvents]) {}).map
          (fun r => (r.1.map fun a => a.handedOut.map List.length, r.2.handed.map List.length)) =
            some ([[], [], [1]], [2, 1, 1, 1, 2, 1, 1, 1, 1]) := by decide +kernel
    obtain ⟨⟨answers, s⟩, hrun, hr⟩ := Option.map_eq_some_iff.mp hlengths
    obtain ⟨hanswers, hhanded⟩ := Prod.mk.inj hr
    obtain ⟨hbalance, hsub, -⟩ := heard_eq_handedOut_append_events ring
      [.output "a" "out", .argument ⟨"a", echo, []⟩ "in", .takeEvents]
    exact ⟨answers, s, hrun, hanswers, hhanded, hbalance _ _ _ _ _ _ hrun, (hsub _ _ _ _ hrun).1⟩

end Compiler

end BlockGraph
