import BlockGraph.Proofs.Evaluation.Plain
import BlockGraph.Proofs.Evaluation.Trace
import BlockGraph.Proofs.Graph.Edits

/-!
# Outputs within the evaluation of others

Two evaluations go the same way when they meet the same trees under corresponding marks: `Simulates` is a relation
between outputs under marks that one step of evaluation keeps, and `traceAt_eq_of_simulates` is the whole run. The
bounds on nesting may differ, as long as both are large enough.

Where dependencies form no cycle, an output that is computed for another one, under the marks of those that wait for
it, is what it is `alone`. So the trace of an output is that of its tree over the outputs alone (`alone_eq`), and one
can argue about it by induction along dependencies (`AcyclicFrom.induction`).
-/

namespace BlockGraph

namespace Compiler

/-! ### Simulation -/

/-- Related outputs are the same property, both are marked or neither is, and they lead by the same tree to outputs
that are related under one more mark. -/
def Simulates (c c' : Compiler) (rel : List Socket → List Socket → Socket → Prop) : Prop :=
  ∀ marks marks' x, rel marks marks' x →
    c'.property x.node x.key = c.property x.node x.key ∧ (x ∈ marks' ↔ x ∈ marks) ∧
    ∀ schema p, c.property x.node x.key = .ok (schema, p) → x ∉ marks →
      c'.outputSteps x schema p = c.outputSteps x schema p ∧
      (c.outputSteps x schema p).Within (rel (x :: marks) (x :: marks')) fun _ => True

variable {c c' : Compiler} {x y : Socket}

theorem traceAt_eq_of_simulates {rel : List Socket → List Socket → Socket → Prop} (hrel : c.Simulates c' rel)
    {n n' : Nat} {marks marks' : List Socket} (hx : rel marks marks' x) (hn : (c.unmarked marks).card < n)
    (hn' : (c'.unmarked marks').card < n') : traceAt n' c' marks' x = traceAt n c marks x := by
  induction n generalizing n' marks marks' x with
  | zero => omega
  | succ n ih =>
    obtain ⟨n', rfl⟩ : ∃ k, n' = k + 1 := ⟨n' - 1, by omega⟩
    obtain ⟨hsame, hmarks, hstep⟩ := hrel marks marks' x hx
    rw [traceAt, traceAt, hsame]
    cases hprop : c.property x.node x.key with
    | error e => rfl
    | ok found =>
      obtain ⟨schema, p⟩ := found
      dsimp only
      by_cases hmark : x ∈ marks
      · rw [if_pos hmark, if_pos (hmarks.mpr hmark)]
      · have hmark' : x ∉ marks' := fun h => hmark (hmarks.mp h)
        obtain ⟨htree, hwithin⟩ := hstep schema p hprop hmark
        have hlt := c.card_unmarked_cons_lt (c.mem_declared hprop) hmark
        have hlt' := c'.card_unmarked_cons_lt (c'.mem_declared (hsame.trans hprop)) hmark'
        rw [if_neg hmark, if_neg hmark', htree]
        congr 1
        exact hwithin.trace_congr fun y hy => ih hy (by omega) (by omega)

/-! ### Without cycles -/

theorem AcyclicFrom.of_dependsOn (h : ∀ y, c.DependsOn x y → c.AcyclicFrom y) : c.AcyclicFrom x :=
  no_cycle_of_next h

def endpoints (c : Compiler) : Finset Socket :=
  (c.graph.connections.flatMap fun conn => [conn.source, conn.target]).toFinset

theorem mem_endpoints_of_peers {node key : String} {side : Side} (h : y ∈ c.graph.peers node side key) :
    y ∈ c.endpoints := by
  rw [endpoints, List.mem_toFinset, List.mem_flatMap]
  cases side with
  | input =>
    rw [Graph.peers_input] at h
    obtain ⟨conn, hconn, rfl⟩ := List.mem_map.mp h
    exact ⟨conn, List.mem_of_mem_filter hconn, by simp⟩
  | output =>
    rw [Graph.peers_output] at h
    obtain ⟨conn, hconn, rfl⟩ := List.mem_map.mp h
    exact ⟨conn, List.mem_of_mem_filter hconn, by simp⟩

theorem mem_endpoints_of_dependsOn (h : c.DependsOn x y) : y ∈ c.endpoints := by
  obtain ⟨schema, key, p, -, -, -, hy⟩ := h
  rw [consulted] at hy
  split at hy
  · exact mem_endpoints_of_peers hy
  · exact mem_endpoints_of_peers (List.mem_of_mem_take hy)

open Classical in
theorem AcyclicFrom.induction {motive : Socket → Prop}
    (step : ∀ x, c.AcyclicFrom x → (∀ y, c.DependsOn x y → motive y) → motive x) (hx : c.AcyclicFrom x) :
    motive x := by
  -- fewer ends of connections can be reached from what `x` depends on
  induction hcard : (c.endpoints.filter (Relation.TransGen c.DependsOn x)).card using Nat.strong_induction_on
    generalizing x with
  | _ n ih =>
    refine step x hx fun y hxy => ?_
    have hless := card_reached_lt hxy (mem_endpoints_of_dependsOn hxy) (hx y (.single hxy))
    exact ih _ (hcard ▸ hless) (hx.dependsOn hxy) rfl

/-- The trace of an output on a compiler that computes nothing yet. -/
def alone (c : Compiler) (x : Socket) : Traced (Outcome (Option Value)) := traceAt c.depth c [] x

/-- Marks that cannot be reached make no difference. -/
theorem simulates_of_unreached (hc : c.ReadsOwnArguments) :
    c.Simulates c fun marks marks' x =>
      c.AcyclicFrom x ∧ ∀ m ∈ marks ++ marks', ¬ Relation.ReflTransGen c.DependsOn x m := by
  rintro marks marks' x ⟨hacyclic, hfree⟩
  have hmark : x ∉ marks := fun hx => hfree x (List.mem_append_left _ hx) .refl
  have hmark' : x ∉ marks' := fun hx => hfree x (List.mem_append_right _ hx) .refl
  refine ⟨rfl, iff_of_false hmark' hmark, fun schema p hprop _ => ⟨rfl, ?_⟩⟩
  refine (c.within_outputSteps_of_arguments hc hprop).mono (fun y hxy => ⟨hacyclic.dependsOn hxy, ?_⟩) fun _ h => h
  intro m hm hym
  simp only [List.cons_append, List.mem_cons, List.mem_append] at hm
  rcases hm with rfl | hm | rfl | hm
  · exact hacyclic m .refl (.head' hxy hym)
  · exact hfree m (List.mem_append_left _ hm) (.head hxy hym)
  · exact hacyclic m .refl (.head' hxy hym)
  · exact hfree m (List.mem_append_right _ hm) (.head hxy hym)

/-- **Without cycles, an output is made from what others are alone.** -/
theorem alone_eq (hc : c.ReadsOwnArguments) (hacyclic : c.AcyclicFrom x) {schema : Schema} {p : Property}
    (hprop : c.property x.node x.key = .ok (schema, p)) :
    c.alone x = ((c.outputSteps x schema p).trace c.alone fun _ _ => none).map fun r => (.ok r.1, r.2) := by
  have hdepth := c.card_unmarked_lt_depth []
  have hlt := c.card_unmarked_cons_lt (c.mem_declared hprop) (List.not_mem_nil (a := x))
  obtain ⟨n, hn⟩ : ∃ n, c.depth = n + 1 := ⟨_, rfl⟩
  rw [alone, hn, traceAt, hprop]
  dsimp only
  rw [if_neg List.not_mem_nil]
  congr 1
  refine (c.within_outputSteps_of_arguments hc hprop).trace_congr fun y hxy => ?_
  refine traceAt_eq_of_simulates (simulates_of_unreached hc) ⟨hacyclic.dependsOn hxy, ?_⟩ hdepth (by omega)
  intro m hm hym
  rw [List.nil_append, List.mem_singleton] at hm
  subst hm
  exact hacyclic m .refl (.head' hxy hym)

theorem alone_isSome (hc : c.InferFree) (x : Socket) : (c.alone x).isSome := by
  have hsome := output_isSome hc x {}
  have hobserve := c.observe_outputAt c.depth [] x
  rw [c.framed_outputAt c.depth x {}, Option.isSome_map] at hsome
  rw [hobserve, Traced.forget, Option.isSome_map] at hsome
  exact hsome

theorem output_of_alone {s : Session} {r : Outcome (Option Value)} {ns : List Notice} (h : c.alone x = some (r, ns))
    (hs : s.inProgress = []) : c.output x.node x.key s = some (r, s.raise (ns.map Notice.event)) := by
  have hframed := c.framed_outputAt c.depth x s
  rw [hs, observe_outputAt, show traceAt c.depth c [] x = some (r, ns) from h] at hframed
  exact hframed

end Compiler

end BlockGraph
