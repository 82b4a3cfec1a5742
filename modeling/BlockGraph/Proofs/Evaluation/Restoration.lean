import BlockGraph.Proofs.Evaluation.Ledger
import BlockGraph.Proofs.Evaluation.Memory

/-!
# Marks are restored

Whoever asks a compiler for something finds the marks afterwards as they were before: a mark that was set is taken back
on every way out, and the mark of an output that is being computed already is left to the one who set it. Of the
collected events none is lost unless somebody takes them.
-/

namespace BlockGraph.Compiler

/-- **Marks are restored on every path.** Whatever outputs are being computed when a compiler is asked for something, and
whatever its scripts do, the same outputs are marked when the request has been answered, with a value or with an error.
If neither the scripts nor the request take events, those that were collected and heard before are still there,
followed by the new ones. It is so under every bound on the nesting of steps, and for the programs of a compiler. -/
theorem marks_restored (c : Compiler) (q : Request) (s s' : Session) (r : q.Reply) :
    (∀ (k : Scripts) (n : Nat), k.serveAt n c q s = some (r, s') →
      s'.inProgress = s.inProgress ∧
      (k.Obey .keeping → ¬ q.Takes → ∃ es, s'.events = s.events ++ es ∧ s'.heard = s.heard ++ es)) ∧
    (c.serve q s = some (r, s') →
      s'.inProgress = s.inProgress ∧ (¬ q.Takes → ∃ es, s'.events = s.events ++ es ∧ s'.heard = s.heard ++ es)) := by
  have hscripts : ∀ (k : Scripts) (n : Nat), k.serveAt n c q s = some (r, s') →
      s'.inProgress = s.inProgress ∧
      (k.Obey .keeping → ¬ q.Takes → ∃ es, s'.events = s.events ++ es ∧ s'.heard = s.heard ++ es) := by
    intro k n hrun
    constructor
    · obtain ⟨ms, rfl⟩ := Scripts.exists_moves_of_serveAt hrun
      exact s.inProgress_after ms
    · intro hk hq
      obtain ⟨es, rfl⟩ := hk.exists_raise_of_serveAt hq hrun
      exact ⟨es, rfl, rfl⟩
  refine ⟨hscripts, fun hserve => ?_⟩
  rw [serve_eq_serveAt] at hserve
  obtain ⟨hmarks, hkept⟩ := hscripts .own c.depth hserve
  exact ⟨hmarks, hkept (own_obey _)⟩

/-- Scripts that read an input, ask for the output that they compute, and fail when too many events are collected. The
last step reads the input again. -/
def nosy : Scripts where
  output _ p args :=
    .ask (.argument args "in") fun _ => .ask (.output args.node p.key) fun _ => .ask .events fun es =>
      .done (if es.length ≤ 3 then .ok none else .error (.stated [] "too many events"))
  post _ node _ v := .ask (.input node "in") fun _ => .done v

/-- A session in which an output is being computed and an event was collected. -/
def busy : Session where
  inProgress := [⟨"b", "out"⟩]
  events := [.missingInput "b" "Echo" "in"]
  heard := [.missingInput "b" "Echo" "in"]

/-- The mark that is found in the ring stays. Reading all inputs of the blender fails after three events, and leaves the
mark as well. The nosy scripts find their own marks again and again, in the last step too, and fail in the end; no mark
is left. The hoarder leaves the mark, and no event. -/
theorem marks_restored_nosy :
    (∃ s', ring.serve (.output "b" "out") busy = some (.ok none, s') ∧ s'.events.length = 2 ∧
      s'.inProgress = busy.inProgress ∧ ∃ es, s'.events = busy.events ++ es ∧ s'.heard = busy.heard ++ es) ∧
    (∃ args s', blender.serve (.prefetch ⟨"m", blend, []⟩) busy = some ((.error (.unknownNode "ghost"), args), s') ∧
      s'.events.length = 4 ∧
      s'.inProgress = busy.inProgress ∧ ∃ es, s'.events = busy.events ++ es ∧ s'.heard = busy.heard ++ es) ∧
    (∃ s', nosy.serveAt 3 ring (.output "a" "out") {} = some (.ok none, s') ∧ s'.events.length = 7 ∧
      s'.inProgress = [] ∧ ∃ es, s'.events = [] ++ es ∧ s'.heard = [] ++ es) ∧
    (∃ s', hoarder.serveAt 3 ring (.output "a" "out") busy = some (.ok none, s') ∧ s'.events = [] ∧
      s'.inProgress = busy.inProgress) := by
  have hring : ∃ s', ring.serve (.output "b" "out") busy = some (.ok none, s') ∧ s'.events.length = 2 :=
    ⟨_, rfl, rfl⟩
  have hblender : ∃ args s', blender.serve (.prefetch ⟨"m", blend, []⟩) busy =
      some ((.error (.unknownNode "ghost"), args), s') ∧ s'.events.length = 4 := ⟨_, _, rfl, rfl⟩
  have hnosy : ∃ s', nosy.serveAt 3 ring (.output "a" "out") {} = some (.ok none, s') ∧ s'.events.length = 7 :=
    ⟨_, rfl, rfl⟩
  have hkeeps : nosy.Obey .keeping :=
    ⟨fun _ _ _ _ => ⟨.withTakes id, fun _ _ => ⟨.withTakes id, fun _ _ => ⟨.withTakes id, fun _ _ => trivial⟩⟩⟩,
      fun _ _ _ _ => ⟨.withTakes id, fun _ _ => trivial⟩⟩
  have hhoarder : ∃ s', hoarder.serveAt 3 ring (.output "a" "out") busy = some (.ok none, s') ∧ s'.events = [] :=
    ⟨_, rfl, rfl⟩
  obtain ⟨s₁, hring, hlength₁⟩ := hring
  obtain ⟨args, s₂, hblender, hlength₂⟩ := hblender
  obtain ⟨s₃, hnosy, hlength₃⟩ := hnosy
  obtain ⟨s₄, hhoarder, hevents⟩ := hhoarder
  obtain ⟨hmarks₁, hkept₁⟩ := (marks_restored ring _ busy s₁ _).2 hring
  obtain ⟨hmarks₂, hkept₂⟩ := (marks_restored blender _ busy s₂ _).2 hblender
  obtain ⟨hmarks₃, hkept₃⟩ := (marks_restored ring _ {} s₃ _).1 nosy 3 hnosy
  obtain ⟨hmarks₄, -⟩ := (marks_restored ring _ busy s₄ _).1 hoarder 3 hhoarder
  exact ⟨⟨s₁, hring, hlength₁, hmarks₁, hkept₁ id⟩, ⟨args, s₂, hblender, hlength₂, hmarks₂, hkept₂ id⟩,
    ⟨s₃, hnosy, hlength₃, hmarks₃, hkept₃ hkeeps id⟩, ⟨s₄, hhoarder, hevents, hmarks₄⟩⟩

end BlockGraph.Compiler
