import BlockGraph.Proofs.Evaluation.Rules

/-!
# When inferences end

A pass that infers a type starts without marks. So an output that an enclosing pass is computing is computed again in
it, and nothing stops a property whose type is inferred in order to infer its own type. That is the only way in which
an evaluation does not end.

* `Prompts` says which inferences a tree comes to, and `Nests` which ones come up within an inference;
* `Gives.acc`: what ends has no endless nesting below it;
* `runAt_isSome`: what has only inferences below it that end, ends, with a bound on the steps;
* `execute_isSome_iff`: with the bound of the compiler, an evaluation ends just when no inference that it comes to is
  nested in itself, directly or further down;
* `execute_eq_some_iff`: it then gives what the rules give.
-/

namespace BlockGraph.Compiler

/-- Carrying out the tree under the marks comes to the inference of the type that flows into the property. -/
inductive Prompts : Compiler → List Socket → {α : Type} → Steps α → Socket → Prop
  | here {c : Compiler} {marks : List Socket} {α : Type} (node key : String) (next : Outcome (Option Ty) → Steps α) :
      Prompts c marks (.infer node key next) ⟨node, key⟩
  | report {c : Compiler} {marks : List Socket} {α : Type} {e : Event} {next : Steps α} {b : Socket}
      (h : Prompts c marks next b) : Prompts c marks (.report e next) b
  | entered {c : Compiler} {marks : List Socket} {α : Type} {socket : Socket}
      {next : Outcome (Option Value) → Steps α} {schema : Schema} {p : Property} {b : Socket}
      (hprop : c.property socket.node socket.key = .ok (schema, p)) (hmark : socket ∉ marks)
      (h : Prompts c (socket :: marks) (c.outputSteps socket schema p) b) : Prompts c marks (.compute socket next) b
  | computed {c : Compiler} {marks : List Socket} {α : Type} {socket : Socket}
      {next : Outcome (Option Value) → Steps α} {r : Outcome (Option Value)} {log : List Raised} {b : Socket}
      (hr : c.Gives marks (.compute socket .done) r log) (h : Prompts c marks (next r) b) :
      Prompts c marks (.compute socket next) b
  | inferred {c : Compiler} {marks : List Socket} {α : Type} {node key : String}
      {next : Outcome (Option Ty) → Steps α} {r : Outcome (Option Value)} {log : List Raised} {b : Socket}
      (hr : c.inference.Gives [] (c.inference.inputSteps node key) r log) (h : Prompts c marks (next (typeFound r)) b) :
      Prompts c marks (.infer node key next) b

/-- Inferring the type of the first property comes to inferring that of the second. -/
def Nests (c : Compiler) (a b : Socket) : Prop := c.inference.Prompts [] (c.inference.inputSteps a.node a.key) b

/-- No inference that comes up below that of the property is nested in itself. -/
def WellNested (c : Compiler) (a : Socket) : Prop :=
  ∀ b, Relation.ReflTransGen c.Nests a b → ¬ Relation.TransGen c.Nests b b

variable {c : Compiler} {α : Type} {n m : Nat} {node key : String} {socket a b : Socket} {marks : List Socket}
  {s s' : Session}

theorem Prompts.of_done {next : Outcome (Option Value) → Steps α}
    (h : c.Prompts marks (.compute socket .done) b) :
    c.Prompts marks (.compute socket next) b := by
  cases h with
  | entered hprop hmark h => exact .entered hprop hmark h
  | computed _ h => cases h

theorem prompts_infer_done : c.Prompts marks (.infer node key .done) b ↔ b = ⟨node, key⟩ := by
  constructor
  · intro h
    cases h with
    | here => rfl
    | inferred _ h => cases h
  · rintro rfl
    exact .here node key _

/-! ### What ends is well nested -/

/-- Below the inferences that a tree comes to when it ends, there is no endless nesting. -/
theorem Gives.acc {t : Steps α} {v : α} {log : List Raised} (h : c.Gives marks t v log) :
    ∀ b, c.Prompts marks t b → Acc (fun y x => c.Nests x y) b := by
  induction h with
  | done _ => intro b hb; cases hb
  | report _ ih =>
    intro b hb
    cases hb with
    | report hb => exact ih b hb
  | unknown hprop _ ih =>
    intro b hb
    cases hb with
    | entered hprop' _ _ => rw [hprop] at hprop'; cases hprop'
    | computed hr hb =>
      obtain ⟨rfl, -⟩ := Gives.unique (.unknown hprop (.done _)) hr
      exact ih b hb
  | cycle hprop hmark _ ih =>
    intro b hb
    cases hb with
    | entered _ hmark' _ => exact absurd hmark hmark'
    | computed hr hb =>
      obtain ⟨rfl, -⟩ := Gives.unique (.cycle hprop hmark (.done _)) hr
      exact ih b hb
  | output hprop hmark hv _ ihv ih =>
    intro b hb
    cases hb with
    | entered hprop' _ hb =>
      rw [hprop] at hprop'
      cases hprop'
      exact ihv b hb
    | computed hr hb =>
      obtain ⟨rfl, -⟩ := Gives.unique (.output hprop hmark hv (.done _)) hr
      exact ih b hb
  | infer hr _ ihr ih =>
    intro b hb
    cases hb with
    -- the inferences within this one are those that its own tree comes to
    | here => exact ⟨_, fun y hy => ihr y hy⟩
    | inferred hr' hb =>
      obtain ⟨rfl, -⟩ := hr.unique hr'
      exact ih b hb

theorem wellNested_of_acc (h : Acc (fun y x => c.Nests x y) a) : c.WellNested a := by
  induction h with
  | intro a _ ih => exact no_cycle_of_next ih

/-! ### What is well nested ends -/

/-- With that many steps the inference of the type ends. -/
def InferEnds (n : Nat) (c : Compiler) (a : Socket) : Prop :=
  (runAt n c.inference (c.inference.inputSteps a.node a.key) {}).isSome

theorem InferEnds.mono (hnm : n ≤ m) (h : InferEnds n c a) : InferEnds m c a := by
  obtain ⟨r, hr⟩ := Option.isSome_iff_exists.mp h
  rw [InferEnds, runAt_mono hnm hr]
  rfl

/-- Every inference that the tree comes to ends with that many steps. -/
def PromptsEnd (m : Nat) (c : Compiler) (marks : List Socket) (t : Steps α) : Prop :=
  ∀ b, c.Prompts marks t b → InferEnds m c b

theorem runAt_isSome_of_outputs (hmn : m ≤ n)
    (houtputs : ∀ socket s, s.inProgress = marks →
      PromptsEnd m c marks (.compute socket .done) → (outputAt n c socket s).isSome)
    (t : Steps α) : ∀ s, s.inProgress = marks → PromptsEnd m c marks t → (runAt n c t s).isSome := by
  induction t with
  | done v => intro s _ _; rfl
  | report e next ih => intro s hs hends; exact ih (s.raise [e]) hs fun b hb => hends b (.report hb)
  | compute socket next ih =>
    intro s hs hends
    have hfirst := houtputs socket s hs fun b hb => hends b hb.of_done
    obtain ⟨⟨r, s'⟩, hr⟩ := Option.isSome_iff_exists.mp hfirst
    obtain ⟨log, hgives, rfl⟩ := gives_of_outputAt hr
    rw [runAt_compute, hr]
    exact ih r _ hs fun b hb => hends b (.computed (hs ▸ hgives) hb)
  | infer node key next ih =>
    intro s hs hends
    have hfirst : InferEnds n c ⟨node, key⟩ := (hends _ (.here node key next)).mono hmn
    obtain ⟨⟨r, s'⟩, hr⟩ := Option.isSome_iff_exists.mp hfirst
    obtain ⟨log, hgives, rfl⟩ := gives_of_runAt hr
    rw [runAt_infer, inferWith_eq, hr]
    exact ih _ _ hs fun b hb => hends b (.inferred hgives hb)

theorem outputAt_isSome_of_prompts (hn : (c.unmarked s.inProgress).card + m < n)
    (hends : PromptsEnd m c s.inProgress (.compute socket .done)) :
    (outputAt n c socket s).isSome := by
  induction n generalizing socket s with
  | zero => omega
  | succ n ih =>
    cases hprop : c.property socket.node socket.key with
    | error e =>
      rw [outputAt_unknown hprop]
      rfl
    | ok found =>
      obtain ⟨schema, p⟩ := found
      by_cases hmark : socket ∈ s.inProgress
      · rw [outputAt_cycle hprop hmark]
        rfl
      · have hlt := c.card_unmarked_cons_lt (c.mem_declared hprop) hmark
        rw [outputAt_entered hprop hmark, Option.isSome_map]
        refine runAt_isSome_of_outputs (by omega) ?_ _ (s.mark socket) rfl
          fun b hb => hends b (.entered hprop hmark hb)
        intro peer s' hs' hpeer
        exact ih (by rw [hs', Session.inProgress_mark]; omega) (hs' ▸ hpeer)

/-- An evaluation ends with one step more than there are unmarked properties, on top of what inferences need. -/
theorem runAt_isSome {t : Steps α} (hn : (c.unmarked s.inProgress).card + m < n)
    (hends : PromptsEnd m c s.inProgress t) : (runAt n c t s).isSome := by
  refine runAt_isSome_of_outputs (by omega) ?_ t s rfl hends
  intro socket s' hs' hsocket
  exact outputAt_isSome_of_prompts (by rw [hs']; exact hn) (hs' ▸ hsocket)

open Classical in
/-- How many properties have their types inferred below the inference of one. -/
noncomputable def height (c : Compiler) (a : Socket) : Nat :=
  (c.declared.toFinset.filter (Relation.TransGen c.Nests a)).card

theorem inferEnds_of_wellNested (h : c.WellNested a) :
    InferEnds ((c.height a + 1) * (c.declared.toFinset.card + 1)) c a := by
  induction hheight : c.height a using Nat.strong_induction_on generalizing a with
  | _ k ih =>
    -- a pass takes one step for each property, and then goes on with an inference that has less below it
    have hcard := c.inference.card_unmarked_le []
    have hdeclared : c.inference.declared.toFinset.card = c.declared.toFinset.card := rfl
    have hsplit : (k + 1) * (c.declared.toFinset.card + 1) =
        k * (c.declared.toFinset.card + 1) + (c.declared.toFinset.card + 1) := Nat.succ_mul _ _
    refine runAt_isSome (m := k * (c.declared.toFinset.card + 1)) (by dsimp only; omega) fun b hab => ?_
    have hb : c.Nests a b := hab
    cases hprop : c.inference.property b.node b.key with
    | error e =>
      show (runAt _ c.inference.inference (c.inference.inputSteps b.node b.key) {}).isSome
      rw [inputSteps, hprop]
      rfl
    | ok found =>
      have hlt : c.height b < k :=
        hheight ▸ card_reached_lt hb (List.mem_toFinset.mpr (c.inference.mem_declared hprop)) (h b (.single hb))
      have hbelow := ih _ hlt (fun y hby => h y (.head hb hby)) rfl
      exact hbelow.mono (Nat.mul_le_mul_right _ hlt)

/-! ### The bound of the compiler -/

/-- Inferences nest at most as deep as there are properties. -/
theorem inferEnds_square (h : c.WellNested a) :
    InferEnds ((c.declared.toFinset.card + 1) * (c.declared.toFinset.card + 1)) c a := by
  have hheight : c.height a ≤ c.declared.toFinset.card := by
    classical exact Finset.card_filter_le _ _
  exact (inferEnds_of_wellNested h).mono (Nat.mul_le_mul_right _ (by omega))

theorem square_lt_depth (c : Compiler) (marks : List Socket) :
    (c.unmarked marks).card + (c.declared.toFinset.card + 1) * (c.declared.toFinset.card + 1) < c.depth := by
  have hcard := c.card_unmarked_le marks
  have hlength := List.toFinset_card_le c.declared
  calc (c.unmarked marks).card + (c.declared.toFinset.card + 1) * (c.declared.toFinset.card + 1)
      < (c.declared.toFinset.card + 1) * (c.declared.toFinset.card + 1) + (c.declared.toFinset.card + 1) := by omega
    _ = (c.declared.toFinset.card + 1) * (c.declared.toFinset.card + 2) := (Nat.mul_succ _ _).symm
    _ ≤ c.depth := Nat.mul_le_mul (by omega) (by omega)

/-- An evaluation ends just when no inference below it is nested in itself. -/
theorem execute_isSome_iff {t : Steps α} :
    (c.execute t s).isSome ↔ ∀ b, c.Prompts s.inProgress t b → c.WellNested b := by
  constructor
  · intro h b hb
    obtain ⟨⟨v, s'⟩, hrun⟩ := Option.isSome_iff_exists.mp h
    obtain ⟨log, hgives, -⟩ := gives_of_runAt hrun
    exact wellNested_of_acc (hgives.acc b hb)
  · intro h
    exact runAt_isSome (c.square_lt_depth s.inProgress) fun b hb => inferEnds_square (h b hb)

theorem execute_eq_some_iff {t : Steps α} {v : α} :
    c.execute t s = some (v, s') ↔ ∃ log, c.Gives s.inProgress t v log ∧ s' = s.raise (kept log) := by
  constructor
  · exact fun h => gives_of_runAt h
  · rintro ⟨log, hgives, rfl⟩
    have hends : (c.execute t s).isSome := execute_isSome_iff.mpr fun b hb => wellNested_of_acc (hgives.acc b hb)
    obtain ⟨⟨v', s'⟩, hr⟩ := Option.isSome_iff_exists.mp hends
    obtain ⟨log', hgives', rfl⟩ := gives_of_runAt hr
    obtain ⟨rfl, rfl⟩ := hgives.unique hgives'
    exact hr

theorem execute_eq_of_runAt {t : Steps α} {r : α × Session} (h : runAt n c t s = some r) : c.execute t s = some r :=
  execute_eq_some_iff.mpr (gives_of_runAt h)

theorem output_eq_execute (c : Compiler) (node key : String) :
    c.output node key = c.execute (.compute ⟨node, key⟩ .done) :=
  (bind_pure (c.output node key)).symm

theorem infer_eq_execute (c : Compiler) (node key : String) :
    c.infer node key = c.execute (.infer node key .done) :=
  (bind_pure (c.infer node key)).symm

theorem output_eq_of_outputAt {r : Outcome (Option Value) × Session} (h : outputAt n c ⟨node, key⟩ s = some r) :
    c.output node key s = some r := by
  rw [output_eq_execute]
  refine execute_eq_of_runAt (n := n) ?_
  rw [runAt_compute, h]
  rfl

theorem infer_eq_of_inferWith {r : Outcome (Option Ty) × Session}
    (h : c.inferWith (outputAt n c.inference) node key s = some r) : c.infer node key s = some r := by
  rw [infer_eq_execute]
  refine execute_eq_of_runAt (n := n) ?_
  rw [runAt_infer, h]
  rfl

/-- **Cycles are detected within a pass, and not across passes.** An inference ends just when no inference that
comes up below it is nested in itself; a request for an output or an input ends just when that holds of all the
inferences that it comes to. What does not end has no answer with any bound on the steps. Within a pass, an output
that is being computed is absent with a warning. An inference does not see what the passes around it are computing: it
gives what it gives on a fresh compiler. -/
theorem cycle_detection_per_pass (c : Compiler) (node key : String) (s : Session) :
    ((c.infer node key s).isSome ↔ c.WellNested ⟨node, key⟩) ∧
    ((c.output node key s).isSome ↔
      ∀ b, c.Prompts s.inProgress (.compute ⟨node, key⟩ .done) b → c.WellNested b) ∧
    ((c.input node key s).isSome ↔ ∀ b, c.Prompts s.inProgress (c.inputSteps node key) b → c.WellNested b) ∧
    (∀ n r, outputAt n c ⟨node, key⟩ s = some r → c.output node key s = some r) ∧
    (∀ n r, c.inferWith (outputAt n c.inference) node key s = some r → c.infer node key s = some r) ∧
    (∀ schema p, c.property node key = .ok (schema, p) → ⟨node, key⟩ ∈ s.inProgress →
      c.output node key s = some (.ok none, s.raise [cycleWarning ⟨node, key⟩ schema])) ∧
    (c.infer node key s = (c.infer node key {}).map fun r => (r.1, s.raise r.2.events)) := by
  refine ⟨?_, ?_, ?_, ?_, ?_, ?_, ?_⟩
  · rw [infer_eq_execute, execute_isSome_iff]
    simp only [prompts_infer_done, forall_eq]
  · rw [output_eq_execute, execute_isSome_iff]
  · rw [input_eq_execute, execute_isSome_iff]
  · intro n r h
    exact output_eq_of_outputAt h
  · intro n r h
    exact infer_eq_of_inferWith h
  · intro schema p hprop hmark
    have hdepth : c.depth = (c.depth - 1) + 1 := by
      have hpos := c.card_unmarked_lt_depth []
      omega
    rw [output, hdepth]
    exact outputAt_cycle hprop hmark
  · rw [infer, inferWith_eq, inferWith_eq, Option.map_map]
    rfl

/-! ### A type inferred from itself -/

def plainType (name : String) : Ty := ⟨name, none, [], {}, .empty, true⟩

def optionalInput (key : String) : Property where
  key := key
  type := plainType "Any"
  direction := .input
  multi := false
  optional := true
  callbacks := .empty

def typedOutput (callback : Callback) : Property where
  key := "out"
  type := plainType "Any"
  direction := .output
  multi := false
  optional := false
  callbacks := KeyMap.empty.insert typeKey callback

/-- A block whose type is the one that flows into it. -/
def follower : Schema where
  name := "Follower"
  category := none
  isGlobal := false
  props := [optionalInput "in", typedOutput fun site => .request (.infer site.node "in") fun v => .done (.ok v)]

/-- A node that follows itself. -/
def narcissus : Compiler where
  graph := ⟨[.new "n" "Follower"], [⟨"n", "out", "n", "in"⟩], {}⟩
  catalog := ⟨[follower]⟩
  registry := .empty
  compileKey := typeKey

/-- A block that knows its type when it has a first operand, and otherwise has the type of the second. -/
def chooser : Schema where
  name := "Chooser"
  category := none
  isGlobal := false
  props :=
    [ optionalInput "first", optionalInput "second",
      typedOutput fun site => .get "first" fun v =>
        if v.isSome then .value (.type (plainType "Int"))
        else .request (.infer site.node "second") fun v => .done (.ok v) ]

/-- A block whose type tells whether it has an operand. -/
def teller : Schema where
  name := "Teller"
  category := none
  isGlobal := false
  props :=
    [ optionalInput "in",
      typedOutput fun _ => .get "in" fun v => .value (.type (plainType (if v.isSome then "Text" else "Bool"))) ]

/-- A chooser between a teller that has the chooser as operand, and itself. -/
def tangle : Compiler where
  graph := ⟨[.new "x" "Chooser", .new "y" "Teller"],
    [⟨"y", "out", "x", "first"⟩, ⟨"x", "out", "x", "second"⟩, ⟨"x", "out", "y", "in"⟩], {}⟩
  catalog := ⟨[chooser, teller]⟩
  registry := .empty
  compileKey := typeKey

/-- The type of what follows itself is nested in itself. In the tangle no inference is, and within one pass the chooser
is not computed twice. -/
theorem cycle_detection_per_pass_tangle :
    ¬ narcissus.WellNested ⟨"n", "in"⟩ ∧ tangle.WellNested ⟨"x", "second"⟩ ∧
    tangle.output "x" "out" { inProgress := [⟨"x", "out"⟩, ⟨"y", "out"⟩] } =
      some (.ok none, Session.raise { inProgress := [⟨"x", "out"⟩, ⟨"y", "out"⟩] }
        [.warning "x" "Chooser" "out" "Cycle detected while compiling x.out"]) := by
  obtain ⟨hnarcissus, -⟩ := cycle_detection_per_pass narcissus "n" "in" {}
  obtain ⟨htangle, -⟩ := cycle_detection_per_pass tangle "x" "second" {}
  obtain ⟨-, -, -, -, -, hcycle, -⟩ :=
    cycle_detection_per_pass tangle "x" "out" { inProgress := [⟨"x", "out"⟩, ⟨"y", "out"⟩] }
  refine ⟨fun h => ?_, htangle.mp rfl, hcycle chooser _ rfl (by decide)⟩
  have hends : (narcissus.infer "n" "in" {}).isSome := hnarcissus.mpr h
  exact absurd hends (by decide)

/-- A node that follows itself has no answer with any bound. In the tangle, while `x.out` is being computed, the
inference for the second operand computes `x.out` once more and finds a type there, so that `y.out` has an operand. -/
theorem reentered_output_evaluated_again :
    (∀ n, outputAt n narcissus ⟨"n", "out"⟩ {} = none) ∧
    tangle.infer "x" "second" { inProgress := [⟨"x", "out"⟩, ⟨"y", "out"⟩] } =
      some (.ok (some (plainType "Int")), Session.raise { inProgress := [⟨"x", "out"⟩, ⟨"y", "out"⟩] }
        [.warning "x" "Chooser" "out" "Cycle detected while compiling x.out"]) ∧
    tangle.output "y" "out" {} =
      some (.ok (some (.type (plainType "Text"))), ({} : Session).raise
        [.warning "y" "Teller" "out" "Cycle detected while compiling y.out",
          .warning "x" "Chooser" "out" "Cycle detected while compiling x.out"]) := by
  refine ⟨fun n => ?_, rfl, rfl⟩
  cases h : outputAt n narcissus ⟨"n", "out"⟩ {} with
  | none => rfl
  | some r =>
    have hnone : narcissus.output "n" "out" {} = none := rfl
    rw [output_eq_of_outputAt h] at hnone
    cases hnone

end BlockGraph.Compiler
