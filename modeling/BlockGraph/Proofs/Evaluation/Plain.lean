import BlockGraph.Proofs.Evaluation.Termination
import Mathlib.Data.Nat.Find

/-!
# The plain evaluator

The plain evaluator computes an output by recursion: it sets no marks, remembers no argument and computes an
input anew each time it is read. On a cycle it does not end.

One step of it is told what the outputs are that it reads (`plainOutputFrom`). Steps are nested up to a bound
(`plainOutputAt`), and an output has the value that it has under the first bound that is enough. As each result rests
on finitely many outputs (`Finitary`), these values are those of the recursion without a bound (`plainOutput_eq`).

`output_eq_plainOutput`: where the outputs that an output depends on form no cycle, it has the value, or the
error, that the plain evaluator gives. The proof goes along the evaluation. Its invariant is that no marked
output can be reached from the one that is being computed (so no mark is ever met), and that the remembered
arguments are those which the plain evaluator would compute again (`KnownPlain`).
-/

namespace BlockGraph

namespace Compiler

/-- What outputs are, for those that are known. -/
abbrev PlainOutputs := Compiler → Socket → Option (Outcome (Option Value))

/-- Computes outputs in order, up to the first error, and keeps the values that are present. -/
def plainGather (outputs : Socket → Option (Outcome (Option Value))) : List Socket → Option (Outcome (List Value))
  | [] => some (.ok [])
  | socket :: rest => do
    match ← outputs socket with
    | .error e => some (.error e)
    | .ok v =>
      match ← plainGather outputs rest with
      | .error e => some (.error e)
      | .ok vs => some (.ok (v.toList ++ vs))

def plainInput (c : Compiler) (outputs : PlainOutputs) (node key : String) : Option (Outcome (Option Value)) :=
  match c.property node key with
  | .error e => some (.error e)
  | .ok (_, p) =>
    match p.direction with
    | .input =>
      if p.multi then do
        let vs ← plainGather (outputs c) (c.graph.peers node (inputSide p) p.key)
        some (vs.map fun vs => some (.list vs))
      else
        match c.graph.peers node (inputSide p) p.key with
        | peer :: _ => outputs c peer
        | [] => some (if p.type.isReversed then .ok none else c.storedControl node p.key)
    | .control => some ((c.storedControl node key).map (c.postProcess node key))
    | .output => some (.ok none)

def plainArgument (c : Compiler) (outputs : PlainOutputs) (node : String) (schema : Schema) (key : String) :
    Option (Outcome (Option Value)) :=
  match schema.prop? key with
  | none => some (.error (.unknownInput schema.name key))
  | some p =>
    if p.isOutput then some (.error (.unknownInput schema.name key)) else c.plainInput outputs node key

def plainAnswer (c : Compiler) (outputs : PlainOutputs) (node : String) (schema : Schema) (q : Query) :
    Option (Outcome (Option Value)) :=
  match q with
  | .argument key => c.plainArgument outputs node schema key
  | .argumentOf other key =>
    match c.schema other with
    | .error e => some (.error e)
    | .ok schema => c.plainArgument outputs other schema key
  | .output other key => outputs c ⟨other, key⟩
  | .input other key => c.plainInput outputs other key
  | .infer other key => do
    match ← c.inference.plainInput outputs other key with
    | .error e => some (.error e)
    | .ok v => some (.ok ((v.bind Value.asType?).map .type))
  | .control other key => some (c.storedControl other key)
  | .block other => some ((c.schema other).map fun s => some (.text s.name))

def plainRun (c : Compiler) (outputs : PlainOutputs) (node : String) (schema : Schema) :
    Program → Option (Except Failure (Option Value))
  | .done r => some r
  | .ask q next => do
    let answer ← c.plainAnswer outputs node schema q
    c.plainRun outputs node schema (next answer)

/-- Computes an output from the outputs that it reads. -/
def plainOutputFrom (c : Compiler) (outputs : PlainOutputs) (socket : Socket) : Option (Outcome (Option Value)) :=
  match c.property socket.node socket.key with
  | .error e => some (.error e)
  | .ok (schema, p) => do
    match ← c.plainRun outputs socket.node schema (c.program socket.node schema p) with
    | .ok v => some (.ok (c.postProcess socket.node socket.key v))
    | .error _ => some (.ok none)

/-- Computes an output with at most so many steps within one another. -/
def plainOutputAt : Nat → PlainOutputs
  | 0 => fun _ _ => none
  | n + 1 => fun c socket => c.plainOutputFrom (plainOutputAt n) socket

open Classical in
noncomputable def plainOutput (c : Compiler) (socket : Socket) : Option (Outcome (Option Value)) :=
  if h : ∃ n, (plainOutputAt n c socket).isSome then plainOutputAt (Nat.find h) c socket else none

/-! ### The recursion without a bound -/

variable {α β : Type}

/-- Each result rests on finitely many outputs. -/
def Finitary (f : PlainOutputs → Option α) : Prop :=
  ∀ outputs a, f outputs = some a → ∃ used : List (Compiler × Socket),
    (∀ x ∈ used, (outputs x.1 x.2).isSome) ∧
    ∀ others : PlainOutputs, (∀ x ∈ used, others x.1 x.2 = outputs x.1 x.2) → f others = some a

theorem Finitary.const (result : Option α) : Finitary fun _ => result :=
  fun _ _ h => ⟨[], by simp, fun _ _ => h⟩

theorem Finitary.output (c : Compiler) (socket : Socket) : Finitary fun outputs => outputs c socket := by
  intro outputs a h
  have hsome : (outputs c socket).isSome := Option.isSome_iff_exists.mpr ⟨a, h⟩
  exact ⟨[(c, socket)], by simpa using hsome, fun others hothers => (hothers (c, socket) (by simp)).trans h⟩

theorem Finitary.bind {f : PlainOutputs → Option α} {g : α → PlainOutputs → Option β} (hf : Finitary f)
    (hg : ∀ a, Finitary (g a)) : Finitary fun outputs => f outputs >>= fun a => g a outputs := by
  intro outputs b h
  obtain ⟨a, ha, hb⟩ := Option.bind_eq_some_iff.mp h
  obtain ⟨first, hfirst, hfa⟩ := hf outputs a ha
  obtain ⟨second, hsecond, hgb⟩ := hg a outputs b hb
  refine ⟨first ++ second, List.forall_mem_append.mpr ⟨hfirst, hsecond⟩, fun others hothers => ?_⟩
  rw [List.forall_mem_append] at hothers
  exact Option.bind_eq_some_iff.mpr ⟨a, hfa others hothers.1, hgb others hothers.2⟩

theorem finitary_plainGather (c : Compiler) (peers : List Socket) :
    Finitary fun outputs => plainGather (outputs c) peers := by
  induction peers with
  | nil => exact .const _
  | cons socket rest ih =>
    refine (Finitary.output c socket).bind fun r => ?_
    cases r with
    | error e => exact .const _
    | ok v =>
      refine ih.bind fun vs => ?_
      cases vs <;> exact .const _

theorem finitary_plainInput (c : Compiler) (node key : String) :
    Finitary fun outputs => c.plainInput outputs node key := by
  simp only [plainInput]
  cases c.property node key with
  | error e => exact .const _
  | ok found =>
    obtain ⟨schema, p⟩ := found
    dsimp only
    cases hdir : p.direction with
    | output => exact .const _
    | control => exact .const _
    | input =>
      dsimp only
      by_cases hmulti : p.multi
      · simp only [if_pos hmulti]
        exact (finitary_plainGather c _).bind fun vs => .const _
      · simp only [if_neg hmulti]
        cases c.graph.peers node (inputSide p) p.key with
        | nil => exact .const _
        | cons peer rest => exact .output c peer

theorem finitary_plainArgument (c : Compiler) (node : String) (schema : Schema) (key : String) :
    Finitary fun outputs => c.plainArgument outputs node schema key := by
  simp only [plainArgument]
  cases schema.prop? key with
  | none => exact .const _
  | some p =>
    dsimp only
    by_cases hout : p.isOutput
    · simp only [if_pos hout]
      exact .const _
    · simp only [if_neg hout]
      exact c.finitary_plainInput node key

theorem finitary_plainAnswer (c : Compiler) (node : String) (schema : Schema) (q : Query) :
    Finitary fun outputs => c.plainAnswer outputs node schema q := by
  cases q with
  | argument key => exact c.finitary_plainArgument node schema key
  | argumentOf other key =>
    simp only [plainAnswer]
    cases c.schema other with
    | error e => exact .const _
    | ok found => exact c.finitary_plainArgument other found key
  | output other key => exact .output c ⟨other, key⟩
  | input other key => exact c.finitary_plainInput other key
  | infer other key =>
    refine (c.inference.finitary_plainInput other key).bind fun r => ?_
    cases r <;> exact .const _
  | control other key => exact .const _
  | block other => exact .const _

theorem finitary_plainRun (c : Compiler) (node : String) (schema : Schema) (p : Program) :
    Finitary fun outputs => c.plainRun outputs node schema p := by
  induction p with
  | done r => exact .const _
  | ask q next ih => exact (c.finitary_plainAnswer node schema q).bind ih

theorem finitary_plainOutputFrom (c : Compiler) (socket : Socket) :
    Finitary fun outputs => c.plainOutputFrom outputs socket := by
  simp only [plainOutputFrom]
  cases c.property socket.node socket.key with
  | error e => exact .const _
  | ok found =>
    refine (c.finitary_plainRun socket.node found.1 _).bind fun r => ?_
    cases r <;> exact .const _

theorem Finitary.mono {f : PlainOutputs → Option α} (hf : Finitary f) {outputs others : PlainOutputs}
    (hmore : ∀ c socket r, outputs c socket = some r → others c socket = some r) {a : α} (h : f outputs = some a) :
    f others = some a := by
  obtain ⟨used, hused, hf⟩ := hf outputs a h
  refine hf others fun x hx => ?_
  obtain ⟨r, hr⟩ := Option.isSome_iff_exists.mp (hused x hx)
  rw [hr, hmore _ _ _ hr]

theorem plainOutputAt_succ {n : Nat} (c : Compiler) (socket : Socket) (r : Outcome (Option Value))
    (h : plainOutputAt n c socket = some r) : plainOutputAt (n + 1) c socket = some r := by
  induction n generalizing c socket r with
  | zero => cases h
  | succ n ih => exact (c.finitary_plainOutputFrom socket).mono ih h

theorem plainOutputAt_of_le {n m : Nat} (hle : n ≤ m) {c : Compiler} {socket : Socket} {r : Outcome (Option Value)}
    (h : plainOutputAt n c socket = some r) : plainOutputAt m c socket = some r := by
  induction hle with
  | refl => exact h
  | step _ ih => exact plainOutputAt_succ c socket r ih

theorem plainOutput_eq_some_iff {c : Compiler} {socket : Socket} {r : Outcome (Option Value)} :
    c.plainOutput socket = some r ↔ ∃ n, plainOutputAt n c socket = some r := by
  rw [plainOutput]
  constructor
  · intro h
    split at h
    · exact ⟨_, h⟩
    · cases h
  · rintro ⟨n, hn⟩
    have hends : ∃ n, (plainOutputAt n c socket).isSome := ⟨n, by simp [hn]⟩
    rw [dif_pos hends]
    -- the first bound that is enough is at most this one, and gives the same
    obtain ⟨r', hr'⟩ := Option.isSome_iff_exists.mp (Nat.find_spec hends)
    have hle : Nat.find hends ≤ n := Nat.find_min' hends (by simp [hn])
    rw [plainOutputAt_of_le hle hr'] at hn
    rw [hr', hn]

theorem exists_plainOutputAt (used : List (Compiler × Socket))
    (h : ∀ x ∈ used, (x.1.plainOutput x.2).isSome) :
    ∃ n, ∀ x ∈ used, plainOutputAt n x.1 x.2 = x.1.plainOutput x.2 := by
  induction used with
  | nil => exact ⟨0, by simp⟩
  | cons x rest ih =>
    rw [List.forall_mem_cons] at h
    obtain ⟨n, hn⟩ := ih h.2
    obtain ⟨r, hr⟩ := Option.isSome_iff_exists.mp h.1
    obtain ⟨m, hm⟩ := plainOutput_eq_some_iff.mp hr
    refine ⟨max n m, List.forall_mem_cons.mpr ⟨?_, fun y hy => ?_⟩⟩
    · rw [hr, plainOutputAt_of_le (le_max_right n m) hm]
    · obtain ⟨r', hr'⟩ := Option.isSome_iff_exists.mp (h.2 y hy)
      have hy' := hn y hy
      rw [hr'] at hy' ⊢
      exact plainOutputAt_of_le (le_max_left n m) hy'

theorem plainOutput_eq (c : Compiler) (socket : Socket) :
    c.plainOutput socket = c.plainOutputFrom plainOutput socket := by
  refine Option.ext fun r => ?_
  rw [plainOutput_eq_some_iff]
  constructor
  · rintro ⟨n, hn⟩
    cases n with
    | zero => cases hn
    | succ n =>
      exact (c.finitary_plainOutputFrom socket).mono (fun _ _ _ h => plainOutput_eq_some_iff.mpr ⟨n, h⟩) hn
  · intro h
    obtain ⟨used, hused, hrests⟩ := c.finitary_plainOutputFrom socket plainOutput r h
    obtain ⟨n, hn⟩ := exists_plainOutputAt used hused
    exact ⟨n + 1, hrests (plainOutputAt n) hn⟩

end Compiler

/-! ### The value of a tree -/

namespace Steps

variable {α β : Type}

/-- What a tree without inferences ends with, given what the outputs are. -/
def value (answers : Socket → Option (Outcome (Option Value))) : Steps α → Option α
  | .done a => some a
  | .report _ next => next.value answers
  | .compute socket next => (answers socket).bind fun r => (next r).value answers
  | .infer _ _ _ => none

variable {answers : Socket → Option (Outcome (Option Value))}

theorem value_bind (t : Steps α) (f : α → Steps β) :
    (t.bind f).value answers = (t.value answers).bind fun a => (f a).value answers := by
  induction t with
  | done a => rfl
  | report e next ih => exact ih
  | compute socket next ih =>
    simp only [bind, value, ih, Option.bind_assoc]
  | infer node key next ih => rfl

/-- A run ends with the value of its tree when it is told what the outputs are. -/
theorem Within.value_of_run {computes : Socket → Prop} {ends : α → Prop} {t : Steps α} {outputs : Outputs}
    {inference : Inference} {marks : List Socket} (h : t.Within computes ends)
    (houtputs : ∀ socket, (outputs socket).Framed)
    (hcomputes : ∀ socket, computes socket → ∀ s r s', s.inProgress = marks →
      outputs socket s = some (r, s') → answers socket = some r) :
    ∀ s a s', s.inProgress = marks → t.run outputs inference s = some (a, s') → t.value answers = some a := by
  induction t with
  | done a =>
    intro s b s' _ hrun
    cases hrun
    rfl
  | report e next ih =>
    intro s a s' hs hrun
    exact ih h (s.raise [e]) a s' hs hrun
  | compute socket next ih =>
    intro s a s' hs hrun
    rw [run, Eval.bind_apply, Option.bind_eq_some_iff] at hrun
    obtain ⟨⟨r, s₁⟩, hr, hrun⟩ := hrun
    have hs₁ := (houtputs socket).inProgress_eq hr
    rw [value, hcomputes socket h.1 s r s₁ hs hr]
    exact ih r (h.2 r) s₁ a s' (hs₁.trans hs) hrun
  | infer node key next ih => exact h.elim

end Steps

namespace Compiler

variable (c : Compiler)

/-! ### The trees of the evaluator have the plain values -/

theorem value_gatherSteps (peers : List Socket) :
    (gatherSteps peers).value c.plainOutput = plainGather c.plainOutput peers := by
  induction peers with
  | nil => rw [plainGather]; rfl
  | cons socket rest ih =>
    rw [plainGather, gatherSteps, Steps.value]
    refine Option.bind_congr fun r _ => ?_
    cases r with
    | error e => rfl
    | ok v =>
      rw [Steps.value_bind, ih]
      refine Option.bind_congr fun vs _ => ?_
      cases vs <;> rfl

theorem value_inputSteps (node key : String) :
    (c.inputSteps node key).value c.plainOutput = c.plainInput plainOutput node key := by
  rw [plainInput, inputSteps]
  cases c.property node key with
  | error e => rfl
  | ok r =>
    obtain ⟨schema, p⟩ := r
    cases hdir : p.direction with
    | output => simp only [hdir]; rfl
    | control => simp only [hdir]; rfl
    | input =>
      simp only [hdir, connectedSteps]
      split
      · rw [Steps.value_bind, c.value_gatherSteps]
        rfl
      · cases c.graph.peers node (inputSide p) p.key with
        | nil => rfl
        | cons peer rest => simp [Steps.value]

/-- The arguments that are known are those that would be computed. -/
def KnownPlain (args : Arguments) : Prop :=
  ∀ entry ∈ args.known, c.plainArgument plainOutput args.node args.schema entry.1 = some (.ok entry.2)

variable {c}

theorem plainArgument_of_value {args args' : Arguments} {key : String} {r : Outcome (Option Value)}
    (hknown : c.KnownPlain args) (h : (c.argumentSteps args key).value c.plainOutput = some (r, args')) :
    c.plainArgument plainOutput args.node args.schema key = some r ∧ c.KnownPlain args' ∧ args'.node = args.node ∧
      args'.schema = args.schema := by
  rw [argumentSteps] at h
  cases hfind : args.known.find? (·.1 == key) with
  | some entry =>
    rw [hfind] at h
    cases h
    have hkey : entry.1 = key := by simpa using List.find?_some hfind
    have hentry := hknown entry (List.mem_of_find?_eq_some hfind)
    rw [hkey] at hentry
    exact ⟨hentry, hknown, rfl, rfl⟩
  | none =>
    rw [hfind] at h
    cases hprop : args.schema.prop? key with
    | none =>
      rw [hprop] at h
      cases h
      exact ⟨by rw [plainArgument, hprop], hknown, rfl, rfl⟩
    | some p =>
      rw [hprop] at h
      dsimp only at h
      by_cases hout : p.isOutput
      · rw [if_pos hout] at h
        cases h
        exact ⟨by rw [plainArgument, hprop]; exact if_pos hout, hknown, rfl, rfl⟩
      · rw [if_neg hout, Steps.value_bind, value_inputSteps, Option.bind_eq_some_iff] at h
        obtain ⟨result, hinput, h⟩ := h
        have hplain : c.plainArgument plainOutput args.node args.schema key = some result := by
          rw [plainArgument, hprop]
          dsimp only
          rw [if_neg hout, hinput]
        cases result with
        | error e =>
          cases h
          exact ⟨hplain, hknown, rfl, rfl⟩
        | ok v =>
          have hread : (r, args') = (.ok v, { args with known := (key, v) :: args.known }) := by
            dsimp only at h
            split at h <;> exact (Option.some.inj h).symm
          cases hread
          refine ⟨hplain, ?_, rfl, rfl⟩
          intro entry hentry
          rcases List.mem_cons.mp hentry with rfl | hentry
          · exact hplain
          · exact hknown entry hentry

theorem plainRun_of_value {p : Program} (hp : p.AsksOnly Query.IsArgument) {args : Arguments}
    (hknown : c.KnownPlain args) {r : Except Failure (Option Value)}
    (h : (c.programSteps p args).value c.plainOutput = some r) : c.plainRun plainOutput args.node args.schema p = some r := by
  induction p generalizing args with
  | done result =>
    cases h
    rw [plainRun]
  | ask q next ih =>
    cases q with
    | argument key =>
      rw [programSteps, Steps.value_bind, Option.bind_eq_some_iff] at h
      obtain ⟨⟨answer, args'⟩, hread, hrest⟩ := h
      obtain ⟨hanswer, hknown', hnode, hschema⟩ := plainArgument_of_value hknown hread
      rw [plainRun, plainAnswer, hanswer]
      show c.plainRun plainOutput args.node args.schema (next answer) = some r
      rw [← hnode, ← hschema]
      exact ih answer (hp.2 answer) hknown' hrest
    | _ => exact hp.1.elim

theorem plainOutput_of_value (hc : c.ReadsOwnArguments) {socket : Socket} {schema : Schema} {p : Property}
    (hprop : c.property socket.node socket.key = .ok (schema, p)) {v : Option Value}
    (h : (c.outputSteps socket schema p).value c.plainOutput = some v) :
    c.plainOutput socket = some (.ok v) := by
  rw [outputSteps, Steps.value_bind, Option.bind_eq_some_iff] at h
  obtain ⟨result, hvalue, h⟩ := h
  have hrun := plainRun_of_value (hc.program c hprop) (by intro entry hentry; cases hentry) hvalue
  rw [plainOutput_eq, plainOutputFrom, hprop]
  dsimp only at hrun ⊢
  rw [hrun]
  cases result <;> · cases h; rfl

/-! ### Agreement -/

variable (c) in
/-- An output depends on the outputs that the inputs of its node are computed from. -/
def DependsOn (x y : Socket) : Prop := c.Consults x.node y

variable (c) in
/-- No output that can be reached along dependencies depends on itself. -/
def AcyclicFrom (x : Socket) : Prop :=
  ∀ y, Relation.ReflTransGen c.DependsOn x y → ¬ Relation.TransGen c.DependsOn y y

theorem AcyclicFrom.dependsOn {x y : Socket} (hx : c.AcyclicFrom x) (hxy : c.DependsOn x y) :
    c.AcyclicFrom y := fun z hyz => hx z (.head hxy hyz)

/-- While an output is computed from which no marked output can be reached, no mark is met. -/
theorem plainOutput_of_outputAt (hc : c.ReadsOwnArguments) (n : Nat) {x : Socket} {s s' : Session}
    {r : Outcome (Option Value)} (hacyclic : c.AcyclicFrom x)
    (hmarks : ∀ m ∈ s.inProgress, ¬ Relation.ReflTransGen c.DependsOn x m)
    (h : outputAt n c x s = some (r, s')) : c.plainOutput x = some r := by
  induction n generalizing x s s' r with
  | zero => cases h
  | succ n ih =>
    rw [outputAt_succ, outputWith_eq] at h
    cases hprop : c.property x.node x.key with
    | error e =>
      rw [hprop] at h
      cases h
      rw [plainOutput_eq, plainOutputFrom, hprop]
    | ok found =>
      obtain ⟨schema, p⟩ := found
      rw [hprop] at h
      dsimp only at h
      have hfree : x ∉ s.inProgress := fun hx => hmarks x hx .refl
      rw [if_neg hfree, Option.map_eq_some_iff] at h
      obtain ⟨⟨v, s₁⟩, hrun, hr⟩ := h
      cases hr
      refine plainOutput_of_value hc hprop ?_
      refine (c.within_outputSteps_of_arguments hc hprop).value_of_run (c.framed_outputAt n) ?_
        (s.mark x) v s₁ rfl hrun
      intro y hxy s₂ r₂ s₂' hs₂ hr₂
      refine ih (hacyclic.dependsOn hxy) ?_ hr₂
      -- a mark that `y` could reach is either `x`, which closes a cycle, or one that `x` could reach
      intro m hm hym
      rw [hs₂] at hm
      rcases List.mem_cons.mp hm with rfl | hm
      · exact hacyclic m .refl (.head' hxy hym)
      · exact hmarks m hm (.head hxy hym)

/-- **Marks and remembered arguments are invisible without cycles.** Where programs read the arguments of
their own nodes and the outputs that an output depends on form no cycle, computing it in a fresh session ends
with exactly the value, or the error, of the plain evaluator. -/
theorem output_eq_plainOutput (c : Compiler) (hc : c.ReadsOwnArguments) (node key : String)
    (hacyclic : c.AcyclicFrom ⟨node, key⟩) :
    ∃ r s, c.output node key {} = some (r, s) ∧ c.plainOutput ⟨node, key⟩ = some r := by
  obtain ⟨⟨r, s⟩, h⟩ := Option.isSome_iff_exists.mp (output_isSome hc.inferFree ⟨node, key⟩ {})
  exact ⟨r, s, h, plainOutput_of_outputAt hc c.depth hacyclic (fun m hm => absurd hm List.not_mem_nil) h⟩

/-! ### A diamond -/

/-- A block whose output joins its inputs, the first of which is read twice. -/
def join : Schema where
  name := "Join"
  category := none
  isGlobal := true
  props :=
    [ { key := "out", type := ⟨"Any", none, [], {}, .empty, true⟩, direction := .output, multi := false,
        optional := false,
        callbacks := KeyMap.empty.insert motokoKey fun _ =>
          .getText "left" fun a => .getText "right" fun b => .getText "left" fun a' => .text (a ++ b ++ a') },
      { key := "left", type := ⟨"Any", none, [], {}, .empty, true⟩, direction := .input, multi := false,
        optional := false, callbacks := .empty },
      { key := "right", type := ⟨"Any", none, [], {}, .empty, true⟩, direction := .input, multi := false,
        optional := false, callbacks := .empty } ]

/-- The node at the top is joined from the node at the bottom, once directly and once passed on. -/
def diamond : Compiler where
  graph :=
    ⟨[(Node.new "bottom" "Echo").withControl "in" (.string "x"), .new "side" "Echo", .new "top" "Join"],
      [⟨"bottom", "out", "side", "in"⟩, ⟨"bottom", "out", "top", "left"⟩, ⟨"side", "out", "top", "right"⟩], {}⟩
  catalog := ⟨[echo, join]⟩
  registry := .empty
  compileKey := motokoKey

theorem readsOwnArguments_diamond : diamond.ReadsOwnArguments := by
  intro node schema p hschema hp
  have hmem : schema ∈ [echo, join] := mem_blocks_of_schema hschema
  simp only [List.mem_cons, List.not_mem_nil, or_false] at hmem
  rcases hmem with rfl | rfl
  · simp only [echo, List.mem_cons, List.not_mem_nil, or_false] at hp
    rcases hp with rfl | rfl
    · exact ⟨trivial, fun answer => by cases answer <;> exact trivial⟩
    · exact trivial
  · simp only [join, List.mem_cons, List.not_mem_nil, or_false] at hp
    rcases hp with rfl | rfl | rfl
    · refine ⟨trivial, fun a => ?_⟩
      cases a with
      | error e => exact trivial
      | ok a =>
        refine ⟨trivial, fun b => ?_⟩
        cases b with
        | error e => exact trivial
        | ok b => exact ⟨trivial, fun a' => by cases a' <;> exact trivial⟩
    · exact trivial
    · exact trivial

theorem lower_of_dependsOn_diamond {x y : Socket} (h : diamond.DependsOn x y) :
    ["bottom", "side", "top"].idxOf y.node < ["bottom", "side", "top"].idxOf x.node := by
  obtain ⟨schema, key, p, hschema, hprop, -, hy⟩ := h
  have hforward : inputSide p = .input := by
    have hmem : schema ∈ [echo, join] := mem_blocks_of_schema hschema
    have hp := List.mem_of_find?_eq_some hprop
    simp only [List.mem_cons, List.not_mem_nil, or_false] at hmem
    rcases hmem with rfl | rfl
    · simp only [echo, List.mem_cons, List.not_mem_nil, or_false] at hp
      rcases hp with rfl | rfl <;> rfl
    · simp only [join, List.mem_cons, List.not_mem_nil, or_false] at hp
      rcases hp with rfl | rfl | rfl <;> rfl
  have hpeer : y ∈ diamond.graph.peers x.node .input p.key := by
    rw [consulted, hforward] at hy
    split at hy
    · exact hy
    · exact List.mem_of_mem_take hy
  obtain ⟨conn, hconn, hend⟩ := List.mem_filterMap.mp hpeer
  have htarget : conn.targetNode = x.node ∧ conn.sourceNode = y.node := by
    rw [Connection.peer?] at hend
    split at hend
    · next hat =>
      cases hend
      exact ⟨hat.1, rfl⟩
    · cases hend
  rw [← htarget.1, ← htarget.2]
  have hlist : conn ∈ [(⟨"bottom", "out", "side", "in"⟩ : Connection), ⟨"bottom", "out", "top", "left"⟩,
    ⟨"side", "out", "top", "right"⟩] := hconn
  simp only [List.mem_cons, List.not_mem_nil, or_false] at hlist
  rcases hlist with rfl | rfl | rfl <;> decide

theorem acyclicFrom_diamond (x : Socket) : diamond.AcyclicFrom x := by
  intro y _ hcycle
  have hlower : ∀ z, Relation.TransGen diamond.DependsOn y z →
      ["bottom", "side", "top"].idxOf z.node < ["bottom", "side", "top"].idxOf y.node := by
    intro z hz
    induction hz with
    | single h => exact lower_of_dependsOn_diamond h
    | tail _ h ih => exact lt_trans (lower_of_dependsOn_diamond h) ih
  exact lt_irrefl _ (hlower y hcycle)

/-- The plain value of the node at the top of the diamond, where the node at the bottom is read three times. -/
theorem output_eq_plainOutput_diamond :
    diamond.ReadsOwnArguments ∧ diamond.AcyclicFrom ⟨"top", "out"⟩ ∧
      diamond.plainOutput ⟨"top", "out"⟩ = some (.ok (some (.text "xxx"))) := by
  obtain ⟨r, s, hout, hplain⟩ := output_eq_plainOutput diamond readsOwnArguments_diamond "top" "out"
    (acyclicFrom_diamond _)
  have heval : diamond.output "top" "out" {} = some (.ok (some (.text "xxx")), {}) := rfl
  cases heval.symm.trans hout
  exact ⟨readsOwnArguments_diamond, acyclicFrom_diamond _, hplain⟩

end Compiler

end BlockGraph
