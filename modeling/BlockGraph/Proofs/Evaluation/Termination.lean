import BlockGraph.Proofs.Evaluation.Scope
import Mathlib.Data.Finset.Card
import Mathlib.Data.List.Chain
import Mathlib.Logic.Relation

/-!
# Evaluation ends on every graph

Nothing that is passed along gets smaller when an output is computed from other outputs, and connections may
form cycles. What gets smaller is the set of declared properties that are not marked (`Compiler.unmarked`):
an output whose program runs was not marked before and is while it runs.

* `outputAt_isSome`: computing an output ends when more steps may be nested than properties are unmarked;
* `outputAt_congr`: with that many steps, the bound on nesting does not matter;
* `evaluation_ends`: every request ends, and so does every chain of outputs computed within one another.

All this is about programs that do not ask for types. An inference starts without marks.
-/

namespace BlockGraph.Compiler

/-! ### Following a relation without cycles -/

section Relations

variable {α : Type} {r : α → α → Prop} {x y : α}

theorem no_cycle_of_next (h : ∀ y, r x y → ∀ z, Relation.ReflTransGen r y z → ¬ Relation.TransGen r z z) (z : α)
    (hxz : Relation.ReflTransGen r x z) : ¬ Relation.TransGen r z z := by
  intro hcycle
  rcases Relation.ReflTransGen.cases_head hxz with rfl | ⟨y, hxy, hyz⟩
  · -- a cycle through `x` is one through the point that follows
    obtain ⟨y, hxy, hyx⟩ := Relation.TransGen.head'_iff.mp hcycle
    exact h y hxy y .refl (.tail' hyx hxy)
  · exact h y hxy z hyz hcycle

open Classical in
theorem card_reached_lt {points : Finset α} (hxy : r x y) (hy : y ∈ points) (hcycle : ¬ Relation.TransGen r y y) :
    (points.filter (Relation.TransGen r y)).card < (points.filter (Relation.TransGen r x)).card := by
  apply Finset.card_lt_card
  rw [Finset.ssubset_iff_of_subset]
  · exact ⟨y, Finset.mem_filter.mpr ⟨hy, .single hxy⟩, fun h => hcycle (Finset.mem_filter.mp h).2⟩
  · intro z hz
    obtain ⟨hpoint, hyz⟩ := Finset.mem_filter.mp hz
    exact Finset.mem_filter.mpr ⟨hpoint, .head hxy hyz⟩

end Relations

variable (c : Compiler)

/-! ### The measure -/

def unmarked (marks : List Socket) : Finset Socket := c.declared.toFinset \ marks.toFinset

theorem mem_declared {socket : Socket} {r : Schema × Property}
    (h : c.property socket.node socket.key = .ok r) : socket ∈ c.declared := by
  obtain ⟨schema, p⟩ := r
  obtain ⟨hschema, hprop⟩ := property_eq_ok_iff.mp h
  obtain ⟨node, hnode, hget⟩ := schema_eq_ok_iff.mp hschema
  have hid : node.id = socket.node := by simpa using List.find?_some hnode
  have hkey : p.key = socket.key := by simpa using List.find?_some hprop
  refine List.mem_flatMap.mpr ⟨node, List.mem_of_find?_eq_some hnode, ?_⟩
  rw [hget]
  refine List.mem_map.mpr ⟨p, List.mem_of_find?_eq_some hprop, ?_⟩
  rw [hid, hkey]

theorem card_unmarked_cons_lt {socket : Socket} {marks : List Socket} (hdeclared : socket ∈ c.declared)
    (hfree : socket ∉ marks) : (c.unmarked (socket :: marks)).card < (c.unmarked marks).card := by
  apply Finset.card_lt_card
  rw [Finset.ssubset_iff_of_subset]
  · exact ⟨socket, by simp [unmarked, hdeclared, hfree], by simp [unmarked]⟩
  · intro x hx
    simp only [unmarked, List.toFinset_cons, Finset.mem_sdiff, Finset.mem_insert, not_or] at hx ⊢
    exact ⟨hx.1, hx.2.2⟩

theorem card_unmarked_le (marks : List Socket) : (c.unmarked marks).card ≤ c.declared.toFinset.card :=
  Finset.card_le_card Finset.sdiff_subset

theorem card_unmarked_lt_depth (marks : List Socket) : (c.unmarked marks).card < c.depth := by
  have hcard := c.card_unmarked_le marks
  have hlength := List.toFinset_card_le c.declared
  have hdepth : c.declared.length + 2 ≤ c.depth := Nat.le_mul_of_pos_left _ (Nat.succ_pos _)
  omega

/-! ### Computing an output -/

variable {c}

theorem outputAt_isSome (hc : c.InferFree) (n : Nat) (socket : Socket) (s : Session)
    (hn : (c.unmarked s.inProgress).card < n) : (outputAt n c socket s).isSome := by
  induction n generalizing socket s with
  | zero => omega
  | succ n ih =>
    rw [outputAt_succ, outputWith_eq]
    cases hprop : c.property socket.node socket.key with
    | error e => rfl
    | ok r =>
      obtain ⟨schema, p⟩ := r
      dsimp only
      by_cases hmark : socket ∈ s.inProgress
      · rw [if_pos hmark]
        rfl
      · -- the program runs with one more mark, so what it asks for has one step less to make
        rw [if_neg hmark, Option.isSome_map]
        have hlt := c.card_unmarked_cons_lt (c.mem_declared hprop) hmark
        refine (c.within_outputSteps_of_inferFree hc hprop).run_isSome (c.framed_outputAt n) ?_ _ rfl
        intro peer _ s' hs'
        exact ih peer s' (by rw [hs', Session.inProgress_mark]; omega)

theorem outputAt_congr (hc : c.InferFree) (n m : Nat) (socket : Socket) (s : Session)
    (hn : (c.unmarked s.inProgress).card < n) (hm : (c.unmarked s.inProgress).card < m) :
    outputAt n c socket s = outputAt m c socket s := by
  induction n generalizing m socket s with
  | zero => omega
  | succ n ih =>
    obtain ⟨m, rfl⟩ : ∃ k, m = k + 1 := ⟨m - 1, by omega⟩
    rw [outputAt_succ, outputAt_succ, outputWith_eq, outputWith_eq]
    cases hprop : c.property socket.node socket.key with
    | error e => rfl
    | ok r =>
      obtain ⟨schema, p⟩ := r
      dsimp only
      by_cases hmark : socket ∈ s.inProgress
      · rw [if_pos hmark, if_pos hmark]
      · rw [if_neg hmark, if_neg hmark]
        have hlt := c.card_unmarked_cons_lt (c.mem_declared hprop) hmark
        congr 1
        refine (c.within_outputSteps_of_inferFree hc hprop).run_congr (c.framed_outputAt m) ?_ _ rfl
        intro peer _ s' hs'
        rw [Session.inProgress_mark] at hs'
        exact ih m peer s' (by rw [hs']; omega) (by rw [hs']; omega)

theorem output_isSome (hc : c.InferFree) (socket : Socket) (s : Session) :
    (outputAt c.depth c socket s).isSome :=
  outputAt_isSome hc _ socket s (c.card_unmarked_lt_depth s.inProgress)

/-! ### The other requests -/

variable (c) in
theorem within_isSome {α : Type} {computes : Socket → Prop} {ends : α → Prop} {t : Steps α} (hc : c.InferFree)
    (ht : t.Within computes ends) (inference : Inference) (s : Session) :
    (t.run (outputAt c.depth c) inference s).isSome :=
  ht.run_isSome (c.framed_outputAt c.depth) (fun socket _ s _ => output_isSome hc socket s) s rfl

theorem input_isSome (hc : c.InferFree) (node key : String) (s : Session) : (c.input node key s).isSome := by
  rw [input, c.inputWith_eq_run _ fun _ _ => pure (.ok none)]
  exact c.within_isSome hc (c.within_inputSteps node key) _ s

theorem argument_isSome (hc : c.InferFree) (args : Arguments) (key : String) (s : Session) :
    (c.argument args key s).isSome := by
  rw [argument, level, c.argument_levelWith _ fun _ _ => pure (.ok none)]
  exact c.within_isSome hc (c.within_argumentSteps args key) _ s

theorem argumentsOf_isSome (hc : c.InferFree) (args : Arguments) (keys : List String) (s : Session) :
    (c.argumentsOf args keys s).isSome := by
  induction keys generalizing args s with
  | nil => rfl
  | cons key rest ih =>
    obtain ⟨⟨⟨result, args'⟩, s'⟩, hread⟩ := Option.isSome_iff_exists.mp (argument_isSome hc args key s)
    rw [argumentsOf_cons, Eval.bind_apply, hread]
    cases result with
    | error e => rfl
    | ok v => exact ih args' s'

theorem compileEach_isSome (hc : c.InferFree) (targets : List Socket) (s : Session) :
    (c.compileEach targets s).isSome := by
  induction targets generalizing s with
  | nil => rfl
  | cons t rest ih =>
    rw [compileEach_cons]
    cases c.schema t.node with
    | error e => rfl
    | ok schema =>
      obtain ⟨⟨result, s'⟩, hout⟩ := Option.isSome_iff_exists.mp (output_isSome hc t s)
      dsimp only
      rw [output, Eval.bind_apply, hout]
      cases result with
      | error e => rfl
      | ok v =>
        obtain ⟨⟨outputs, s''⟩, heach⟩ := Option.isSome_iff_exists.mp (ih s')
        simp only [Option.bind_some, Eval.bind_apply, heach]
        cases outputs <;> rfl

theorem compileOutputs_isSome (hc : c.InferFree) (targets : List Socket) (s : Session) :
    (c.compileOutputs targets s).isSome := by
  obtain ⟨⟨outputs, s'⟩, heach⟩ := Option.isSome_iff_exists.mp (compileEach_isSome hc targets s)
  rw [compileOutputs_eq_bind, Eval.bind_apply, heach]
  cases outputs <;> rfl

theorem compileProgram_isSome (hc : c.InferFree) (s : Session) : (c.compileProgram s).isSome := by
  rw [compileProgram_eq_bind]
  cases c.programTargets with
  | error e => rfl
  | ok targets => exact compileOutputs_isSome hc targets s

/-! ### Outputs computed within one another -/

/-- A request for an output, in the session in which it is made. -/
structure Call where
  socket : Socket
  session : Session
deriving DecidableEq

/-- How outputs are computed when one call does not end. -/
def holdBack (outputs : Outputs) (call : Call) : Outputs := fun socket s =>
  if (⟨socket, s⟩ : Call) = call then none else outputs socket s

variable (c) in
/-- The second call is made directly for the first: if it did not end, the first would not. -/
def Calls (a b : Call) : Prop :=
  c.outputWith (holdBack (outputAt c.depth c) b) (outputAt c.depth c.inference) a.socket a.session = none

variable (c) in
/-- The call gets past the check for cycles: the property is declared and not being computed yet. -/
def Entered (a : Call) : Prop :=
  (∃ r, c.property a.socket.node a.socket.key = .ok r) ∧ a.socket ∉ a.session.inProgress

theorem inProgress_of_calls (hc : c.InferFree) {a b : Call} (ha : c.Entered a) (hab : c.Calls a b) :
    b.session.inProgress = a.socket :: a.session.inProgress := by
  obtain ⟨⟨⟨schema, p⟩, hprop⟩, hmark⟩ := ha
  rw [Calls, outputWith_eq, hprop] at hab
  dsimp only at hab
  rw [if_neg hmark, Option.map_eq_none_iff] at hab
  by_contra hne
  -- under other marks than those of `b` nothing is held back, and the run ends
  have hsame : ∀ socket, True → ∀ s, s.inProgress = a.socket :: a.session.inProgress →
      holdBack (outputAt c.depth c) b socket s = outputAt c.depth c socket s := by
    intro socket _ s hs
    exact if_neg fun hb => hne (by rw [← hb]; exact hs)
  have hwithin := c.within_outputSteps_of_inferFree hc hprop
  have hends := c.within_isSome hc hwithin (c.inferWith (outputAt c.depth c.inference))
    (a.session.mark a.socket)
  rw [← hwithin.run_congr (c.framed_outputAt c.depth) hsame _ rfl, hab] at hends
  exact absurd hends (by simp)

/-- The second call is made while the first is being computed: it finds the mark of the first, and all the
marks that the first found. -/
def Call.Encloses (a b : Call) : Prop :=
  a.socket ∈ b.session.inProgress ∧ a.session.inProgress ⊆ b.session.inProgress

instance : IsTrans Call Call.Encloses :=
  ⟨fun _ _ _ hab hbd => ⟨hbd.2 hab.1, fun _ hx => hbd.2 (hab.2 hx)⟩⟩

theorem encloses_of_calls (hc : c.InferFree) {a b : Call} (ha : c.Entered a) (hab : c.Calls a b) :
    a.Encloses b := by
  rw [Call.Encloses, inProgress_of_calls hc ha hab]
  exact ⟨List.mem_cons_self, List.subset_cons_self _ _⟩

/-- The outputs of a chain of calls, each made for the one before, are different and declared, so that
there are no more of them than declared properties. -/
theorem nested_calls_bounded (hc : c.InferFree) {chain : List Call} (hchain : chain.IsChain c.Calls)
    (hentered : ∀ a ∈ chain, c.Entered a) :
    (chain.map (·.socket)).Nodup ∧ (∀ a ∈ chain, a.socket ∈ c.declared) ∧
      chain.length ≤ c.declared.toFinset.card := by
  have hencloses : chain.IsChain Call.Encloses :=
    hchain.imp_of_mem_imp fun a b ha _ hab => encloses_of_calls hc (hentered a ha) hab
  have hnodup : (chain.map (·.socket)).Nodup := by
    refine List.pairwise_map.mpr ((List.isChain_iff_pairwise.mp hencloses).imp_of_mem ?_)
    intro a b _ hb hab heq
    exact (hentered b hb).2 (heq ▸ hab.1)
  have hdeclared : ∀ a ∈ chain, a.socket ∈ c.declared := by
    intro a ha
    obtain ⟨r, hprop⟩ := (hentered a ha).1
    exact c.mem_declared hprop
  refine ⟨hnodup, hdeclared, ?_⟩
  have hsub : (chain.map (·.socket)).toFinset ⊆ c.declared.toFinset := by
    intro x hx
    obtain ⟨a, ha, rfl⟩ := List.mem_map.mp (List.mem_toFinset.mp hx)
    exact List.mem_toFinset.mpr (hdeclared a ha)
  calc chain.length = (chain.map (·.socket)).toFinset.card := by
        rw [List.toFinset_card_of_nodup hnodup, List.length_map]
    _ ≤ c.declared.toFinset.card := Finset.card_le_card hsub

/-- **Every request ends**, on every graph, in every session and with any programs that ask for no type. The
outputs of calls that are made within one another are different and declared, and so no more than the
declared properties; with that many steps the bound on their nesting is never met. -/
theorem evaluation_ends (c : Compiler) (hc : c.InferFree) :
    (∀ node key s, (c.output node key s).isSome) ∧
    (∀ node key s, (c.input node key s).isSome) ∧
    (∀ args key s, (c.argument args key s).isSome) ∧
    (∀ args s, (c.prefetch args s).isSome) ∧
    (∀ targets s, (c.compileOutputs targets s).isSome) ∧
    (∀ s, (c.compileProgram s).isSome) ∧
    (∀ chain : List Call, chain.IsChain c.Calls → (∀ a ∈ chain, c.Entered a) →
      (chain.map (·.socket)).Nodup ∧ (∀ a ∈ chain, a.socket ∈ c.declared) ∧
        chain.length ≤ c.declared.toFinset.card) ∧
    (∀ n socket, c.declared.toFinset.card < n → outputAt n c socket = c.output socket.node socket.key) := by
  refine ⟨fun node key => output_isSome hc ⟨node, key⟩, input_isSome hc, argument_isSome hc,
    fun args => argumentsOf_isSome hc args _, compileOutputs_isSome hc, compileProgram_isSome hc,
    fun chain => nested_calls_bounded hc, ?_⟩
  intro n socket hn
  funext s
  have hle := c.card_unmarked_le s.inProgress
  exact outputAt_congr hc n c.depth socket s (by omega) (c.card_unmarked_lt_depth s.inProgress)

/-! ### A ring -/

/-- A block whose output is its input. -/
def echo : Schema where
  name := "Echo"
  category := none
  isGlobal := true
  props :=
    [ { key := "out", type := ⟨"Any", none, [], {}, .empty, true⟩, direction := .output, multi := false,
        optional := false,
        callbacks := KeyMap.empty.insert motokoKey fun _ => .get "in" fun v => .done (.ok v) },
      { key := "in", type := ⟨"Any", none, [], {}, .empty, true⟩, direction := .input, multi := false,
        optional := false, callbacks := .empty } ]

theorem mem_peers_of_consults_echo {c : Compiler} {node : String} {peer : Socket} (hcatalog : c.catalog = ⟨[echo]⟩)
    (h : c.Consults node peer) : peer ∈ (c.graph.peers node .input "in").take 1 := by
  obtain ⟨schema, key, p, hschema, hprop, hdir, hpeer⟩ := h
  have hmem := mem_blocks_of_schema hschema
  rw [hcatalog] at hmem
  obtain rfl : schema = echo := List.mem_singleton.mp hmem
  have hp := List.mem_of_find?_eq_some hprop
  simp only [echo, List.mem_cons, List.not_mem_nil, or_false] at hp
  rcases hp with rfl | rfl
  · cases hdir
  · exact hpeer

/-- Two nodes that each pass on what the other gives. -/
def ring : Compiler where
  graph := ⟨[.new "a" "Echo", .new "b" "Echo"], [⟨"a", "out", "b", "in"⟩, ⟨"b", "out", "a", "in"⟩], {}⟩
  catalog := ⟨[echo]⟩
  registry := .empty
  compileKey := motokoKey

theorem inferFree_ring : ring.InferFree := by
  intro node schema p hschema hp
  obtain rfl : schema = echo := List.mem_singleton.mp (mem_blocks_of_schema hschema)
  simp only [echo, List.mem_cons, List.not_mem_nil, or_false] at hp
  rcases hp with rfl | rfl
  · exact ⟨id, fun answer => by cases answer <;> exact trivial⟩
  · exact trivial

/-- In the ring, the output of the first node calls for the output of the second, which calls for the first
again, and the evaluation of all this ends. -/
theorem evaluation_ends_ring :
    ring.InferFree ∧ (ring.output "a" "out" {}).isSome ∧
    let first : Call := ⟨⟨"a", "out"⟩, {}⟩
    let second : Call := ⟨⟨"b", "out"⟩, { inProgress := [⟨"a", "out"⟩] }⟩
    let again : Call := ⟨⟨"a", "out"⟩, { inProgress := [⟨"b", "out"⟩, ⟨"a", "out"⟩] }⟩
    ring.Calls first second ∧ ring.Calls second again ∧ ¬ ring.Entered again ∧
      2 ≤ ring.declared.toFinset.card := by
  obtain ⟨hends, -, -, -, -, -, hchain, -⟩ := evaluation_ends ring inferFree_ring
  have hcall : ring.Calls ⟨⟨"a", "out"⟩, {}⟩ ⟨⟨"b", "out"⟩, { inProgress := [⟨"a", "out"⟩] }⟩ := rfl
  refine ⟨inferFree_ring, hends "a" "out" {}, hcall, rfl, fun h => h.2 (by decide), ?_⟩
  refine (hchain [⟨⟨"a", "out"⟩, {}⟩, ⟨⟨"b", "out"⟩, { inProgress := [⟨"a", "out"⟩] }⟩] ?_ ?_).2.2
  · exact .cons_cons hcall (.singleton _)
  · intro a ha
    simp only [List.mem_cons, List.not_mem_nil, or_false] at ha
    rcases ha with rfl | rfl
    · exact ⟨⟨_, rfl⟩, by decide⟩
    · exact ⟨⟨_, rfl⟩, by decide⟩

end BlockGraph.Compiler
