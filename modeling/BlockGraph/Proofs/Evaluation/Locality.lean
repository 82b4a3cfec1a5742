import BlockGraph.Proofs.Evaluation.Termination
import BlockGraph.Proofs.Graph.Edits
import Mathlib.Logic.Relation

/-!
# An output depends on what it reaches

One compiler works on two graphs. Where they match at a node (`Compiler.MatchesAt`), the trees of its outputs are
the same (`outputSteps_onGraph`), and they lead to nodes that it consults. So the evaluation of an output goes the
same way in both graphs when these match at every node that it reaches (`outputAt_onGraph`), and as the bound on
nesting does not matter, the outputs are the same (`output_onGraph`).

What is not consulted need not match. A node may have more connections in one graph than in the other, to outputs
that are not read or to nodes that only read from it. This is why to remove a node changes nothing for those that
do not reach it, although they may lose connections by it.
-/

namespace BlockGraph

theorem Steps.Within.bind_congr {α β : Type} {computes : Socket → Prop} {ends : α → Prop} {t : Steps α}
    {f f' : α → Steps β} (h : t.Within computes ends) (hf : ∀ a, ends a → f a = f' a) : t.bind f = t.bind f' := by
  induction t with
  | done a => exact hf a h
  | report e next ih => rw [Steps.bind, Steps.bind, ih h]
  | compute socket next ih =>
    have hnext : ∀ r, (next r).bind f = (next r).bind f' := fun r => ih r (h.2 r)
    simp only [Steps.bind, hnext]
  | infer node key next ih => exact h.elim

namespace Compiler

/-! ### One compiler on several graphs -/

def onGraph (c : Compiler) (g : Graph) : Compiler := { c with graph := g }

/-- The programs of all blocks of the catalog read the arguments of their own node and ask for nothing else,
wherever they are placed. -/
def CatalogReadsOwnArguments (c : Compiler) : Prop :=
  ∀ schema ∈ c.catalog.blocks, ∀ p ∈ schema.props, ∀ node, (c.program node schema p).AsksOnly Query.IsArgument

theorem CatalogReadsOwnArguments.onGraph {c : Compiler} (hc : c.CatalogReadsOwnArguments) (g : Graph) :
    (c.onGraph g).ReadsOwnArguments := by
  intro node schema p hschema hp
  have hmem : schema ∈ (c.onGraph g).catalog.blocks := mem_blocks_of_schema hschema
  exact hc schema hmem p hp node

variable (c : Compiler)

/-- An input of the first node is computed from an output of the second. -/
def Leads (a b : String) : Prop := ∃ key, c.Consults a ⟨b, key⟩

/-- The second node is met when outputs are followed from the first. -/
def Reaches : String → String → Prop := Relation.ReflTransGen c.Leads

/-- In the other graph the node has the same block, the same controls and the same peers on both sides of all
its properties. -/
structure AgreesAt (g : Graph) (node : String) : Prop where
  block : g.blockName? node = c.graph.blockName? node
  controls : ∀ key, g.control? node key = c.graph.control? node key
  peers : ∀ schema, c.schema node = .ok schema → ∀ p ∈ schema.props, ∀ side,
    g.peers node side p.key = c.graph.peers node side p.key

/-- In the other graph the node has the same block and the same controls, and its inputs are computed from the
same outputs. -/
structure MatchesAt (g : Graph) (node : String) : Prop where
  block : g.blockName? node = c.graph.blockName? node
  controls : ∀ key, g.control? node key = c.graph.control? node key
  consulted : ∀ schema key p, c.schema node = .ok schema → schema.prop? key = some p → p.direction = .input →
    (c.onGraph g).consulted node p = c.consulted node p

variable {c} {g : Graph} {node : String}

theorem AgreesAt.matchesAt (h : c.AgreesAt g node) : c.MatchesAt g node := by
  refine ⟨h.block, h.controls, ?_⟩
  intro schema key p hschema hprop _
  have hpeers := h.peers schema hschema p (List.mem_of_find?_eq_some hprop) (inputSide p)
  simp only [Compiler.consulted, onGraph, hpeers]

/-! ### The trees at a node -/

theorem connectedSteps_eq (c : Compiler) (node : String) (p : Property) :
    c.connectedSteps node p =
      if p.multi then (gatherSteps (c.consulted node p)).bind fun vs => .done (vs.map fun vs => some (.list vs))
      else
        match c.consulted node p with
        | peer :: _ => .compute peer .done
        | [] => .done (if p.type.isReversed then .ok none else c.storedControl node p.key) := by
  rw [connectedSteps, consulted]
  by_cases hmulti : p.multi
  · simp only [hmulti, if_true]
  · simp only [hmulti]
    cases c.graph.peers node (inputSide p) p.key <;> rfl

theorem MatchesAt.schema_onGraph (h : c.MatchesAt g node) : (c.onGraph g).schema node = c.schema node := by
  simp only [schema, onGraph, h.block]

theorem MatchesAt.property_onGraph (h : c.MatchesAt g node) (key : String) :
    (c.onGraph g).property node key = c.property node key := by
  simp only [property, h.schema_onGraph]

theorem MatchesAt.storedControl_onGraph (h : c.MatchesAt g node) (key : String) :
    (c.onGraph g).storedControl node key = c.storedControl node key := by
  simp only [storedControl, onGraph, h.controls]

theorem MatchesAt.inputSteps_onGraph (h : c.MatchesAt g node) (key : String) :
    (c.onGraph g).inputSteps node key = c.inputSteps node key := by
  rw [inputSteps, inputSteps, h.property_onGraph]
  cases hprop : c.property node key with
  | error e => rfl
  | ok r =>
    obtain ⟨schema, p⟩ := r
    obtain ⟨hschema, hkey⟩ := property_eq_ok_iff.mp hprop
    cases hdir : p.direction with
    | input =>
      simp only [hdir]
      rw [connectedSteps_eq, connectedSteps_eq, h.consulted schema key p hschema hkey hdir,
        h.storedControl_onGraph]
    | output => simp only [hdir]
    | control =>
      simp only [hdir, h.storedControl_onGraph]
      rfl

theorem argumentSteps_onGraph {args : Arguments} (h : c.MatchesAt g args.node) (key : String) :
    (c.onGraph g).argumentSteps args key = c.argumentSteps args key := by
  rw [argumentSteps, argumentSteps, h.inputSteps_onGraph]

theorem programSteps_onGraph {p : Program} (hp : p.AsksOnly Query.IsArgument) {args : Arguments}
    (h : c.MatchesAt g args.node) : (c.onGraph g).programSteps p args = c.programSteps p args := by
  induction p generalizing args with
  | done r => rfl
  | ask q next ih =>
    cases q with
    | argument key =>
      rw [programSteps, programSteps, answerSteps, answerSteps, argumentSteps_onGraph h]
      refine (c.within_argumentSteps args key).bind_congr fun r hr => ?_
      exact ih r.1 (hp.2 r.1) (by rw [hr.1]; exact h)
    | _ => exact hp.1.elim

theorem outputSteps_onGraph (hc : c.CatalogReadsOwnArguments) {socket : Socket} {schema : Schema} {p : Property}
    (hprop : c.property socket.node socket.key = .ok (schema, p)) (h : c.MatchesAt g socket.node) :
    (c.onGraph g).outputSteps socket schema p = c.outputSteps socket schema p := by
  have hprogram : (c.program socket.node schema p).AsksOnly Query.IsArgument :=
    (hc.onGraph c.graph).program c hprop
  rw [outputSteps, outputSteps]
  congr 1
  exact programSteps_onGraph hprogram h

/-! ### Along an evaluation -/

theorem outputAt_onGraph (hc : c.CatalogReadsOwnArguments) {root : String}
    (hmatch : ∀ m, c.Reaches root m → c.MatchesAt g m) (n : Nat) {socket : Socket}
    (hsocket : c.Reaches root socket.node) (s : Session) :
    outputAt n (c.onGraph g) socket s = outputAt n c socket s := by
  induction n generalizing socket s with
  | zero => rfl
  | succ n ih =>
    have hsame := hmatch socket.node hsocket
    rw [outputAt_succ, outputAt_succ, outputWith_eq, outputWith_eq, hsame.property_onGraph]
    cases hprop : c.property socket.node socket.key with
    | error e => rfl
    | ok r =>
      obtain ⟨schema, p⟩ := r
      dsimp only
      rw [outputSteps_onGraph hc hprop hsame]
      by_cases hmark : socket ∈ s.inProgress
      · rw [if_pos hmark, if_pos hmark]
      · rw [if_neg hmark, if_neg hmark]
        congr 1
        -- what the tree computes is consulted by the node, and so reached
        refine (c.within_outputSteps_of_arguments (hc.onGraph c.graph) hprop).run_congr (c.framed_outputAt n) ?_ _ rfl
        intro peer hpeer s' _
        exact ih (hsocket.tail ⟨peer.key, hpeer⟩) s'

theorem output_onGraph (hc : c.CatalogReadsOwnArguments) {n : String}
    (hmatch : ∀ m, c.Reaches n m → c.MatchesAt g m) (k : String) (s : Session) :
    (c.onGraph g).output n k s = c.output n k s := by
  have hfree : c.InferFree := (hc.onGraph c.graph).inferFree
  have hfree' : (c.onGraph g).InferFree := (hc.onGraph g).inferFree
  have hdepth := c.card_unmarked_lt_depth s.inProgress
  have hdepth' := (c.onGraph g).card_unmarked_lt_depth s.inProgress
  -- the graphs may differ in size, and with that in the bounds on nesting: both go up to their sum
  calc (c.onGraph g).output n k s = outputAt (c.depth + (c.onGraph g).depth) (c.onGraph g) ⟨n, k⟩ s :=
        outputAt_congr hfree' _ _ _ s hdepth' (by omega)
    _ = outputAt (c.depth + (c.onGraph g).depth) c ⟨n, k⟩ s :=
        outputAt_onGraph hc hmatch _ (show c.Reaches n n from .refl) s
    _ = c.output n k s := outputAt_congr hfree _ _ _ s (by omega) hdepth

/-! ### Graphs that match -/

theorem matchesAt_of_node? (hnode : g.node? node = c.graph.node? node)
    (hconsulted : ∀ p, (∀ peer ∈ c.consulted node p, c.Leads node peer.node) →
      (c.onGraph g).consulted node p = c.consulted node p) : c.MatchesAt g node := by
  refine ⟨by simp only [Graph.blockName?, hnode], fun key => by simp only [Graph.control?, hnode], ?_⟩
  intro schema key p hschema hprop hdir
  exact hconsulted p fun peer hpeer => ⟨peer.key, schema, key, p, hschema, hprop, hdir, hpeer⟩

theorem matchesAt_of_peers (hnode : g.node? node = c.graph.node? node)
    (hpeers : ∀ side key, g.peers node side key = c.graph.peers node side key) : c.MatchesAt g node :=
  matchesAt_of_node? hnode fun p _ => by simp only [consulted, onGraph, hpeers]

theorem consulted_eq_filter {p : Property} {keep : Socket → Bool} (h : ∀ peer ∈ c.consulted node p, keep peer) :
    c.consulted node p =
      let peers := (c.graph.peers node (inputSide p) p.key).filter keep
      if p.multi then peers else peers.take 1 := by
  rw [consulted] at h ⊢
  dsimp only at h ⊢
  by_cases hmulti : p.multi
  · simp only [hmulti, if_true] at h ⊢
    exact (List.filter_eq_self.mpr h).symm
  · simp only [hmulti] at h ⊢
    cases hpeers : c.graph.peers node (inputSide p) p.key with
    | nil => rfl
    | cons peer rest =>
      have hkeep : keep peer := h peer (by simp [hpeers])
      simp [hkeep]

theorem matchesAt_removeNode {n id : String} (hid : ¬ c.Reaches n id) (hnode : c.Reaches n node) :
    c.MatchesAt (c.graph.removeNode id) node := by
  have hne : ∀ m, c.Reaches n m → m ≠ id := fun m hm heq => hid (heq ▸ hm)
  refine matchesAt_of_node? (Graph.node?_removeNode (hne node hnode).symm) fun p hp => ?_
  have hkeep : ∀ peer ∈ c.consulted node p, (peer.node != id) = true := by
    intro peer hpeer
    simpa using hne peer.node (hnode.tail (hp peer hpeer))
  rw [consulted_eq_filter hkeep, consulted]
  simp only [onGraph, Graph.peers_removeNode (hne node hnode)]

theorem matchesAt_of_inside {inside : String → Bool} (hclosed : ∀ a b, inside a → c.Leads a b → inside b)
    (hclosed' : ∀ a b, inside a → (c.onGraph g).Leads a b → inside b)
    (hnodes : ∀ m, inside m → g.node? m = c.graph.node? m)
    (hpeers : ∀ m, inside m → ∀ side key, (g.peers m side key).filter (inside ·.node) =
      (c.graph.peers m side key).filter (inside ·.node))
    (hnode : inside node) : c.MatchesAt g node := by
  have hblock : (c.onGraph g).schema node = c.schema node := by
    simp only [schema, onGraph, Graph.blockName?, hnodes node hnode]
  refine ⟨by simp only [Graph.blockName?, hnodes node hnode],
    fun key => by simp only [Graph.control?, hnodes node hnode], ?_⟩
  intro schema key p hschema hprop hdir
  have hkeep : ∀ peer ∈ c.consulted node p, inside peer.node := fun peer hpeer =>
    hclosed node peer.node hnode ⟨peer.key, schema, key, p, hschema, hprop, hdir, hpeer⟩
  have hkeep' : ∀ peer ∈ (c.onGraph g).consulted node p, inside peer.node := fun peer hpeer =>
    hclosed' node peer.node hnode ⟨peer.key, schema, key, p, hblock.trans hschema, hprop, hdir, hpeer⟩
  rw [consulted_eq_filter hkeep, consulted_eq_filter hkeep']
  simp only [onGraph, hpeers node hnode]

theorem inside_of_reaches {inside : String → Bool} (hclosed : ∀ a b, inside a → c.Leads a b → inside b)
    {n m : String} (hn : inside n) (hm : c.Reaches n m) : inside m := by
  induction hm with
  | refl => exact hn
  | tail _ hlast ih => exact hclosed _ _ ih hlast

/-! ### The outcome in both graphs -/

variable (c) in
/-- In both graphs the output ends in every session, with one result, the same events and the same marks. -/
def SameOutput (g : Graph) (n k : String) : Prop :=
  ∀ s, ∃ r, c.output n k s = some r ∧ (c.onGraph g).output n k s = some r

theorem sameOutput_of_matchesAt (hc : c.CatalogReadsOwnArguments) {n : String}
    (hmatch : ∀ m, c.Reaches n m → c.MatchesAt g m) (k : String) : c.SameOutput g n k := by
  intro s
  obtain ⟨r, hr⟩ := Option.isSome_iff_exists.mp (output_isSome (hc.onGraph c.graph).inferFree ⟨n, k⟩ s)
  exact ⟨r, hr, (output_onGraph hc hmatch k s).trans hr⟩

/-- **An output depends only on the part of the graph that it reaches.** It comes out the same in every graph
that agrees with the given one at the nodes that it reaches, and in particular after

* a node that it does not reach was added, replaced, removed or given another control;
* anything at all was done outside a part of the graph that contains it and reads nothing from outside;
* the nodes were put in another order, if their ids are different;
* the connections were put in another order in which those of each source and each target keep theirs. -/
theorem output_depends_on_reached (c : Compiler) (hc : c.CatalogReadsOwnArguments) (n k : String) :
    (∀ g, (∀ m, c.Reaches n m → c.AgreesAt g m) → c.SameOutput g n k) ∧
    (∀ node, ¬ c.Reaches n node.id → c.SameOutput (c.graph.addNode node) n k) ∧
    (∀ id, ¬ c.Reaches n id → c.SameOutput (c.graph.removeNode id) n k) ∧
    (∀ id key value g, ¬ c.Reaches n id → c.graph.setControl id key value = .ok g → c.SameOutput g n k) ∧
    (∀ (inside : String → Bool) (g : Graph), inside n →
      (∀ a b, inside a → c.Leads a b → inside b) → (∀ a b, inside a → (c.onGraph g).Leads a b → inside b) →
      (∀ m, inside m → g.node? m = c.graph.node? m) →
      (∀ m, inside m → ∀ side key, (g.peers m side key).filter (inside ·.node) =
        (c.graph.peers m side key).filter (inside ·.node)) →
      c.SameOutput g n k) ∧
    (∀ nodes, nodes.Perm c.graph.nodes → c.graph.nodeIds.Nodup → c.SameOutput { c.graph with nodes } n k) ∧
    (∀ connections : List Connection,
      (∀ x, connections.filter (·.source = x) = c.graph.connections.filter (·.source = x)) →
      (∀ x, connections.filter (·.target = x) = c.graph.connections.filter (·.target = x)) →
      c.SameOutput { c.graph with connections } n k) := by
  have hne : ∀ id, ¬ c.Reaches n id → ∀ m, c.Reaches n m → id ≠ m := by
    intro id hid m hm heq
    exact hid (heq ▸ hm)
  refine ⟨?_, ?_, ?_, ?_, ?_, ?_, ?_⟩
  · intro g hagree
    exact sameOutput_of_matchesAt hc (fun m hm => (hagree m hm).matchesAt) k
  · intro node hid
    refine sameOutput_of_matchesAt hc (fun m hm => ?_) k
    refine matchesAt_of_peers (Graph.node?_addNode (hne node.id hid m hm)) fun side key => ?_
    rw [Graph.peers, Graph.connections_addNode, Graph.peers]
  · intro id hid
    exact sameOutput_of_matchesAt hc (fun m hm => matchesAt_removeNode hid hm) k
  · intro id key value g hid hset
    obtain ⟨node, rfl, rfl⟩ := Graph.exists_replaceFirst_of_setControl hset
    refine sameOutput_of_matchesAt hc (fun m hm => ?_) k
    exact matchesAt_of_peers (Graph.find?_replaceFirst (hne node.id hid m hm) c.graph.nodes) fun _ _ => rfl
  · intro inside g hn hclosed hclosed' hnodes hpeers
    refine sameOutput_of_matchesAt hc (fun m hm => ?_) k
    exact matchesAt_of_inside hclosed hclosed' hnodes hpeers (inside_of_reaches hclosed hn hm)
  · intro nodes hperm hids
    exact sameOutput_of_matchesAt hc (fun m _ => matchesAt_of_peers (Graph.node?_of_perm hperm hids) fun _ _ => rfl) k
  · intro connections hsource htarget
    refine sameOutput_of_matchesAt hc (fun m _ => ?_) k
    exact matchesAt_of_peers (g := { c.graph with connections }) rfl (Graph.peers_congr hsource htarget m)

/-! ### A ring among other nodes -/

/-- The ring in another order, with a node that reads from it and that is connected to it where nothing is read. -/
def ringWithWatcher : Graph :=
  ⟨[.new "watcher" "Echo", .new "b" "Echo", .new "a" "Echo"],
    [⟨"a", "out", "watcher", "in"⟩, ⟨"b", "out", "a", "in"⟩, ⟨"a", "out", "b", "in"⟩,
      ⟨"watcher", "out", "b", "in"⟩], {}⟩

theorem catalogReadsOwnArguments_ring : ring.CatalogReadsOwnArguments := by
  intro schema hschema p hp node
  obtain rfl : schema = echo := List.mem_singleton.mp hschema
  simp only [echo, List.mem_cons, List.not_mem_nil, or_false] at hp
  rcases hp with rfl | rfl
  · exact ⟨trivial, fun answer => by cases answer <;> exact trivial⟩
  · exact trivial

/-- The ring gives the same with the other node as without it. -/
theorem output_depends_on_reached_ring :
    ring.CatalogReadsOwnArguments ∧ ring.SameOutput ringWithWatcher "a" "out" := by
  refine ⟨catalogReadsOwnArguments_ring, ?_⟩
  obtain ⟨-, -, -, -, hinside, -, -⟩ := output_depends_on_reached ring catalogReadsOwnArguments_ring "a" "out"
  have hparts : ∀ m, (m == "a" || m == "b") = true → m = "a" ∨ m = "b" := by
    intro m hm
    simpa using hm
  have hclosed : ∀ g : Graph, (g.peers "a" .input "in").take 1 = [⟨"b", "out"⟩] →
      (g.peers "b" .input "in").take 1 = [⟨"a", "out"⟩] →
      ∀ a b, (a == "a" || a == "b") = true → (ring.onGraph g).Leads a b → (b == "a" || b == "b") = true := by
    intro g hpeersa hpeersb a b ha hlead
    obtain ⟨key, hconsults⟩ := hlead
    have hmem : ⟨b, key⟩ ∈ (g.peers a .input "in").take 1 := mem_peers_of_consults_echo rfl hconsults
    rcases hparts a ha with rfl | rfl
    · rw [hpeersa, List.mem_singleton] at hmem
      cases hmem
      rfl
    · rw [hpeersb, List.mem_singleton] at hmem
      cases hmem
      rfl
  refine hinside (fun m => m == "a" || m == "b") ringWithWatcher rfl (hclosed ring.graph rfl rfl)
    (hclosed ringWithWatcher rfl rfl) ?_ ?_
  · intro m hm
    rcases hparts m hm with rfl | rfl <;> rfl
  · intro m hm side key
    -- the keys of the other side find nothing
    by_cases hin : "in" = key <;> by_cases hout : "out" = key <;> rcases hparts m hm with rfl | rfl <;> cases side <;>
      simp [Graph.peers, ringWithWatcher, ring, Connection.peer?, hin, hout]

end Compiler

end BlockGraph
