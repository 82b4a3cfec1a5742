import BlockGraph.Graph.Basic
import Mathlib.Data.List.Find
import Mathlib.Data.List.Nodup

/-!
# What an edit of a graph leaves alone

An edit at one node does not change how another node is found, and neither does the order of the nodes when
their ids are different. The connections of a socket are the sublist of those that are attached to it, so their
order matters for one socket at a time (`peers_congr`), and to leave out connections of some nodes leaves out
these nodes among the peers of the others (`filterMap_peer?_filter`).
-/

namespace BlockGraph

/-! ### Nodes -/

namespace Graph

variable {g g' : Graph} {id other : String}

theorem find?_replaceFirst {node : Node} (h : node.id ≠ id) (nodes : List Node) :
    (replaceFirst node nodes).find? (·.id == id) = nodes.find? (·.id == id) := by
  induction nodes with
  | nil => rfl
  | cons n rest ih =>
    rw [replaceFirst]
    by_cases hid : n.id = node.id
    · have hn : n.id ≠ id := hid ▸ h
      rw [if_pos hid]
      simp [h, hn]
    · rw [if_neg hid]
      simp only [List.find?_cons, ih]

theorem node?_addNode {node : Node} (h : node.id ≠ id) : (g.addNode node).node? id = g.node? id := by
  rw [addNode]
  split
  · exact find?_replaceFirst h g.nodes
  · simp [node?, h]

theorem node?_addNode_self {node : Node} (h : g.node? node.id = none) : (g.addNode node).node? node.id = some node := by
  have hfind : g.nodes.find? (·.id == node.id) = none := h
  rw [addNode, h]
  simp [node?, hfind]

theorem connections_addNode (node : Node) : (g.addNode node).connections = g.connections := by
  rw [addNode]
  split <;> rfl

theorem node?_removeNode (h : other ≠ id) : (g.removeNode other).node? id = g.node? id := by
  simp only [node?, removeNode, List.find?_filter]
  refine List.find?_congr fun n _ => ?_
  by_cases hn : n.id = id
  · simp [hn, h.symm]
  · simp [hn]

theorem exists_replaceFirst_of_setControl {key : String} {value : Control}
    (h : g.setControl id key value = .ok g') :
    ∃ node : Node, node.id = id ∧ g' = { g with nodes := replaceFirst node g.nodes } := by
  rw [setControl] at h
  cases hnode : g.node? id with
  | none => simp [hnode] at h
  | some node =>
    rw [hnode] at h
    have hid : node.id = id := by simpa using List.find?_some hnode
    exact ⟨node.withControl key value, hid, (Except.ok.inj h).symm⟩

theorem node?_of_perm {nodes : List Node} (hperm : nodes.Perm g.nodes) (hids : g.nodeIds.Nodup) :
    ({ g with nodes } : Graph).node? id = g.node? id := by
  refine (List.find?_eq_find?_of_perm hperm.symm ?_).symm
  intro a ha b hb
  obtain ⟨ha, haid⟩ := ha
  obtain ⟨hb, hbid⟩ := hb
  have hid : a.id = b.id := by rw [beq_iff_eq.mp haid, beq_iff_eq.mp hbid]
  exact List.inj_on_of_nodup_map hids ha hb hid

end Graph

/-! ### Connections -/

namespace Connection

def source (conn : Connection) : Socket := ⟨conn.sourceNode, conn.sourcePin⟩

def target (conn : Connection) : Socket := ⟨conn.targetNode, conn.targetPin⟩

theorem peer?_input (conn : Connection) (node key : String) :
    conn.peer? node .input key = if conn.target = ⟨node, key⟩ then some conn.source else none := by
  simp [peer?, source, target]

theorem peer?_output (conn : Connection) (node key : String) :
    conn.peer? node .output key = if conn.source = ⟨node, key⟩ then some conn.target else none := by
  simp [peer?, source, target]

end Connection

namespace Graph

variable {g g' : Graph}

theorem peers_input (g : Graph) (node key : String) :
    g.peers node .input key = (g.connections.filter (·.target = ⟨node, key⟩)).map (·.source) := by
  rw [peers, ← List.filterMap_eq_map, List.filterMap_filter]
  exact List.filterMap_congr fun conn _ => by simp [Connection.peer?_input]

theorem peers_output (g : Graph) (node key : String) :
    g.peers node .output key = (g.connections.filter (·.source = ⟨node, key⟩)).map (·.target) := by
  rw [peers, ← List.filterMap_eq_map, List.filterMap_filter]
  exact List.filterMap_congr fun conn _ => by simp [Connection.peer?_output]

theorem peers_congr
    (hsource : ∀ socket, g'.connections.filter (·.source = socket) = g.connections.filter (·.source = socket))
    (htarget : ∀ socket, g'.connections.filter (·.target = socket) = g.connections.filter (·.target = socket))
    (node : String) (side : Side) (key : String) : g'.peers node side key = g.peers node side key := by
  cases side with
  | input => rw [peers_input, peers_input, htarget]
  | output => rw [peers_output, peers_output, hsource]

theorem connect_eq_ok {conn : Connection} (h : g.connect conn = .ok g') :
    g' = { g with connections := g.connections ++ [conn] } := by
  rw [connect] at h
  split at h
  · cases h
  · split at h
    · cases h
    · exact (Except.ok.inj h).symm

theorem peers_connect {conn : Connection} (h : g.connect conn = .ok g') (node : String) (side : Side) (key : String) :
    g'.peers node side key = g.peers node side key ++ (conn.peer? node side key).toList := by
  rw [connect_eq_ok h, peers, peers, List.filterMap_append]
  cases hpeer : conn.peer? node side key <;> simp [hpeer]

theorem filterMap_peer?_filter (inside : String → Bool) {node : String} (hnode : inside node)
    (conns : List Connection) (side : Side) (key : String) :
    (conns.filter fun conn => inside conn.sourceNode && inside conn.targetNode).filterMap (·.peer? node side key) =
      (conns.filterMap (·.peer? node side key)).filter (inside ·.node) := by
  rw [List.filterMap_filter, List.filter_filterMap]
  refine List.filterMap_congr fun conn _ => ?_
  cases side with
  | input =>
    by_cases h : conn.targetNode = node ∧ conn.targetPin = key
    · simp [Connection.peer?, h, hnode, Option.filter]
    · simp [Connection.peer?, h]
  | output =>
    by_cases h : conn.sourceNode = node ∧ conn.sourcePin = key
    · simp [Connection.peer?, h, hnode, Option.filter]
    · simp [Connection.peer?, h]

theorem peers_removeNode {id node : String} (h : node ≠ id) (side : Side) (key : String) :
    (g.removeNode id).peers node side key = (g.peers node side key).filter (·.node != id) := by
  rw [peers, peers, ← filterMap_peer?_filter (· != id) (by simpa using h)]
  congr 1
  refine List.filter_congr fun conn _ => ?_
  simp only [Connection.touches, Bool.not_or]
  rfl

end Graph

end BlockGraph
