import BlockGraph.Proofs.Graph.Edits
import Mathlib.Data.List.Count

/-!
# Histories of edits

A graph is `WellFormed` when no id is used twice and no connection dangles. Edits keep it so, whichever come and
whether they are accepted or refused. They lose nothing either: a connection is there from the moment when it is made
until one of its nodes is removed, and from both of its ends it is seen equally often.

* `WellFormed.edit` and `WellFormed.editAll`: one edit and a history of them keep a graph well formed;
* `connections_edit` and `connections_editAll`: what one edit and what a history makes of the connections;
* `count_peers`: the two sides of the connections are transposes of one another;
* `editing_invariant`: all this for every history.
-/

namespace BlockGraph

inductive Edit where
  | addNode (node : Node)
  | connect (conn : Connection)
  | removeNode (id : String)
  | setControl (id key : String) (value : Control)

namespace Edit

/-- What an edit makes of a graph, or why it is refused. -/
def apply (g : Graph) : Edit → Except Error Graph
  | .addNode node => .ok (g.addNode node)
  | .connect conn => g.connect conn
  | .removeNode id => .ok (g.removeNode id)
  | .setControl id key value => g.setControl id key value

/-- The nodes that an edit needs, in the order in which it looks for them. -/
def needs : Edit → List String
  | .connect conn => [conn.sourceNode, conn.targetNode]
  | .setControl id _ _ => [id]
  | .addNode _ | .removeNode _ => []

/-- Whether an edit removes a node at an end of the connection. -/
def severs (conn : Connection) : Edit → Bool
  | .removeNode id => conn.touches id
  | .addNode _ | .connect _ | .setControl _ _ _ => false

/-- The connection that an edit makes. -/
def made? (g : Graph) : Edit → Option Connection
  | .connect conn => (g.connect conn).toOption.map fun _ => conn
  | .addNode _ | .removeNode _ | .setControl _ _ _ => none

end Edit

namespace Graph

variable {g g' : Graph} {id : String}

/-- The graph after an edit. It stays as it is when the edit is refused. -/
def edit (g : Graph) (e : Edit) : Graph :=
  match e.apply g with
  | .ok g' => g'
  | .error _ => g

def editAll (g : Graph) (edits : List Edit) : Graph := edits.foldl edit g

/-- The connections that a history makes, each with the edits that come after it. -/
def made (g : Graph) : List Edit → List (Connection × List Edit)
  | [] => []
  | e :: rest => (e.made? g).toList.map (·, rest) ++ (g.edit e).made rest

/-- No id is used twice, and both nodes of every connection are there. -/
structure WellFormed (g : Graph) : Prop where
  nodup : g.nodeIds.Nodup
  attached : ∀ conn ∈ g.connections, conn.sourceNode ∈ g.nodeIds ∧ conn.targetNode ∈ g.nodeIds

/-! ### One edit -/

theorem mem_nodeIds_iff : id ∈ g.nodeIds ↔ (g.node? id).isSome := by
  simp [nodeIds, node?]

theorem isNone_node?_iff : (g.node? id).isNone ↔ id ∉ g.nodeIds := by
  rw [mem_nodeIds_iff]
  cases g.node? id <;> simp

theorem map_id_replaceFirst (node : Node) (nodes : List Node) :
    (replaceFirst node nodes).map (·.id) = nodes.map (·.id) := by
  induction nodes with
  | nil => rfl
  | cons n rest ih =>
    rw [replaceFirst]
    by_cases h : n.id = node.id
    · rw [if_pos h, List.map_cons, List.map_cons, h]
    · rw [if_neg h, List.map_cons, List.map_cons, ih]

theorem nodeIds_addNode (g : Graph) (node : Node) :
    (g.addNode node).nodeIds = if node.id ∈ g.nodeIds then g.nodeIds else g.nodeIds ++ [node.id] := by
  rw [addNode]
  by_cases h : node.id ∈ g.nodeIds
  · rw [if_pos h, if_pos (mem_nodeIds_iff.mp h)]
    exact map_id_replaceFirst node g.nodes
  · rw [if_neg h, if_neg (mem_nodeIds_iff.not.mp h)]
    simp [nodeIds]

theorem nodeIds_removeNode (g : Graph) (id : String) : (g.removeNode id).nodeIds = g.nodeIds.filter (· != id) := by
  rw [nodeIds, nodeIds, removeNode, List.filter_map]
  rfl

theorem connect_eq (g : Graph) (conn : Connection) :
    g.connect conn =
      if conn.sourceNode ∉ g.nodeIds then .error (.unknownNode conn.sourceNode)
      else if conn.targetNode ∉ g.nodeIds then .error (.unknownNode conn.targetNode)
      else .ok { g with connections := g.connections ++ [conn] } := by
  simp only [connect, isNone_node?_iff]

theorem apply_eq_error_iff {e : Edit} {err : Error} :
    e.apply g = .error err ↔ ∃ id, e.needs.find? (· ∉ g.nodeIds) = some id ∧ err = .unknownNode id := by
  cases e with
  | addNode node => simp [Edit.apply, Edit.needs]
  | removeNode id => simp [Edit.apply, Edit.needs]
  | connect conn =>
    rw [Edit.apply, connect_eq]
    by_cases hsource : conn.sourceNode ∈ g.nodeIds
    · by_cases htarget : conn.targetNode ∈ g.nodeIds
      · simp [Edit.needs, hsource, htarget]
      · simp [Edit.needs, hsource, htarget, @eq_comm _ err]
    · simp [Edit.needs, hsource, @eq_comm _ err]
  | setControl id key value =>
    rw [Edit.apply, setControl]
    by_cases h : id ∈ g.nodeIds
    · obtain ⟨node, hnode⟩ := Option.isSome_iff_exists.mp (mem_nodeIds_iff.mp h)
      simp [Edit.needs, h, hnode]
    · have hnode : g.node? id = none := Option.isNone_iff_eq_none.mp (isNone_node?_iff.mpr h)
      simp [Edit.needs, h, hnode, @eq_comm _ err]

theorem edit_of_error {e : Edit} {err : Error} (h : e.apply g = .error err) : g.edit e = g := by
  rw [edit, h]

theorem edit_connect (g : Graph) (conn : Connection) :
    g.edit (.connect conn) =
      if conn.sourceNode ∈ g.nodeIds ∧ conn.targetNode ∈ g.nodeIds then
        { g with connections := g.connections ++ [conn] }
      else g := by
  rw [edit, Edit.apply, connect_eq]
  by_cases hsource : conn.sourceNode ∈ g.nodeIds
  · by_cases htarget : conn.targetNode ∈ g.nodeIds <;> simp [hsource, htarget]
  · simp [hsource]

theorem made?_connect (g : Graph) (conn : Connection) :
    (Edit.connect conn).made? g =
      if conn.sourceNode ∈ g.nodeIds ∧ conn.targetNode ∈ g.nodeIds then some conn else none := by
  rw [Edit.made?, connect_eq]
  by_cases hsource : conn.sourceNode ∈ g.nodeIds
  · by_cases htarget : conn.targetNode ∈ g.nodeIds <;> simp [hsource, htarget, Except.toOption]
  · simp [hsource, Except.toOption]

theorem edit_setControl (g : Graph) (id key : String) (value : Control) :
    (g.edit (.setControl id key value)).nodeIds = g.nodeIds ∧
      (g.edit (.setControl id key value)).connections = g.connections := by
  cases h : g.setControl id key value with
  | error err =>
    rw [edit_of_error (e := .setControl id key value) h]
    exact ⟨rfl, rfl⟩
  | ok g' =>
    have hedit : g.edit (.setControl id key value) = g' := by rw [edit, Edit.apply, h]
    obtain ⟨node, -, rfl⟩ := exists_replaceFirst_of_setControl h
    rw [hedit]
    exact ⟨map_id_replaceFirst node g.nodes, rfl⟩

/-! ### Well-formed graphs -/

theorem wellFormed_new (name : String) : (new name).WellFormed :=
  ⟨List.nodup_nil, by simp [new]⟩

theorem WellFormed.addNode (hg : g.WellFormed) (node : Node) : (g.addNode node).WellFormed := by
  have hgrows : ∀ id ∈ g.nodeIds, id ∈ (g.addNode node).nodeIds := by
    intro id hid
    rw [nodeIds_addNode]
    split
    · exact hid
    · exact List.mem_append_left _ hid
  refine ⟨?_, ?_⟩
  · rw [nodeIds_addNode]
    by_cases h : node.id ∈ g.nodeIds
    · rw [if_pos h]
      exact hg.nodup
    · rw [if_neg h, List.nodup_append_comm]
      exact List.nodup_cons.mpr ⟨h, hg.nodup⟩
  · intro conn hconn
    rw [connections_addNode] at hconn
    exact (hg.attached conn hconn).imp (hgrows _) (hgrows _)

theorem WellFormed.removeNode (hg : g.WellFormed) (id : String) : (g.removeNode id).WellFormed := by
  refine ⟨?_, ?_⟩
  · rw [nodeIds_removeNode]
    exact hg.nodup.filter _
  · intro conn hconn
    obtain ⟨hmem, happart⟩ := List.mem_filter.mp hconn
    obtain ⟨hsource, htarget⟩ := hg.attached conn hmem
    simp only [Connection.touches, Bool.not_or, Bool.and_eq_true, Bool.not_eq_true', beq_eq_false_iff_ne] at happart
    simp [nodeIds_removeNode, hsource, htarget, happart]

theorem WellFormed.connect (hg : g.WellFormed) {conn : Connection} (hsource : conn.sourceNode ∈ g.nodeIds)
    (htarget : conn.targetNode ∈ g.nodeIds) : WellFormed { g with connections := g.connections ++ [conn] } := by
  refine ⟨hg.nodup, fun c hc => ?_⟩
  rcases List.mem_append.mp hc with hc | hc
  · exact hg.attached c hc
  · obtain rfl := List.mem_singleton.mp hc
    exact ⟨hsource, htarget⟩

theorem WellFormed.edit (hg : g.WellFormed) (e : Edit) : (g.edit e).WellFormed := by
  cases e with
  | addNode node => exact hg.addNode node
  | removeNode id => exact hg.removeNode id
  | connect conn =>
    rw [edit_connect]
    split
    · next h => exact hg.connect h.1 h.2
    · exact hg
  | setControl id key value =>
    obtain ⟨hids, hconns⟩ := g.edit_setControl id key value
    refine ⟨hids ▸ hg.nodup, fun c hc => ?_⟩
    rw [hids]
    exact hg.attached c (hconns ▸ hc)

theorem WellFormed.editAll (hg : g.WellFormed) (edits : List Edit) : (g.editAll edits).WellFormed := by
  induction edits generalizing g with
  | nil => exact hg
  | cons e rest ih => exact ih (hg.edit e)

/-! ### Connections -/

theorem connections_edit (g : Graph) (e : Edit) :
    (g.edit e).connections = g.connections.filter (fun conn => !e.severs conn) ++ (e.made? g).toList := by
  cases e with
  | addNode node => simp [edit, Edit.apply, connections_addNode, Edit.severs, Edit.made?]
  | removeNode id => simp [edit, Edit.apply, removeNode, Edit.severs, Edit.made?]
  | connect conn =>
    rw [edit_connect, made?_connect]
    split <;> simp [Edit.severs]
  | setControl id key value => simpa [Edit.severs, Edit.made?] using (g.edit_setControl id key value).2

theorem filter_map_severs (conns : List Connection) (edits : List Edit) :
    ((conns.map (·, edits)).filter fun x => !x.2.any (·.severs x.1)).map (·.1) =
      conns.filter fun conn => !edits.any (·.severs conn) := by
  rw [List.filter_map, List.map_map]
  exact List.map_id _

/-- After a history there are the connections from before and those that were made, in order, less those that were
severed later. -/
theorem connections_editAll (g : Graph) (edits : List Edit) :
    (g.editAll edits).connections =
      ((g.connections.map (·, edits) ++ g.made edits).filter fun x => !x.2.any (·.severs x.1)).map (·.1) := by
  induction edits generalizing g with
  | nil =>
    rw [made, List.append_nil, filter_map_severs]
    simp [editAll]
  | cons e rest ih =>
    have hrest : (g.editAll (e :: rest)).connections = ((g.edit e).editAll rest).connections := rfl
    rw [hrest, ih (g.edit e), made, ← List.append_assoc]
    simp only [List.filter_append, List.map_append, filter_map_severs, connections_edit, List.map_append]
    simp [List.filter_filter, Bool.and_comm]

/-- A socket is among the far ends of another as often as the other is among its own: as often as connections lead
from the one to the other. -/
theorem count_peers (g : Graph) (node key far farKey : String) :
    (g.peers node .output key).count ⟨far, farKey⟩ = (g.peers far .input farKey).count ⟨node, key⟩ := by
  rw [peers_output, peers_input, List.count, List.count, List.countP_map, List.countP_map, List.countP_filter,
    List.countP_filter]
  refine List.countP_congr fun conn _ => ?_
  simp [and_comm]

/-- **Edits keep a graph well formed and lose nothing.** A new graph is well formed. After any history of edits of a
well-formed graph it is well formed; an edit that is refused, which it is when a node is missing that it needs, leaves
it as it is; its connections are those from before and those that were made, in order, less those of which a node was
removed later; and each connection is seen from both of its ends. -/
theorem editing_invariant :
    (∀ name, (Graph.new name).WellFormed) ∧
    ∀ g : Graph, g.WellFormed → ∀ edits,
      let g' := g.editAll edits
      g'.WellFormed ∧
      (∀ (e : Edit) (err : Error), e.apply g' = .error err ↔
        ∃ id, e.needs.find? (· ∉ g'.nodeIds) = some id ∧ err = .unknownNode id) ∧
      (∀ (e : Edit) (err : Error), e.apply g' = .error err → g'.edit e = g') ∧
      (g'.connections =
        ((g.connections.map (·, edits) ++ g.made edits).filter fun x => !x.2.any (·.severs x.1)).map (·.1)) ∧
      ∀ node key far farKey,
        (g'.peers node .output key).count ⟨far, farKey⟩ = (g'.peers far .input farKey).count ⟨node, key⟩ := by
  refine ⟨wellFormed_new, fun g hg edits => ⟨hg.editAll edits, ?_, ?_, g.connections_editAll edits, ?_⟩⟩
  · intro e err
    exact apply_eq_error_iff
  · intro e err
    exact edit_of_error
  · exact (g.editAll edits).count_peers

/-- Two nodes are connected twice, and one of them to itself. After two edits that are refused and one that replaces a
node in its place, the other node is removed, added anew and connected the other way. -/
def rewiring : List Edit :=
  [ .addNode (.new "a" "Echo"), .addNode (.new "b" "Echo"), .connect ⟨"a", "out", "b", "in"⟩,
    .connect ⟨"a", "out", "b", "in"⟩, .connect ⟨"b", "out", "b", "in"⟩, .connect ⟨"a", "out", "c", "in"⟩,
    .setControl "c" "in" (.boolean true), .addNode (.new "b" "Print"), .removeNode "a", .addNode (.new "a" "Echo"),
    .connect ⟨"b", "out", "a", "in"⟩ ]

/-- What was connected to the node that was removed stays away when that is added anew. -/
theorem editing_invariant_rewiring :
    (Graph.new "test").WellFormed ∧ ((Graph.new "test").editAll rewiring).WellFormed ∧
    ((Graph.new "test").editAll rewiring).nodeIds = ["b", "a"] ∧
    ((Graph.new "test").editAll rewiring).connections = [⟨"b", "out", "b", "in"⟩, ⟨"b", "out", "a", "in"⟩] ∧
    (((Graph.new "test").editAll rewiring).peers "b" .output "out").count ⟨"b", "in"⟩ = 1 := by
  obtain ⟨hnew, hall⟩ := editing_invariant
  obtain ⟨hwell, -, -, hconnections, hcount⟩ := hall (Graph.new "test") (hnew "test") rewiring
  refine ⟨hnew "test", hwell, rfl, ?_, ?_⟩
  · rw [hconnections]
    rfl
  · rw [hcount]
    rfl

end Graph

end BlockGraph
