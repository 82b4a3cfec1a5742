import BlockGraph.Proofs.Standard.Expression

/-!
# Controls of operands and connected literals

An operator or a statement writes the texts of its operands into a `template`. When a literal of the same value is
connected to an operand that had a control, all else is computed as before: the output is marked meanwhile, so
evaluation does not come back to that operand, and no other node reads from the literal (`simulates_added`). What
differs is the text of the operand. A control is shown, a literal is written, and for texts these are not the same,
as only the literal is quoted (`output_connected_literal`).
-/

namespace BlockGraph

namespace Standard

/-! ### Templates -/

inductive Piece where
  | text (s : String)
  | operand (key : String)

def operandKeys : List Piece → List String
  | [] => []
  | .text _ :: rest => operandKeys rest
  | .operand key :: rest => key :: operandKeys rest

/-- The program that writes a template after a text. -/
def template : List Piece → String → Program
  | [], start => .text start
  | .text s :: rest, start => template rest (start ++ s)
  | .operand key :: rest, start => .getText key fun s => template rest (start ++ s)

/-- Both have the same notices, and the same failure or texts that differ in one place by what is given. -/
inductive Swapped (a b : String) :
    Traced (Except Failure (Option Value)) → Traced (Except Failure (Option Value)) → Prop
  | endless : Swapped a b none none
  | failed (f : Failure) (ns : List Notice) : Swapped a b (some (.error f, ns)) (some (.error f, ns))
  | written (before after : String) (ns : List Notice) :
    Swapped a b (some (.ok (some (.text (before ++ a ++ after))), ns))
      (some (.ok (some (.text (before ++ b ++ after))), ns))

theorem Swapped.map {a b : String} {x y : Traced (Except Failure (Option Value))} (h : Swapped a b x y)
    (ns : List Notice) : Swapped a b (x.map fun q => (q.1, ns ++ q.2)) (y.map fun q => (q.1, ns ++ q.2)) := by
  cases h with
  | endless => exact .endless
  | failed f ns' => exact .failed f (ns ++ ns')
  | written before after ns' => exact .written before after (ns ++ ns')

section

variable {read read' : String → Traced (Outcome (Option Value))} {a b : String} {pieces : List Piece}

theorem swapped_getText {key : String} {k k' : String → Program} (hread : read' key = read key)
    (h : ∀ s, Swapped a b ((k s).readings read) ((k' s).readings read')) :
    Swapped a b ((Program.getText key k).readings read) ((Program.getText key k').readings read') := by
  simp only [Program.getText, Program.get, Program.request, Program.readings, hread]
  cases read key with
  | none => exact .endless
  | some r =>
    obtain ⟨result, ns⟩ := r
    cases result with
    | error e => exact .failed _ _
    | ok v => exact (h (Value.textOf v)).map ns

theorem swapped_template (hread : ∀ key ∈ operandKeys pieces, read' key = read key) (before after : String) :
    Swapped a b ((template pieces (before ++ a ++ after)).readings read)
      ((template pieces (before ++ b ++ after)).readings read') := by
  induction pieces generalizing after with
  | nil => exact .written before after []
  | cons piece rest ih =>
    cases piece with
    | text s =>
      simp only [template, String.append_assoc]
      simpa only [String.append_assoc] using ih hread (after ++ s)
    | operand key =>
      refine swapped_getText (hread key List.mem_cons_self) fun s => ?_
      have hrest : ∀ key ∈ operandKeys rest, read' key = read key :=
        fun key hkey => hread key (List.mem_cons_of_mem _ hkey)
      simpa only [String.append_assoc] using ih hrest (after ++ s)

theorem swapped_template_of_mem {key : String} {v v' : Value} (hkey : key ∈ operandKeys pieces)
    (hnodup : (operandKeys pieces).Nodup) (hv : read key = some (.ok (some v), []))
    (hv' : read' key = some (.ok (some v'), []))
    (hread : ∀ other ∈ operandKeys pieces, other ≠ key → read' other = read other) (start : String) :
    Swapped v.display v'.display ((template pieces start).readings read) ((template pieces start).readings read') := by
  induction pieces generalizing start with
  | nil => cases hkey
  | cons piece rest ih =>
    cases piece with
    | text s => exact ih hkey hnodup hread (start ++ s)
    | operand first =>
      obtain ⟨hfirst, hrest⟩ := List.nodup_cons.mp hnodup
      by_cases heq : first = key
      · subst heq
        simp only [template, Program.getText, Program.readings_get hv, Program.readings_get hv']
        refine Swapped.map ?_ []
        have hsame : ∀ other ∈ operandKeys rest, read' other = read other := fun other hother =>
          hread other (List.mem_cons_of_mem _ hother) fun h => hfirst (h ▸ hother)
        simpa [Value.textOf] using swapped_template hsame start ""
      · have hmem : key ∈ operandKeys rest := (List.mem_cons.mp hkey).resolve_left (Ne.symm heq)
        refine swapped_getText (hread first List.mem_cons_self heq) fun s => ?_
        exact ih hmem hrest (fun other hother => hread other (List.mem_cons_of_mem _ hother)) (start ++ s)

end

/-! ### Operators and statements -/

/-- The output of a schema is a template of its operands, and no other property does anything. -/
structure Writes (schema : Schema) (out : String) (pieces : List Piece) (start : String) : Prop where
  output : ∃ p callback, schema.prop? out = some p ∧ p.callback? motokoKey = some callback ∧
    ∀ site, callback site = template pieces start
  operand : ∀ key ∈ operandKeys pieces, ∃ p, schema.prop? key = some p ∧ p.IsOperand
  quiet : ∀ key p, schema.prop? key = some p → key ≠ out → p.callback? motokoKey = none
  nodup : (operandKeys pieces).Nodup

theorem quiet_splitSchema {name category key : String} {isGlobal : Bool} {output : PropDecl} {inputs : List PropDecl}
    {p : Property} (hinputs : ∀ d ∈ inputs, d.callbacks = .empty)
    (hprop : (splitSchema name category isGlobal output inputs).prop? key = some p) (hkey : key ≠ output.key) :
    p.callback? motokoKey = none := by
  rcases List.mem_cons.mp (List.mem_of_find?_eq_some hprop) with rfl | hp
  · have hfound : output.key = key := Schema.key_of_prop? hprop
    exact absurd hfound.symm hkey
  · obtain ⟨d, hd, rfl⟩ := List.mem_map.mp hp
    rw [Property.callback?, PropDecl.settle, hinputs d hd]
    rfl

theorem writes_binarySchema {name category op : String} {t : Ty} (ht : t.isReversed = false) :
    Writes (binarySchema name category op t) "result"
      [.operand "a", .text " ", .text op, .text " ", .operand "b", .text ")"] "(" where
  output := ⟨_, _, rfl, rfl, fun _ => rfl⟩
  operand := by
    simp only [operandKeys, List.forall_mem_cons, List.not_mem_nil, false_implies, implies_true, and_true]
    exact ⟨⟨_, rfl, rfl, rfl, ht⟩, ⟨_, rfl, rfl, rfl, ht⟩⟩
  quiet _ _ hprop hkey := quiet_splitSchema (by simp) hprop hkey
  nodup := by simp [operandKeys]

theorem writes_unarySchema {name category op : String} {t : Ty} (ht : t.isReversed = false) :
    Writes (unarySchema name category op t) "result" [.text op, .text " ", .operand "value", .text ")"] "(" where
  output := ⟨_, _, rfl, rfl, fun _ => rfl⟩
  operand := List.forall_mem_singleton.mpr ⟨_, rfl, rfl, rfl, ht⟩
  quiet _ _ hprop hkey := quiet_splitSchema (by simp) hprop hkey
  nodup := by simp [operandKeys]

theorem Types.writes_printSchema (t : Types) :
    Writes t.printSchema "statement" [.operand "message", .text ");"] "Debug.print(" where
  output := ⟨_, _, rfl, rfl, fun _ => rfl⟩
  operand := List.forall_mem_singleton.mpr ⟨_, rfl, rfl, rfl, t.forward t.text (by simp)⟩
  quiet _ _ hprop hkey := quiet_splitSchema (by simp) hprop hkey
  nodup := by simp [operandKeys]

/-- The output and the operands of an operator or a statement, by the name of the block. -/
def operands? : String → Option (String × List String)
  | "And" | "Or" | "Add" | "Subtract" | "Multiply" | "Concat" => some ("result", ["a", "b"])
  | "Not" => some ("result", ["value"])
  | "Print" => some ("statement", ["message"])
  | _ => none

theorem Types.writes (t : Types) {block out : String} {keys : List String} (h : operands? block = some (out, keys)) :
    ∃ schema pieces start, (⟨t.schemas⟩ : Catalog).get? block = some schema ∧ Writes schema out pieces start ∧
      operandKeys pieces = keys := by
  have hbool := t.forward t.bool (by simp)
  have hint := t.forward t.int (by simp)
  have htext := t.forward t.text (by simp)
  unfold operands? at h
  split at h <;> cases h
  · exact ⟨_, _, _, rfl, writes_binarySchema hbool, rfl⟩
  · exact ⟨_, _, _, rfl, writes_binarySchema hbool, rfl⟩
  · exact ⟨_, _, _, rfl, writes_binarySchema hint, rfl⟩
  · exact ⟨_, _, _, rfl, writes_binarySchema hint, rfl⟩
  · exact ⟨_, _, _, rfl, writes_binarySchema hint, rfl⟩
  · exact ⟨_, _, _, rfl, writes_binarySchema htext, rfl⟩
  · exact ⟨_, _, _, rfl, writes_unarySchema hbool, rfl⟩
  · exact ⟨_, _, _, rfl, t.writes_printSchema, rfl⟩

/-! ### Literals -/

/-- A value that can be typed into an operand. -/
inductive Typed where
  | bool (b : Bool)
  | int (x : Float)
  | text (s : String)

namespace Typed

def control : Typed → Control
  | .bool b => .boolean b
  | .int x => .number x
  | .text s => .string s

def block : Typed → String
  | .bool _ => "LiteralBool"
  | .int _ => "LiteralInt"
  | .text _ => "LiteralText"

def literal : Typed → Literal
  | .bool b => ⟨plainLiteral, .bool b, Value.display (.bool b), rfl⟩
  | .int x => ⟨plainLiteral, .number x, Value.display (.number x), rfl⟩
  | .text s => ⟨textLiteral, .text s, Text.quoteText s, rfl⟩

theorem toValue_control (typed : Typed) (r : Registry) : typed.control.toValue r = .ok typed.literal.value := by
  cases typed <;> rfl

theorem get?_block (typed : Typed) (t : Types) :
    ∃ ty, (⟨t.schemas⟩ : Catalog).get? typed.block = some (literalSchema typed.block ty typed.literal.write) := by
  cases typed <;> exact ⟨_, rfl⟩

end Typed

/-- The second graph has one more node, a literal of the value, which is connected to an operand of the first. -/
structure Adds (g g' : Graph) (id node key : String) (typed : Typed) : Prop where
  fresh : g.node? id = none
  untouched : ∀ conn ∈ g.connections, conn.touches id = false
  connected : (g.addNode ((Node.new id typed.block).withControl "value" typed.control)).connect
    ⟨id, "result", node, key⟩ = .ok g'

namespace Adds

variable {g g' : Graph} {id node key m k : String} {typed : Typed} (h : Adds g g' id node key typed)

include h

theorem node?_of_ne (hm : m ≠ id) : g'.node? m = g.node? m := by
  rw [Graph.connect_eq_ok h.connected]
  exact Graph.node?_addNode (Ne.symm hm)

theorem node?_self : g'.node? id = some ((Node.new id typed.block).withControl "value" typed.control) := by
  have hfresh : g.node? ((Node.new id typed.block).withControl "value" typed.control).id = none := h.fresh
  rw [Graph.connect_eq_ok h.connected]
  exact Graph.node?_addNode_self hfresh

theorem peers_eq (side : Side) : g'.peers m side k =
    g.peers m side k ++ ((⟨id, "result", node, key⟩ : Connection).peer? m side k).toList := by
  rw [Graph.peers_connect h.connected, Graph.peers, Graph.connections_addNode, ← Graph.peers]

theorem peers_of_ne (hm : m ≠ id) (hk : ¬ (m = node ∧ k = key)) (side : Side) :
    g'.peers m side k = g.peers m side k := by
  have hinput : ¬ (node = m ∧ key = k) := fun heq => hk ⟨heq.1.symm, heq.2.symm⟩
  rw [h.peers_eq]
  cases side <;> simp [Connection.peer?, hinput, Ne.symm hm]

theorem peers_operand : g'.peers node .input key = g.peers node .input key ++ [⟨id, "result"⟩] := by
  rw [h.peers_eq]
  simp [Connection.peer?]

end Adds

end Standard

namespace Compiler

open Standard

variable {c : Compiler} {g' : Graph} {id node key out : String} {typed : Typed} {schema : Schema}
  {pieces : List Piece} {start : String}

theorem ne_of_mem_endpoints (hadds : Adds c.graph g' id node key typed) {y : Socket} (hy : y ∈ c.endpoints) :
    y.node ≠ id := by
  rw [endpoints, List.mem_toFinset, List.mem_flatMap] at hy
  obtain ⟨conn, hconn, hy⟩ := hy
  have htouches := hadds.untouched conn hconn
  simp only [Connection.touches, Bool.or_eq_false_iff, beq_eq_false_iff_ne] at htouches
  obtain rfl | rfl := by simpa using hy
  · exact htouches.1
  · exact htouches.2

theorem schema_added (hadds : Adds c.graph g' id node key typed) {m : String} (hm : m ≠ id) :
    (c.onGraph g').schema m = c.schema m := by
  simp only [Compiler.schema, onGraph, Graph.blockName?, hadds.node?_of_ne hm]

/-- While the output is computed, all others are computed in the same way with and without the literal. -/
theorem simulates_added (hc : c.OverStandard) (hschema : c.schema node = .ok schema)
    (hwrites : Writes schema out pieces start) (hadds : Adds c.graph g' id node key typed) :
    c.Simulates (c.onGraph g') fun marks marks' x => marks' = marks ∧ ⟨node, out⟩ ∈ marks ∧ x.node ≠ id := by
  rintro marks _ x ⟨rfl, hmarked, hid⟩
  have hsame : (c.onGraph g').property x.node x.key = c.property x.node x.key := by
    simp only [property, schema_added hadds hid]
  refine ⟨hsame, Iff.rfl, fun found p hprop hmark => ⟨?_, ?_⟩⟩
  · by_cases hx : x.node = node
    · -- the operand is read by the marked output only
      obtain ⟨hfound, hfind⟩ := property_eq_ok_iff.mp hprop
      obtain rfl : found = schema := Except.ok.inj (hfound.symm.trans (hx ▸ hschema))
      have hkey : x.key ≠ out := by
        intro heq
        refine hmark ?_
        rwa [← hx, ← heq] at hmarked
      have hquiet := hwrites.quiet x.key p hfind hkey
      rw [outputSteps, outputSteps, hc.program_of_quiet hquiet, (hc.onGraph g').program_of_quiet hquiet]
      rfl
    · refine outputSteps_onGraph hc.catalogReadsOwnArguments hprop (matchesAt_of_peers (hadds.node?_of_ne hid) ?_)
      intro side k
      exact hadds.peers_of_ne hid (fun heq => hx heq.1) side
  · refine (c.within_outputSteps_of_arguments hc.readsOwnArguments hprop).mono
      (fun y hy => ⟨rfl, List.mem_cons_of_mem _ hmarked, ?_⟩) fun _ h => h
    exact ne_of_mem_endpoints hadds (mem_endpoints_of_dependsOn hy)

theorem storedControl_typed (h : c.graph.control? node key = some typed.control) :
    c.storedControl node key = .ok (some typed.literal.value) := by
  rw [storedControl, h]
  change (do return some (← typed.control.toValue c.registry)) = _
  rw [typed.toValue_control]
  rfl

section

variable (hc : c.OverStandard) (hadds : Adds c.graph g' id node key typed) (hne : node ≠ id)

include hc hadds hne

theorem operandTrace_added (hfree : c.graph.peers node .input key = []) {n : Nat} (hn : 0 < n) :
    (c.onGraph g').operandTrace (traceAt n (c.onGraph g') [⟨node, out⟩]) node key =
      some (.ok (some (.text typed.literal.text)), []) := by
  obtain ⟨t, ht⟩ := hc.types
  obtain ⟨ty, hget⟩ := typed.get?_block t
  have hblock : (c.onGraph g').graph.blockName? id = some typed.block := by
    rw [onGraph, Graph.blockName?, hadds.node?_self]
    rfl
  have hcontrol : (c.onGraph g').graph.control? id "value" = some typed.control := by
    rw [onGraph, Graph.control?, hadds.node?_self]
    rfl
  have hpeers : (c.onGraph g').graph.peers node .input key = [⟨id, "result"⟩] := by
    rw [onGraph, hadds.peers_operand, hfree]
    rfl
  have hmark : (⟨id, "result"⟩ : Socket) ∉ [(⟨node, out⟩ : Socket)] := by
    simp [Ne.symm hne]
  obtain ⟨n, rfl⟩ : ∃ m, n = m + 1 := ⟨n - 1, by omega⟩
  rw [operandTrace, hpeers]
  exact traceAt_literal (hc.onGraph g') (schema_of_block hblock (ht ▸ hget)) (storedControl_typed hcontrol) n hmark

theorem operandTrace_of_ne (hschema : c.schema node = .ok schema) (hwrites : Writes schema out pieces start)
    {other : String} (hother : other ≠ key) {n n' : Nat} (hn : (c.unmarked [⟨node, out⟩]).card < n)
    (hn' : ((c.onGraph g').unmarked [⟨node, out⟩]).card < n') :
    (c.onGraph g').operandTrace (traceAt n' (c.onGraph g') [⟨node, out⟩]) node other =
      c.operandTrace (traceAt n c [⟨node, out⟩]) node other := by
  have hpeers : (c.onGraph g').graph.peers node .input other = c.graph.peers node .input other :=
    hadds.peers_of_ne hne (fun heq => hother heq.2) .input
  have hcontrol : (c.onGraph g').storedControl node other = c.storedControl node other := by
    simp only [storedControl, onGraph, Graph.control?, hadds.node?_of_ne hne]
  rw [operandTrace, operandTrace, hpeers, hcontrol]
  cases hcase : c.graph.peers node .input other with
  | nil => rfl
  | cons peer rest =>
    have hend : peer ∈ c.endpoints := mem_endpoints_of_peers (hcase ▸ List.mem_cons_self)
    exact traceAt_eq_of_simulates (simulates_added hc hschema hwrites hadds)
      ⟨rfl, List.mem_singleton_self _, ne_of_mem_endpoints hadds hend⟩ hn hn'

theorem swapped_added (hschema : c.schema node = .ok schema) (hwrites : Writes schema out pieces start)
    (hkey : key ∈ operandKeys pieces) (hfree : c.graph.peers node .input key = [])
    (hcontrol : c.graph.control? node key = some typed.control) {n n' : Nat}
    (hn : (c.unmarked [⟨node, out⟩]).card < n) (hn' : ((c.onGraph g').unmarked [⟨node, out⟩]).card < n') :
    Swapped typed.literal.value.display typed.literal.text
      ((template pieces start).readings (c.readTrace (traceAt n c [⟨node, out⟩]) node schema))
      ((template pieces start).readings
        ((c.onGraph g').readTrace (traceAt n' (c.onGraph g') [⟨node, out⟩]) node schema)) := by
  have hschema' := (schema_added hadds hne).trans hschema
  obtain ⟨p, hprop, hp⟩ := hwrites.operand key hkey
  have hv : c.readTrace (traceAt n c [⟨node, out⟩]) node schema key =
      some (.ok (some typed.literal.value), []) := by
    rw [c.readTrace_operand hschema hprop hp, operandTrace, hfree, storedControl_typed hcontrol]
    rfl
  have hv' : (c.onGraph g').readTrace (traceAt n' (c.onGraph g') [⟨node, out⟩]) node schema key =
      some (.ok (some (.text typed.literal.text)), []) := by
    rw [(c.onGraph g').readTrace_operand hschema' hprop hp, operandTrace_added hc hadds hne hfree (by omega)]
    rfl
  refine swapped_template_of_mem hkey hwrites.nodup hv hv' (fun other hother hdiff => ?_) start
  obtain ⟨q, hprop, hq⟩ := hwrites.operand other hother
  rw [(c.onGraph g').readTrace_operand hschema' hprop hq, c.readTrace_operand hschema hprop hq,
    operandTrace_of_ne hc hadds hne hschema hwrites hdiff hn hn']

theorem output_added (hschema : c.schema node = .ok schema) (hwrites : Writes schema out pieces start)
    (hkey : key ∈ operandKeys pieces) (hfree : c.graph.peers node .input key = [])
    (hcontrol : c.graph.control? node key = some typed.control) {s : Session} (hs : s.inProgress = []) :
    ∃ s', (c.output node out s = some (.ok none, s') ∧ (c.onGraph g').output node out s = some (.ok none, s')) ∨
      ∃ before after,
        c.output node out s = some (.ok (some (.text (before ++ typed.literal.value.display ++ after))), s') ∧
        (c.onGraph g').output node out s = some (.ok (some (.text (before ++ typed.literal.text ++ after))), s') := by
  obtain ⟨p, callback, hprop, hcallback, htemplate⟩ := hwrites.output
  have hschema' := (schema_added hadds hne).trans hschema
  obtain ⟨n, hn⟩ : ∃ n, c.depth = n + 1 := ⟨_, rfl⟩
  obtain ⟨n', hn'⟩ : ∃ n', (c.onGraph g').depth = n' + 1 := ⟨_, rfl⟩
  have halone : c.alone ⟨node, out⟩ = ((template pieces start).readings
      (c.readTrace (traceAt n c [⟨node, out⟩]) node schema)).andThen (conclude ⟨node, out⟩ schema) := by
    rw [alone, hn, hc.traceAt_eq hschema hprop hcallback n List.not_mem_nil, htemplate]
  have halone' : (c.onGraph g').alone ⟨node, out⟩ = ((template pieces start).readings
      ((c.onGraph g').readTrace (traceAt n' (c.onGraph g') [⟨node, out⟩]) node schema)).andThen
        (conclude ⟨node, out⟩ schema) := by
    rw [alone, hn', (hc.onGraph g').traceAt_eq hschema' hprop hcallback n' List.not_mem_nil, htemplate]
  -- with one more mark, one step of nesting less is enough, in both graphs
  have hlt := c.card_unmarked_cons_lt (c.mem_declared (property_eq_ok_iff.mpr ⟨hschema, hprop⟩))
    (List.not_mem_nil (a := ⟨node, out⟩))
  have hlt' := (c.onGraph g').card_unmarked_cons_lt
    ((c.onGraph g').mem_declared (property_eq_ok_iff.mpr ⟨hschema', hprop⟩)) (List.not_mem_nil (a := ⟨node, out⟩))
  have hdepth := c.card_unmarked_lt_depth []
  have hdepth' := (c.onGraph g').card_unmarked_lt_depth []
  have hswapped := swapped_added hc hadds hne hschema hwrites hkey hfree hcontrol
    (show (c.unmarked [⟨node, out⟩]).card < n by omega)
    (show ((c.onGraph g').unmarked [⟨node, out⟩]).card < n' by omega)
  have hsome := alone_isSome hc.readsOwnArguments.inferFree ⟨node, out⟩
  rw [halone] at hsome
  generalize (template pieces start).readings (c.readTrace _ node schema) = x at halone hsome hswapped
  generalize (template pieces start).readings _ = y at halone' hswapped
  cases hswapped with
  | endless => cases hsome
  | failed f ns => exact ⟨_, .inl ⟨output_of_alone halone hs, output_of_alone halone' hs⟩⟩
  | written before after ns =>
    exact ⟨_, .inr ⟨before, after, output_of_alone halone hs, output_of_alone halone' hs⟩⟩

end

/-- **A literal in the place of a control changes an output by how the operand is written.** The text of the literal
stands where the control was shown, and the events are the same. So nothing changes for a truth value or a number,
but a text is quoted only if it is a literal. -/
theorem output_connected_literal (c : Compiler) (hc : c.OverStandard) {node block out key id : String}
    {keys : List String} (hblock : c.graph.blockName? node = some block)
    (hoperands : operands? block = some (out, keys)) (hkey : key ∈ keys)
    (hfree : c.graph.peers node .input key = []) (typed : Typed)
    (hcontrol : c.graph.control? node key = some typed.control) {g' : Graph}
    (hadds : Adds c.graph g' id node key typed) (s : Session) (hs : s.inProgress = []) :
    ((∀ t, typed ≠ .text t) → (c.onGraph g').output node out s = c.output node out s) ∧
    ∃ s', (c.output node out s = some (.ok none, s') ∧ (c.onGraph g').output node out s = some (.ok none, s')) ∨
      ∃ before after,
        c.output node out s = some (.ok (some (.text (before ++ typed.literal.value.display ++ after))), s') ∧
        (c.onGraph g').output node out s = some (.ok (some (.text (before ++ typed.literal.text ++ after))), s') := by
  obtain ⟨t, ht⟩ := hc.types
  obtain ⟨schema, pieces, start, hget, hwrites, rfl⟩ := t.writes hoperands
  have hschema := schema_of_block hblock (ht ▸ hget)
  have hne : node ≠ id := by
    rintro rfl
    rw [Graph.blockName?, hadds.fresh] at hblock
    cases hblock
  have hboth := output_added hc hadds hne hschema hwrites hkey hfree hcontrol hs
  refine ⟨fun hplain => ?_, hboth⟩
  have hsame : typed.literal.text = typed.literal.value.display := by
    cases typed with
    | text t => exact absurd rfl (hplain t)
    | _ => rfl
  obtain ⟨s', ⟨h, h'⟩ | ⟨before, after, h, h'⟩⟩ := hboth
  · rw [h, h']
  · rw [h, h', hsame]

/-- A condition on a control and on the negation of another one. -/
def condition : Compiler where
  graph := ⟨[(Node.new "both" "And").withControl "a" (.boolean true),
      (Node.new "neg" "Not").withControl "value" (.boolean false)], [⟨"neg", "result", "both", "b"⟩], {}⟩
  catalog := builtinCatalog
  registry := .empty
  compileKey := motokoKey

def conditionWithLiteral : Graph :=
  ⟨[(Node.new "both" "And").withControl "a" (.boolean true),
      (Node.new "neg" "Not").withControl "value" (.boolean false),
      (Node.new "flag" "LiteralBool").withControl "value" (.boolean true)],
    [⟨"neg", "result", "both", "b"⟩, ⟨"flag", "result", "both", "a"⟩], {}⟩

theorem adds_condition : Adds condition.graph conditionWithLiteral "flag" "both" "a" (.bool true) where
  fresh := rfl
  untouched := List.forall_mem_singleton.mpr rfl
  connected := rfl

theorem output_connected_literal_condition :
    condition.OverStandard ∧ Adds condition.graph conditionWithLiteral "flag" "both" "a" (.bool true) ∧
      (condition.onGraph conditionWithLiteral).output "both" "result" {} =
        some (.ok (some (.text "(true and (not false))")), {}) := by
  have hc : condition.OverStandard := ⟨catalog_builtin, rfl, rfl, rfl⟩
  have hblock : condition.graph.blockName? "both" = some "And" := rfl
  have hoperands : operands? "And" = some ("result", ["a", "b"]) := rfl
  have houtput : condition.output "both" "result" {} = some (.ok (some (.text "(true and (not false))")), {}) := rfl
  refine ⟨hc, adds_condition, ?_⟩
  rw [← houtput]
  refine (output_connected_literal condition hc hblock hoperands (by decide) rfl (.bool true) rfl
    adds_condition {} rfl).1 ?_
  intro t h
  cases h

def note : Compiler where
  graph := ⟨[(Node.new "print" "Print").withControl "message" (.string "hello")], [], {}⟩
  catalog := builtinCatalog
  registry := .empty
  compileKey := motokoKey

def noteWithLiteral : Graph :=
  ⟨[(Node.new "print" "Print").withControl "message" (.string "hello"),
      (Node.new "word" "LiteralText").withControl "value" (.string "hello")],
    [⟨"word", "result", "print", "message"⟩], {}⟩

/-- A text that is typed into an operand is not quoted, and the same text as a literal is. -/
theorem output_typed_text_unquoted :
    note.OverStandard ∧ note.graph.peers "print" .input "message" = [] ∧
      note.graph.control? "print" "message" = some (.string "hello") ∧
      Adds note.graph noteWithLiteral "word" "print" "message" (.text "hello") ∧
      note.output "print" "statement" {} = some (.ok (some (.text "Debug.print(hello);")), {}) ∧
      (note.onGraph noteWithLiteral).output "print" "statement" {} =
        some (.ok (some (.text "Debug.print(\"hello\");")), {}) :=
  ⟨⟨catalog_builtin, rfl, rfl, rfl⟩, rfl, rfl, ⟨rfl, by simp [note], rfl⟩, rfl, rfl⟩

end Compiler

end BlockGraph
