import BlockGraph.Proofs.Evaluation.Locality

/-!
# Reverse flow is the mirror image of forward flow

An input of a reversed type reads the connections that leave from it, and an input of a forward type those that arrive
at it. To exchange the two kinds of inputs in a catalog and to turn round all connections of a graph comes to the same
evaluations: what an input reads is the same list of outputs (`consulted_mirrored`), so the trees of all outputs are the
same (`outputSteps_mirrored`), and so are their runs (`outputAt_mirrored`).

The two kinds differ in one respect only. Without connections, a forward input has its stored control and a reversed
one has nothing, so no controls may be stored for inputs.
-/

namespace BlockGraph

/-! ### Graphs turned round -/

def Side.opposite : Side → Side
  | .input => .output
  | .output => .input

def Connection.turned (c : Connection) : Connection := ⟨c.targetNode, c.targetPin, c.sourceNode, c.sourcePin⟩

/-- The graph with all connections turned round. -/
def Graph.turned (g : Graph) : Graph := { g with connections := g.connections.map Connection.turned }

theorem Connection.peer?_turned (c : Connection) (node : String) (side : Side) (key : String) :
    c.turned.peer? node side.opposite key = c.peer? node side key := by
  cases side <;> rfl

theorem Graph.peers_turned (g : Graph) (node : String) (side : Side) (key : String) :
    g.turned.peers node side.opposite key = g.peers node side key := by
  rw [Graph.peers, Graph.turned, List.filterMap_map, Graph.peers]
  congr 1
  funext c
  exact c.peer?_turned node side key

/-! ### Catalogs with the flow of inputs exchanged -/

/-- The second property is the first but for its type. The type is the same unless the property is an input; an input of
a reversed type has a forward type and the other way round. -/
structure Property.Mirrors (p p' : Property) : Prop where
  key : p'.key = p.key
  direction : p'.direction = p.direction
  multi : p'.multi = p.multi
  optional : p'.optional = p.optional
  callbacks : p'.callbacks = p.callbacks
  flow : p.direction = .input → p'.type.isReversed = !p.type.isReversed
  type : p.direction ≠ .input → p'.type = p.type

/-- The schemas agree but for the flow of inputs. -/
structure Schema.Mirrors (s s' : Schema) : Prop where
  name : s'.name = s.name
  category : s'.category = s.category
  isGlobal : s'.isGlobal = s.isGlobal
  props : List.Forall₂ Property.Mirrors s.props s'.props

/-- The catalogs have the same blocks but for the flow of inputs. -/
def Catalog.Mirrors (k k' : Catalog) : Prop := List.Forall₂ Schema.Mirrors k.blocks k'.blocks

theorem find?_of_forall₂ {α : Type} {R : α → α → Prop} {xs ys : List α} {q : α → Bool} (h : List.Forall₂ R xs ys)
    (hq : ∀ x y, R x y → q y = q x) :
    (xs.find? q = none ∧ ys.find? q = none) ∨ ∃ x y, xs.find? q = some x ∧ ys.find? q = some y ∧ R x y := by
  induction h with
  | nil => exact .inl ⟨rfl, rfl⟩
  | @cons x y xs ys hxy _ ih =>
    rw [List.find?_cons, List.find?_cons, hq x y hxy]
    cases q x with
    | true => exact .inr ⟨x, y, rfl, rfl, hxy⟩
    | false => exact ih

theorem map_of_forall₂ {α β : Type} {R : α → α → Prop} {xs ys : List α} {f : α → β} (h : List.Forall₂ R xs ys)
    (hf : ∀ x y, R x y → f y = f x) : ys.map f = xs.map f := by
  induction h with
  | nil => rfl
  | cons hxy _ ih => rw [List.map_cons, List.map_cons, hf _ _ hxy, ih]

theorem Catalog.Mirrors.get? {k k' : Catalog} (h : k.Mirrors k') (name : String) :
    (k.get? name = none ∧ k'.get? name = none) ∨
      ∃ s s', k.get? name = some s ∧ k'.get? name = some s' ∧ s.Mirrors s' :=
  find?_of_forall₂ h fun s s' hs => by rw [hs.name]

namespace Schema.Mirrors

variable {s s' : Schema}

theorem prop? (h : s.Mirrors s') (key : String) :
    (s.prop? key = none ∧ s'.prop? key = none) ∨
      ∃ p p', s.prop? key = some p ∧ s'.prop? key = some p' ∧ p.Mirrors p' :=
  find?_of_forall₂ h.props fun p p' hp => by rw [hp.key]

theorem argumentKeys (h : s.Mirrors s') : s'.argumentKeys = s.argumentKeys := by
  have hfilter : List.Forall₂ Property.Mirrors (s.props.filter (!·.isOutput)) (s'.props.filter (!·.isOutput)) := by
    refine List.rel_filter ?_ h.props
    intro p p' hp
    simp only [Property.isOutput, hp.direction]
  exact map_of_forall₂ hfilter fun _ _ hp => hp.key

end Schema.Mirrors

namespace Compiler

variable {c : Compiler} {catalog : Catalog} {node key : String}

/-- The compiler on the graph with all connections turned round, over another catalog. -/
def mirrored (c : Compiler) (catalog : Catalog) : Compiler := { c with graph := c.graph.turned, catalog }

/-- No control is stored for an input. -/
def StoresNoInputs (c : Compiler) : Prop :=
  ∀ node schema p, c.schema node = .ok schema → p ∈ schema.props → p.direction = .input →
    c.graph.control? node p.key = none

/-- The program that takes the place of all others, if there is one, does not look at the flow of inputs. -/
def IgnoresFlow (c : Compiler) : Prop :=
  ∀ compile p p', c.defaultCompile = some compile → p.Mirrors p' → compile p' = compile p

theorem schema_mirrored (h : c.catalog.Mirrors catalog) (node : String) :
    (∃ e, c.schema node = .error e ∧ (c.mirrored catalog).schema node = .error e) ∨
      ∃ s s', c.schema node = .ok s ∧ (c.mirrored catalog).schema node = .ok s' ∧ s.Mirrors s' := by
  have hblock : (c.mirrored catalog).graph.blockName? node = c.graph.blockName? node := rfl
  rw [schema, schema, hblock]
  cases c.graph.blockName? node with
  | none => exact .inl ⟨_, rfl, rfl⟩
  | some name =>
    show (∃ e, c.catalog.get name = .error e ∧ catalog.get name = .error e) ∨
      ∃ s s', c.catalog.get name = .ok s ∧ catalog.get name = .ok s' ∧ s.Mirrors s'
    rw [Catalog.get, Catalog.get]
    rcases h.get? name with ⟨hnone, hnone'⟩ | ⟨s, s', hs, hs', hmirrors⟩
    · rw [hnone, hnone']
      exact .inl ⟨_, rfl, rfl⟩
    · rw [hs, hs']
      exact .inr ⟨s, s', rfl, rfl, hmirrors⟩

theorem property_of_prop?_eq_none {s : Schema} (hs : c.schema node = .ok s) (hp : s.prop? key = none) :
    c.property node key = .error (.propertyNotFound s.name key) := by
  have hprop : s.prop key = .error (.propertyNotFound s.name key) := by rw [Schema.prop, hp]
  rw [property, hs]
  show (s.prop key >>= _) = _
  rw [hprop]
  rfl

theorem property_mirrored (h : c.catalog.Mirrors catalog) (node key : String) :
    (∃ e, c.property node key = .error e ∧ (c.mirrored catalog).property node key = .error e) ∨
      ∃ s s' p p', c.property node key = .ok (s, p) ∧ (c.mirrored catalog).property node key = .ok (s', p') ∧
        s.Mirrors s' ∧ p.Mirrors p' := by
  rcases schema_mirrored h node with ⟨e, he, he'⟩ | ⟨s, s', hs, hs', hmirrors⟩
  · simp only [property, he, he']
    exact .inl ⟨e, rfl, rfl⟩
  · rcases hmirrors.prop? key with ⟨hnone, hnone'⟩ | ⟨p, p', hp, hp', hprop⟩
    · rw [property_of_prop?_eq_none hs hnone, property_of_prop?_eq_none hs' hnone', hmirrors.name]
      exact .inl ⟨_, rfl, rfl⟩
    · exact .inr ⟨s, s', p, p', property_eq_ok_iff.mpr ⟨hs, hp⟩, property_eq_ok_iff.mpr ⟨hs', hp'⟩, hmirrors, hprop⟩

theorem declared_mirrored (h : c.catalog.Mirrors catalog) : (c.mirrored catalog).declared = c.declared := by
  have hnodes : (c.mirrored catalog).graph.nodes = c.graph.nodes := rfl
  rw [declared, declared, hnodes]
  congr 1
  funext n
  have hcatalog : (c.mirrored catalog).catalog = catalog := rfl
  rw [hcatalog]
  rcases h.get? n.block with ⟨hnone, hnone'⟩ | ⟨s, s', hs, hs', hmirrors⟩
  · rw [hnone, hnone']
  · rw [hs, hs']
    exact map_of_forall₂ hmirrors.props fun p p' hp => by rw [hp.key]

/-! ### Trees -/

theorem consulted_mirrored {p p' : Property} (hp : p.Mirrors p') (hdir : p.direction = .input) (node : String) :
    (c.mirrored catalog).consulted node p' = c.consulted node p := by
  have hside : inputSide p' = (inputSide p).opposite := by
    rw [inputSide, inputSide, hp.flow hdir]
    cases p.type.isReversed <;> rfl
  have hgraph : (c.mirrored catalog).graph = c.graph.turned := rfl
  rw [consulted, consulted, hgraph, hside, hp.key, hp.multi, Graph.peers_turned]

theorem inputSteps_mirrored (h : c.catalog.Mirrors catalog) (hstored : c.StoresNoInputs) (node key : String) :
    (c.mirrored catalog).inputSteps node key = c.inputSteps node key := by
  rw [inputSteps, inputSteps]
  rcases property_mirrored h node key with ⟨e, he, he'⟩ | ⟨s, s', p, p', hprop, hprop', -, hp⟩
  · rw [he, he']
  · rw [hprop, hprop']
    dsimp only
    rw [hp.direction]
    cases hdir : p.direction with
    | control => rfl
    | output => rfl
    | input =>
      dsimp only
      have hnone : c.graph.control? node p.key = none :=
        hstored node s p (property_eq_ok_iff.mp hprop).1 (mem_props_of_property hprop) hdir
      have hempty : (c.mirrored catalog).storedControl node p'.key = .ok none := by
        show (c.graph.control? node p'.key).mapM _ = _
        rw [hp.key, hnone]
        rfl
      have hempty' : c.storedControl node p.key = .ok none := by
        rw [storedControl, hnone]
        rfl
      rw [connectedSteps_eq, connectedSteps_eq, consulted_mirrored hp hdir, hp.multi, hempty, hempty', ite_self, ite_self]

/-- The arguments with the schema of the node exchanged for another one. -/
def Arguments.withSchema (args : Arguments) (schema : Schema) : Arguments := { args with schema }

theorem argumentSteps_mirrored (h : c.catalog.Mirrors catalog) (hstored : c.StoresNoInputs) {args : Arguments}
    {schema : Schema} (hschema : args.schema.Mirrors schema) (key : String) :
    (c.mirrored catalog).argumentSteps (args.withSchema schema) key =
      (c.argumentSteps args key).bind fun r => .done (r.1, r.2.withSchema schema) := by
  have hknown : (args.withSchema schema).known = args.known := rfl
  have hexchanged : (args.withSchema schema).schema = schema := rfl
  rw [argumentSteps, argumentSteps, hknown, hexchanged]
  cases args.known.find? (·.1 == key) with
  | some known => rfl
  | none =>
    dsimp only
    rcases hschema.prop? key with ⟨hnone, hnone'⟩ | ⟨p, p', hp, hp', hmirrors⟩
    · rw [hnone, hnone', hschema.name]
      rfl
    · have hout : p'.isOutput = p.isOutput := by simp only [Property.isOutput, hmirrors.direction]
      rw [hp, hp', hschema.name]
      dsimp only
      rw [hout, hmirrors.optional]
      split
      · rfl
      · have hinput : (c.mirrored catalog).inputSteps (args.withSchema schema).node key = c.inputSteps args.node key :=
          inputSteps_mirrored h hstored args.node key
        rw [hinput, Steps.bind_assoc]
        congr 1
        funext r
        cases r with
        | error e => rfl
        | ok v =>
          dsimp only
          split <;> rfl

theorem programSteps_mirrored (h : c.catalog.Mirrors catalog) (hstored : c.StoresNoInputs) {p : Program}
    (hp : p.AsksOnly Query.IsArgument) (args : Arguments) {schema : Schema} (hschema : args.schema.Mirrors schema) :
    (c.mirrored catalog).programSteps p (args.withSchema schema) = c.programSteps p args := by
  induction p generalizing args with
  | done r => rfl
  | ask q next ih =>
    cases q with
    | argument key =>
      rw [programSteps, programSteps, answerSteps, answerSteps, argumentSteps_mirrored h hstored hschema,
        Steps.bind_assoc]
      refine (c.within_argumentSteps args key).bind_congr fun r hr => ?_
      exact ih r.1 (hp.2 r.1) r.2 (hr.2 ▸ hschema)
    | _ => exact hp.1.elim

theorem program_mirrored (hdefault : c.IgnoresFlow) {s s' : Schema} {p p' : Property} (hs : s.Mirrors s')
    (hp : p.Mirrors p') (node : String) : (c.mirrored catalog).program node s' p' = c.program node s p := by
  have hsite : (c.mirrored catalog).site node s' = c.site node s := by
    simp only [site, hs.name, hs.argumentKeys]
    rfl
  have hcompiles : (c.mirrored catalog).defaultCompile = c.defaultCompile := rfl
  have hkey : (c.mirrored catalog).compileKey = c.compileKey := rfl
  have hcallback : p'.callback? c.compileKey = p.callback? c.compileKey := by
    rw [Property.callback?, Property.callback?, hp.callbacks]
  rw [program, program, hsite, hcompiles, hkey, hcallback]
  cases hcompile : c.defaultCompile with
  | some compile => exact congrFun (hdefault compile p p' hcompile hp) (c.site node s)
  | none => rfl

theorem outputSteps_mirrored (h : c.catalog.Mirrors catalog) (hstored : c.StoresNoInputs) (hdefault : c.IgnoresFlow)
    (hc : c.ReadsOwnArguments) {socket : Socket} {s s' : Schema} {p p' : Property}
    (hprop : c.property socket.node socket.key = .ok (s, p)) (hs : s.Mirrors s') (hp : p.Mirrors p') :
    (c.mirrored catalog).outputSteps socket s' p' = c.outputSteps socket s p := by
  have hprogram : (c.program socket.node s p).AsksOnly Query.IsArgument := hc.program c hprop
  have htree : (c.mirrored catalog).programSteps (c.program socket.node s p) ⟨socket.node, s', []⟩ =
      c.programSteps (c.program socket.node s p) ⟨socket.node, s, []⟩ :=
    programSteps_mirrored h hstored hprogram ⟨socket.node, s, []⟩ hs
  rw [outputSteps, outputSteps, program_mirrored hdefault hs hp, hs.name, htree]
  rfl

/-! ### Runs -/

theorem outputAt_mirrored (h : c.catalog.Mirrors catalog) (hstored : c.StoresNoInputs) (hdefault : c.IgnoresFlow)
    (hc : c.ReadsOwnArguments) (n : Nat) (socket : Socket) (s : Session) :
    outputAt n (c.mirrored catalog) socket s = outputAt n c socket s := by
  induction n generalizing socket s with
  | zero => rfl
  | succ n ih =>
    rw [outputAt_succ, outputAt_succ, outputWith_eq, outputWith_eq]
    rcases property_mirrored h socket.node socket.key with ⟨e, he, he'⟩ | ⟨schema, schema', p, p', hprop, hprop', hs, hp⟩
    · rw [he, he']
    · rw [hprop, hprop']
      dsimp only
      rw [outputSteps_mirrored h hstored hdefault hc hprop hs hp, hs.name]
      split
      · rfl
      · congr 1
        refine (c.within_outputSteps_of_arguments hc hprop).run_congr (c.framed_outputAt n) ?_ _ rfl
        intro peer _ s' _
        exact ih peer s'

/-- **Reverse flow is the mirror image of forward flow.** Let the programs of a compiler read the arguments of their own
nodes only, and let no controls be stored for inputs. When reversed inputs are made forward ones, forward inputs reversed
ones, and all connections are turned round, then every output gives the same value or the same error and raises the same
events. -/
theorem output_mirrored (h : c.catalog.Mirrors catalog) (hc : c.ReadsOwnArguments) (hdefault : c.IgnoresFlow)
    (hstored : c.StoresNoInputs) (node key : String) (s : Session) :
    ∃ r, c.output node key s = some r ∧ (c.mirrored catalog).output node key s = some r := by
  obtain ⟨r, hr⟩ := Option.isSome_iff_exists.mp (output_isSome hc.inferFree ⟨node, key⟩ s)
  refine ⟨r, hr, ?_⟩
  have hdepth : (c.mirrored catalog).depth = c.depth := by rw [depth, depth, declared_mirrored h]
  rw [output, hdepth, outputAt_mirrored h hstored hdefault hc]
  exact hr

/-! ### Relays -/

/-- A block that writes its label around what it reads from one input and from an input of many connections, whose types
are given. -/
def relay (one many : Ty) : Schema where
  name := "Relay"
  category := none
  isGlobal := false
  props :=
    [ { key := "out", type := ⟨"Any", none, [], {}, .empty, true⟩, direction := .output, multi := false,
        optional := false,
        callbacks := KeyMap.empty.insert motokoKey fun _ =>
          .getText "label" fun label => .getText "one" fun first => .getTexts "many" fun rest =>
            .text (label ++ "[" ++ " ".intercalate (first :: rest) ++ "]") },
      { key := "one", type := one, direction := .input, multi := false, optional := false, callbacks := .empty },
      { key := "many", type := many, direction := .input, multi := true, optional := false, callbacks := .empty },
      { key := "label", type := ⟨"Any", none, [], {}, .empty, true⟩, direction := .control, multi := false,
        optional := false, callbacks := .empty } ]

def forward : Ty := ⟨"Any", none, [], {}, .empty, true⟩

def reversed : Ty := ⟨"AnyReversed", none, [], { reversed := true }, .empty, true⟩

/-- Three relays. The second reads the first from its one input, and the third and the first from the other, along
connections that leave from it; the third reads the second in turn. -/
def relays : Compiler where
  graph := ⟨[(Node.new "a" "Relay").withControl "label" (.string "a"),
      (Node.new "b" "Relay").withControl "label" (.string "b"),
      (Node.new "d" "Relay").withControl "label" (.string "d")],
    [⟨"a", "out", "b", "one"⟩, ⟨"b", "many", "d", "out"⟩, ⟨"b", "many", "a", "out"⟩, ⟨"d", "many", "b", "out"⟩], {}⟩
  catalog := ⟨[relay forward reversed]⟩
  registry := .empty
  compileKey := motokoKey

theorem mirrors_relays : relays.catalog.Mirrors ⟨[relay reversed forward]⟩ := by
  refine .cons ⟨rfl, rfl, rfl, ?_⟩ .nil
  refine .cons ⟨rfl, rfl, rfl, rfl, rfl, by decide, fun _ => rfl⟩ ?_
  refine .cons ⟨rfl, rfl, rfl, rfl, rfl, fun _ => rfl, fun h => absurd rfl h⟩ ?_
  refine .cons ⟨rfl, rfl, rfl, rfl, rfl, fun _ => rfl, fun h => absurd rfl h⟩ ?_
  exact .cons ⟨rfl, rfl, rfl, rfl, rfl, by decide, fun _ => rfl⟩ .nil

theorem readsOwnArguments_relays : relays.ReadsOwnArguments := by
  intro node schema p hschema hp
  obtain rfl : schema = relay forward reversed := List.mem_singleton.mp (mem_blocks_of_schema hschema)
  simp only [relay, List.mem_cons, List.not_mem_nil, or_false] at hp
  rcases hp with rfl | rfl | rfl | rfl
  · refine ⟨trivial, fun label => ?_⟩
    cases label with
    | error e => exact trivial
    | ok label =>
      refine ⟨trivial, fun first => ?_⟩
      cases first with
      | error e => exact trivial
      | ok first => exact ⟨trivial, fun rest => by cases rest <;> exact trivial⟩
  · exact trivial
  · exact trivial
  · exact trivial

theorem storesNoInputs_relays : relays.StoresNoInputs := by
  intro node schema p hschema hp hdir
  obtain rfl : schema = relay forward reversed := List.mem_singleton.mp (mem_blocks_of_schema hschema)
  obtain ⟨n, hn, -⟩ := schema_eq_ok_iff.mp hschema
  rw [Graph.control?, hn, Option.bind_some]
  have hmem := List.mem_of_find?_eq_some hn
  simp only [relays, List.mem_cons, List.not_mem_nil, or_false] at hmem
  simp only [relay, List.mem_cons, List.not_mem_nil, or_false] at hp
  rcases hp with rfl | rfl | rfl | rfl
  · cases hdir
  · rcases hmem with rfl | rfl | rfl <;> rfl
  · rcases hmem with rfl | rfl | rfl <;> rfl
  · cases hdir

/-- What the second relay reports: inputs that are missing on the first and the third, the first twice because it is read
twice, and that the third comes back to the second. -/
def relayEvents : List Event :=
  [.missingInput "a" "Relay" "one", .missingInput "d" "Relay" "one",
    .warning "b" "Relay" "out" (Error.cycleDetected "b" "out").message, .missingInput "a" "Relay" "one"]

/-- With the types of the two inputs exchanged and all connections turned round, the second relay reads the same and
reports the same. -/
theorem output_mirrored_relays :
    relays.catalog.Mirrors ⟨[relay reversed forward]⟩ ∧ relays.ReadsOwnArguments ∧ relays.IgnoresFlow ∧
    relays.StoresNoInputs ∧ relays.graph.turned.connections =
      [⟨"b", "one", "a", "out"⟩, ⟨"d", "out", "b", "many"⟩, ⟨"a", "out", "b", "many"⟩, ⟨"b", "out", "d", "many"⟩] ∧
    (relays.mirrored ⟨[relay reversed forward]⟩).output "b" "out" {} =
      some (.ok (some (.text "b[a[] d[] a[]]")), ({} : Session).raise relayEvents) := by
  have hdefault : relays.IgnoresFlow := by
    intro compile p p' h
    cases h
  obtain ⟨r, hr, hr'⟩ :=
    output_mirrored mirrors_relays readsOwnArguments_relays hdefault storesNoInputs_relays "b" "out" {}
  have hrun : relays.output "b" "out" {} =
      some (.ok (some (.text "b[a[] d[] a[]]")), ({} : Session).raise relayEvents) := rfl
  refine ⟨mirrors_relays, readsOwnArguments_relays, hdefault, storesNoInputs_relays, rfl, ?_⟩
  rw [hr', ← hr, hrun]

end Compiler

end BlockGraph
