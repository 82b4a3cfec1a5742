import BlockGraph.Proofs.Standard.Absence

/-!
# What becomes of the connections of a collection

The members of an actor and the statements of a function are collected: each connection that leaves the input
contributes what its peer gives, and what is reported meanwhile (`gatherWith_eq_ok`). A peer that is an output of a
standard block gives an item, or an event names its node. Any other pin of a standard block has no program. It gives
nothing, and nothing is reported of it (`OverStandard.accounted`).

So a collection is complete for the connections to outputs (`collected_or_reported`), and a connection to another pin
leaves no trace (`stray_member_unreported`).
-/

namespace BlockGraph

namespace Standard

/-- Only the outputs of the block do anything. -/
def Idle (s : Schema) : Prop := ∀ p ∈ s.props, p.isOutput = false → p.callback? motokoKey = none

theorem idle_literalSchema (name : String) (t : Ty) (write : LiteralText) : Idle (literalSchema name t write) := by
  intro p hp hother
  obtain rfl | rfl := by simpa [literalSchema] using hp
  · rfl
  · cases hother

theorem idle_splitSchema {name category : String} {isGlobal : Bool} {output : PropDecl} {inputs : List PropDecl}
    (hinputs : ∀ d ∈ inputs, d.callbacks = .empty) : Idle (splitSchema name category isGlobal output inputs) := by
  intro p hp hother
  rcases List.mem_cons.mp hp with rfl | hinput
  · cases hother
  · obtain ⟨d, hd, rfl⟩ := List.mem_map.mp hinput
    rw [Property.callback?, PropDecl.settle, hinputs d hd]
    rfl

namespace Types

variable (t : Types)

theorem idle_of_mem : ∀ s ∈ t.schemas, Idle s := by
  simp only [schemas, List.forall_mem_cons, List.not_mem_nil, false_implies, implies_true, and_true,
    idle_literalSchema, true_and]
  refine ⟨?_, ?_, ?_, ?_, ?_, ?_, ?_, ?_, ?_, ?_⟩ <;> exact idle_splitSchema (by simp)

theorem collects_of_mem : ∀ s ∈ t.schemas, ∀ p ∈ s.props, p.direction = .input → p.multi = true → p.Collects := by
  intro s hs p hp hinput hmulti
  refine ⟨hinput, hmulti, ?_⟩
  have hmember := t.backward t.member (by simp)
  have heffect := t.backward t.effect (by simp)
  revert s p
  simp [schemas, literalSchema, binarySchema, unarySchema, actorSchema, funcSchema, printSchema, splitSchema,
    PropDecl.settle, resultDecl, hmember, heffect]

end Types

end Standard

namespace Compiler

/-- What a connection contributes to a collection. -/
structure Contribution where
  item : Option Value
  events : List Event

theorem gatherWith_eq_ok {outputs : Outputs} (houtputs : ∀ socket, (outputs socket).Framed) {peers : List Socket}
    {s s' : Session} {vs : List Value} (h : gatherWith outputs peers s = some (.ok vs, s')) :
    ∃ parts : List Contribution,
      List.Forall₂ (fun peer part => (outputs peer).observe s.inProgress = some (.ok part.item, part.events))
        peers parts ∧
      vs = parts.filterMap Contribution.item ∧ s' = s.raise (parts.flatMap Contribution.events) := by
  induction peers generalizing s vs with
  | nil =>
    cases h
    exact ⟨[], .nil, rfl, (Session.raise_nil _).symm⟩
  | cons peer rest ih =>
    rw [gatherWith, Eval.bind_apply] at h
    obtain ⟨⟨result, s₁⟩, hpeer, h⟩ := Option.bind_eq_some_iff.mp h
    obtain ⟨es, hobserve, rfl⟩ := (houtputs peer).apply_eq_some hpeer
    cases result with
    | error e => cases h
    | ok v =>
      dsimp only at h
      rw [Eval.bind_apply] at h
      obtain ⟨⟨result, s₂⟩, hrest, h⟩ := Option.bind_eq_some_iff.mp h
      cases result with
      | error e => cases h
      | ok vs =>
        cases h
        obtain ⟨parts, hparts, rfl, rfl⟩ := ih hrest
        refine ⟨⟨v, es⟩ :: parts, .cons hobserve hparts, ?_, by simp⟩
        cases v <;> rfl

/-- The pin is an output of a known block. -/
def isOutputPin (c : Compiler) (x : Socket) : Bool :=
  match c.property x.node x.key with
  | .ok (_, p) => p.isOutput
  | .error _ => false

/-- An output gives an item, or an event names its node. Any other pin gives nothing, and nothing is reported of it
unless it is being computed. -/
structure Accounted (c : Compiler) (marks : List Socket) (peer : Socket) (part : Contribution) : Prop where
  known : ∃ found, c.property peer.node peer.key = .ok found
  output : c.isOutputPin peer = true → part.item = none → ∃ e ∈ part.events, e.node = peer.node
  other : c.isOutputPin peer = false → part.item = none ∧ (peer ∉ marks → part.events = [])

variable {c : Compiler} {x : Socket} {schema : Schema} {p : Property}

namespace OverStandard

variable (hc : c.OverStandard)

include hc

theorem node_mem_of_traceAt {n : Nat} {marks : List Socket} {ns : List Notice}
    (hprop : c.property x.node x.key = .ok (schema, p)) (hout : p.isOutput = true)
    (h : traceAt n c marks x = some (.ok none, ns)) : ∃ e ∈ ns.map Notice.event, e.node = x.node := by
  have hschema := mem_blocks_of_schema (property_eq_ok_iff.mp hprop).1
  have hp := mem_props_of_property hprop
  obtain ⟨types, -, hcatalog⟩ := hc.catalog
  obtain ⟨callback, hcallback, hprogram⟩ := Standard.accounts_of_mem hcatalog schema hschema p hp hout
  have haccounts : (c.program x.node schema p).Accounts schema.Requires := by
    rw [hc.program_eq hcallback]
    exact (hprogram _).2
  obtain ⟨message, hmem⟩ | ⟨own, q, -, hmem⟩ :=
    explains_of_traceAt hc.postCompile hprop (hc.readsOnce x.node hschema hp) haccounts h
  · exact ⟨_, hmem, rfl⟩
  · exact ⟨_, hmem, rfl⟩

theorem outputSteps_of_idle (hprop : c.property x.node x.key = .ok (schema, p)) (hother : p.isOutput = false) :
    c.outputSteps x schema p = .done none := by
  obtain ⟨t, ht⟩ := hc.types
  have hschema := mem_blocks_of_schema (property_eq_ok_iff.mp hprop).1
  rw [ht] at hschema
  have hidle := t.idle_of_mem schema hschema p (mem_props_of_property hprop) hother
  rw [outputSteps, hc.program_of_quiet hidle]
  simp only [Program.absent, programSteps, Steps.bind, hc.postProcess]

theorem accounted {n : Nat} {marks : List Socket} {part : Contribution}
    (h : (outputAt n c x).observe marks = some (.ok part.item, part.events)) : c.Accounted marks x part := by
  rw [observe_outputAt] at h
  obtain ⟨⟨result, ns⟩, htrace, hpart⟩ := Option.map_eq_some_iff.mp h
  obtain ⟨rfl, hevents⟩ := Prod.mk.inj hpart
  cases n with
  | zero => cases htrace
  | succ n =>
    cases hprop : c.property x.node x.key with
    | error e =>
      rw [traceAt, hprop] at htrace
      cases htrace
    | ok found =>
      obtain ⟨schema, p⟩ := found
      have hpin : c.isOutputPin x = p.isOutput := by rw [isOutputPin, hprop]
      refine ⟨⟨_, hprop⟩, fun hout hitem => ?_, fun hother => ?_⟩
      · rw [hitem] at htrace
        rw [← hevents]
        exact hc.node_mem_of_traceAt hprop (hpin ▸ hout) htrace
      · rw [traceAt, hprop] at htrace
        dsimp only at htrace hevents
        by_cases hmark : x ∈ marks
        · rw [if_pos hmark] at htrace
          obtain ⟨hitem, -⟩ := Prod.mk.inj (Option.some.inj htrace)
          exact ⟨(Except.ok.inj hitem).symm, fun h => absurd hmark h⟩
        · rw [if_neg hmark, hc.outputSteps_of_idle hprop (hpin ▸ hother)] at htrace
          obtain ⟨hitem, rfl⟩ := Prod.mk.inj (Option.some.inj htrace)
          exact ⟨(Except.ok.inj hitem).symm, fun _ => hevents.symm⟩

end OverStandard

theorem length_items {marks peers : List Socket} {parts : List Contribution}
    (h : List.Forall₂ (c.Accounted marks) peers parts) (hevents : parts.flatMap Contribution.events = []) :
    (parts.filterMap Contribution.item).length = peers.countP c.isOutputPin := by
  induction h with
  | nil => rfl
  | @cons peer part peers parts hpart _ ih =>
    rw [List.flatMap_cons, List.append_eq_nil_iff] at hevents
    have hrest := ih hevents.2
    cases hpin : c.isOutputPin peer with
    | false =>
      rw [List.filterMap_cons_none (hpart.other hpin).1, List.countP_cons_of_neg (by simp [hpin]), hrest]
    | true =>
      cases hitem : part.item with
      | none =>
        obtain ⟨e, he, -⟩ := hpart.output hpin hitem
        rw [hevents.1] at he
        cases he
      | some v =>
        rw [List.filterMap_cons_some hitem, List.countP_cons_of_pos hpin, List.length_cons, hrest]

variable {node key : String}

/-- **Members and statements are collected or reported.** A multi input of a standard block that is read without an
error gives the list of the items that the connections leaving it contribute, in order, each at most one, and what is
reported meanwhile is what they report. A connection to an output without an item has an event that names its peer, and
a connection to any other pin contributes nothing. If nothing is reported, there are as many items as connections to
outputs. -/
theorem collected_or_reported (c : Compiler) (hc : c.OverStandard) (hprop : c.property node key = .ok (schema, p))
    (hinput : p.direction = .input) (hmulti : p.multi = true) (n : Nat) (s s' : Session) (r : Option Value)
    (h : c.inputWith (outputAt n c) node key s = some (.ok r, s')) :
    ∃ parts : List Contribution,
      List.Forall₂ (fun peer part =>
          (outputAt n c peer).observe s.inProgress = some (.ok part.item, part.events) ∧
            c.Accounted s.inProgress peer part)
        (c.graph.peers node .output key) parts ∧
      r = some (.list (parts.filterMap Contribution.item)) ∧
      s' = s.raise (parts.flatMap Contribution.events) ∧
      (s'.events = s.events →
        (parts.filterMap Contribution.item).length = (c.graph.peers node .output key).countP c.isOutputPin) := by
  obtain ⟨t, ht⟩ := hc.types
  have hschema := mem_blocks_of_schema (property_eq_ok_iff.mp hprop).1
  rw [ht] at hschema
  have hcollects := t.collects_of_mem schema hschema p (mem_props_of_property hprop) hinput hmulti
  have hkey := Schema.key_of_prop? (property_eq_ok_iff.mp hprop).2
  have hside : inputSide p = .output := by simp [inputSide, hcollects.backward]
  simp only [inputWith, Level.input, levelWith, hprop, hinput, connectedWith, hmulti, if_true, hside, hkey, Eval.bind_apply] at h
  obtain ⟨⟨result, s₁⟩, hgather, h⟩ := Option.bind_eq_some_iff.mp h
  cases result with
  | error e => cases h
  | ok vs =>
    cases h
    obtain ⟨parts, hparts, rfl, rfl⟩ := gatherWith_eq_ok (c.framed_outputAt n) hgather
    refine ⟨parts, hparts.imp fun _ _ hpart => ⟨hpart, hc.accounted hpart⟩, rfl, rfl, fun hevents => ?_⟩
    exact length_items (hparts.imp fun _ _ hpart => hc.accounted hpart) (by simpa using hevents)

/-- An actor with a function, one without a name, and the body of a function in the place of a member. -/
def roster : Compiler where
  graph :=
    ⟨[.new "app" "Actor", (Node.new "greet" "Func").withControl "name" (.string "greet"), .new "hush" "Func"],
      [⟨"app", "members", "greet", "member"⟩, ⟨"app", "members", "hush", "member"⟩,
        ⟨"app", "members", "greet", "body"⟩], {}⟩
  catalog := Standard.builtinCatalog
  registry := .empty
  compileKey := motokoKey

/-- One connection contributes an item, one an event, and one nothing at all. -/
theorem collected_or_reported_roster :
    roster.OverStandard ∧
      roster.graph.peers "app" .output "members" = [⟨"greet", "member"⟩, ⟨"hush", "member"⟩, ⟨"greet", "body"⟩] ∧
      ∃ first second third : Contribution, first.item = some (.text "public func greet() : async () \x7b  \x7d;") ∧
        second.item = none ∧ roster.Accounted [] ⟨"hush", "member"⟩ second ∧
        third.item = none ∧ third.events = [] ∧
        roster.input "app" "members" {} =
          some (.ok (some (.list ([first, second, third].filterMap Contribution.item))),
            Session.raise {} ([first, second, third].flatMap Contribution.events)) := by
  have hc : roster.OverStandard := ⟨Standard.catalog_builtin, rfl, rfl, rfl⟩
  refine ⟨hc, rfl, ?_⟩
  obtain ⟨⟨schema, p⟩, hprop⟩ : ∃ found, roster.property "app" "members" = .ok found := ⟨_, rfl⟩
  have hfields : p.direction = .input ∧ p.multi = true := by
    have h : (roster.property "app" "members").map (fun found => (found.2.direction, found.2.multi)) =
        .ok (.input, true) := rfl
    rw [hprop] at h
    exact Prod.mk.inj (Except.ok.inj h)
  obtain ⟨r, s', hread⟩ : ∃ r s', roster.input "app" "members" {} = some (.ok r, s') := ⟨_, _, rfl⟩
  obtain ⟨parts, hparts, rfl, rfl, -⟩ :=
    collected_or_reported roster hc hprop hfields.1 hfields.2 roster.depth {} s' r hread
  obtain ⟨first, _, ⟨hfirst, -⟩, hfunctions, rfl⟩ := List.forall₂_cons_left_iff.mp hparts
  obtain ⟨second, _, ⟨hsecond, haccounted⟩, hpins, rfl⟩ := List.forall₂_cons_left_iff.mp hfunctions
  obtain ⟨third, _, ⟨-, hthird⟩, hnone, rfl⟩ := List.forall₂_cons_left_iff.mp hpins
  obtain rfl := List.forall₂_nil_left_iff.mp hnone
  refine ⟨first, second, third, ?_, ?_, haccounted, (hthird.other rfl).1, (hthird.other rfl).2 (by simp), hread⟩
  · exact (Except.ok.inj (Prod.mk.inj (Option.some.inj hfirst)).1).symm
  · exact (Except.ok.inj (Prod.mk.inj (Option.some.inj hsecond)).1).symm

/-- An actor whose only connection leads to the body of a function. -/
def stray : Compiler where
  graph :=
    ⟨[.new "app" "Actor", (Node.new "greet" "Func").withControl "name" (.string "greet")],
      [⟨"app", "members", "greet", "body"⟩], {}⟩
  catalog := Standard.builtinCatalog
  registry := .empty
  compileKey := motokoKey

/-- The connection is attached to the members, but there is neither an item nor an event. -/
theorem stray_member_unreported :
    stray.OverStandard ∧ stray.graph.peers "app" .output "members" = [⟨"greet", "body"⟩] ∧
      stray.input "app" "members" {} = some (.ok (some (.list [])), {}) :=
  ⟨⟨Standard.catalog_builtin, rfl, rfl, rfl⟩, rfl, rfl⟩

end Compiler

end BlockGraph
