import BlockGraph.Proofs.Evaluation.Isolation
import BlockGraph.Proofs.Standard.Expression

/-!
# Actor programs

The graph of an actor shows its members and their statements, each in the order of connections (`ShowsActor`,
`ShowsFunc`). Members and statements are followed backwards, so connections leave the actor and the functions. A
function without a name is left out of the text, and two events say so each time it is met (`Func.events`).

`compileProgram_actor` says that this is what is compiled. The outputs of statements, functions and the actor are
found in that order: each depends on the ones before only, so there is no cycle.
-/

namespace BlockGraph

namespace Standard

def statement (message : Expr) : String := "Debug.print(" ++ message.render ++ ");"

/-- A function, with the messages that it prints. -/
structure Func where
  node : String
  name : Option Value
  body : List Expr

namespace Func

def text (f : Func) : Option String :=
  f.name.map fun name =>
    "public func " ++ name.display ++ "() : async () \x7b " ++ " ".intercalate (f.body.map statement) ++ " \x7d;"

def events (f : Func) : List Event :=
  match f.name with
  | some _ => []
  | none =>
    [ .missingInput f.node "Func" "name",
      .warning f.node "Func" "member" ("Function " ++ f.node ++ " has no name") ]

end Func

structure Actor where
  name : Option Value
  members : List Func

namespace Actor

def text (a : Actor) : String :=
  "actor" ++ (a.name.map fun name => " " ++ name.display).getD "" ++ " \x7b " ++
    " ".intercalate (a.members.filterMap Func.text) ++ " \x7d;"

def events (a : Actor) : List Event := a.members.flatMap Func.events

end Actor

theorem consults_splitSchema {c : Compiler} {node name category : String} {isGlobal : Bool} {output : PropDecl}
    {inputs : List PropDecl} {y : Socket}
    (hschema : c.schema node = .ok (splitSchema name category isGlobal output inputs)) (h : c.Consults node y) :
    ∃ d ∈ inputs, y ∈ c.consulted node (d.settle .input) := by
  obtain ⟨schema, key, p, hfound, hprop, hinput, hy⟩ := h
  obtain rfl := Except.ok.inj (hschema.symm.trans hfound)
  rcases List.mem_cons.mp (List.mem_of_find?_eq_some hprop) with rfl | hp
  · cases hinput
  · obtain ⟨d, hd, rfl⟩ := List.mem_map.mp hp
    exact ⟨d, hd, hy⟩

theorem mem_nodes_of_blockName? {g : Graph} {id block : String} (h : g.blockName? id = some block) :
    ∃ n ∈ g.nodes, n.id = id ∧ n.block = block := by
  obtain ⟨n, hn, hblock⟩ := Option.map_eq_some_iff.mp h
  exact ⟨n, List.mem_of_find?_eq_some hn, by simpa using List.find?_some hn, hblock⟩

theorem displayAll_eq_map (items : List Value) : Value.displayAll items = items.map Value.display := by
  induction items with
  | nil => rfl
  | cons v rest ih => rw [Value.displayAll, ih, List.map_cons]

end Standard

namespace Compiler

open Standard

structure ShowsFunc (c : Compiler) (node : String) (f : Func) : Prop where
  place : f.node = node
  name : c.storedControl node "name" = .ok f.name
  body : List.Forall₂ (fun peer e => c.Unfolds (.operand peer.node "message") e)
    (c.graph.peers node .output "body") f.body

structure ShowsActor (c : Compiler) (node : String) (a : Actor) : Prop where
  name : c.storedControl node "name" = .ok a.name
  members : List.Forall₂ (fun peer f => c.ShowsFunc peer.node f) (c.graph.peers node .output "members") a.members

/-- The operand is connected first to an expression, or it has a control. -/
def Resolves (c : Compiler) (node key : String) : Prop :=
  match c.graph.peers node .input key with
  | peer :: _ => peer.key = "result" ∧ c.IsExpression peer.node
  | [] => ∃ v, c.storedControl node key = .ok (some v)

/-- The graph is that of an actor whose members are functions that print. -/
structure IsActorProgram (c : Compiler) (actor : String) : Prop where
  ids : c.graph.nodeIds.Nodup
  known : ∀ id ∈ c.graph.nodeIds, ¬ c.UnknownBlock id
  block : c.graph.blockName? actor = some "Actor"
  only : ∀ id schema, c.schema id = .ok schema → schema.isGlobal = true → id = actor
  members : ∀ peer ∈ c.graph.peers actor .output "members",
    peer.key = "member" ∧ c.graph.blockName? peer.node = some "Func"
  body : ∀ node, c.graph.blockName? node = some "Func" → ∀ peer ∈ c.graph.peers node .output "body",
    peer.key = "statement" ∧ c.graph.blockName? peer.node = some "Print"
  message : ∀ node, c.graph.blockName? node = some "Print" → c.Resolves node "message"
  name : ∀ node, c.graph.blockName? node = some "Func" ∨ c.graph.blockName? node = some "Actor" →
    c.graph.peers node .input "name" = [] ∧ ∃ v, c.storedControl node "name" = .ok v

variable {c : Compiler} {actor node : String}

theorem ShowsFunc.unique {f f' : Func} (h : c.ShowsFunc node f) (h' : c.ShowsFunc node f') : f' = f := by
  have hbody := List.right_unique_forall₂' (fun _ _ _ he he' => he'.unique he) h'.body h.body
  obtain ⟨_, name, body⟩ := f
  obtain ⟨_, name', body'⟩ := f'
  obtain rfl := h.place
  obtain rfl := h'.place
  obtain rfl : name = name' := Except.ok.inj (h.name.symm.trans h'.name)
  obtain rfl : body' = body := hbody
  rfl

theorem ShowsActor.unique {a a' : Actor} (h : c.ShowsActor node a) (h' : c.ShowsActor node a') : a' = a := by
  have hmembers := List.right_unique_forall₂' (fun _ _ _ hf hf' => hf'.unique hf) h'.members h.members
  obtain ⟨name, members⟩ := a
  obtain ⟨name', members'⟩ := a'
  obtain rfl : name = name' := Except.ok.inj (h.name.symm.trans h'.name)
  obtain rfl : members' = members := hmembers
  rfl

theorem Resolves.readTrace {key : String} {schema : Schema} {p : Property} (hc : c.OverStandard)
    (h : c.Resolves node key) (hschema : c.schema node = .ok schema) (hprop : schema.prop? key = some p)
    (hp : p.IsOperand) :
    ∃ e v, c.Unfolds (.operand node key) e ∧ Value.textOf (some v) = e.render ∧
      c.readTrace c.alone node schema key = some (.ok (some v), []) := by
  rw [Resolves] at h
  refine readTrace_of_operandAt hschema hprop hp ?_ ?_
  · rw [OperandAt]
    cases hpeers : c.graph.peers node .input key with
    | nil => simpa [hpeers] using h
    | cons peer rest =>
      rw [hpeers] at h
      exact h.1
  · intro peer rest hpeers hresult
    rw [hpeers] at h
    obtain ⟨other, pin⟩ := peer
    obtain rfl : pin = "result" := hresult
    exact h.2.alone_eq hc

theorem Resolves.acyclicFrom {key : String} {y : Socket} (h : c.Resolves node key)
    (hy : y ∈ (c.graph.peers node .input key).take 1) : c.AcyclicFrom y := by
  rw [Resolves] at h
  cases hpeers : c.graph.peers node .input key with
  | nil => simp [hpeers] at hy
  | cons peer rest =>
    rw [hpeers] at h
    obtain rfl : y = peer := by simpa [hpeers] using hy
    obtain ⟨other, pin⟩ := y
    obtain rfl : pin = "result" := h.1
    exact h.2.acyclic

theorem IsActorProgram.readTrace_name (h : c.IsActorProgram actor) {schema : Schema} {p : Property}
    (hblock : c.graph.blockName? node = some "Func" ∨ c.graph.blockName? node = some "Actor")
    (hschema : c.schema node = .ok schema) (hprop : schema.prop? "name" = some p) (hp : p.IsOperand) :
    ∃ name, c.storedControl node "name" = .ok name ∧
      c.readTrace c.alone node schema "name" = some (.ok name, missing node schema p (.ok name)) := by
  obtain ⟨hpeers, name, hname⟩ := h.name node hblock
  refine ⟨name, hname, ?_⟩
  rw [c.readTrace_operand hschema hprop hp, operandTrace, hpeers]
  simp [hname]

theorem IsActorProgram.acyclicFrom_collector (h : c.IsActorProgram actor) {block category key : String}
    {isGlobal : Bool} {output named items : PropDecl}
    (hblock : c.graph.blockName? node = some "Func" ∨ c.graph.blockName? node = some "Actor")
    (hschema : c.schema node = .ok (splitSchema block category isGlobal output [named, items]))
    (hnamed : (named.settle .input).IsOperand) (hname : named.key = "name") (hitems : (items.settle .input).Collects)
    (hpeers : ∀ peer ∈ c.graph.peers node .output items.key, c.AcyclicFrom peer) : c.AcyclicFrom ⟨node, key⟩ := by
  refine AcyclicFrom.of_dependsOn fun y hy => ?_
  obtain ⟨d, hd, hy⟩ := consults_splitSchema hschema hy
  obtain rfl | rfl := by simpa using hd
  · rw [c.consulted_operand hnamed] at hy
    simp [PropDecl.settle, hname, (h.name node hblock).1] at hy
  · rw [c.consulted_collected hitems] at hy
    exact hpeers y hy

namespace IsActorProgram

variable (hc : c.OverStandard) (h : c.IsActorProgram actor)

include hc h

theorem alone_print (hblock : c.graph.blockName? node = some "Print") :
    ∃ e, c.Unfolds (.operand node "message") e ∧ c.AcyclicFrom ⟨node, "statement"⟩ ∧
      c.alone ⟨node, "statement"⟩ = some (.ok (some (.text (statement e))), []) := by
  obtain ⟨t, ht⟩ := hc.types
  have hschema : c.schema node = .ok t.printSchema := schema_of_block hblock (ht ▸ rfl)
  have hoperand : (({ key := "message", type := t.text } : PropDecl).settle .input).IsOperand :=
    ⟨rfl, rfl, t.forward t.text (by simp)⟩
  have hmessage := h.message node hblock
  have hacyclic : c.AcyclicFrom ⟨node, "statement"⟩ := by
    refine AcyclicFrom.of_dependsOn fun y hy => ?_
    obtain ⟨d, hd, hy⟩ := consults_splitSchema hschema hy
    obtain rfl := List.mem_singleton.mp hd
    rw [c.consulted_operand hoperand] at hy
    exact hmessage.acyclicFrom hy
  obtain ⟨e, v, he, hv, hread⟩ := hmessage.readTrace hc hschema rfl hoperand
  refine ⟨e, he, hacyclic, ?_⟩
  rw [hc.alone_eq hschema rfl rfl hacyclic]
  simp only [printCallback, Program.getText, Program.readings_get hread, hv]
  rfl

theorem alone_func (hblock : c.graph.blockName? node = some "Func") :
    ∃ f, c.ShowsFunc node f ∧ c.AcyclicFrom ⟨node, "member"⟩ ∧
      c.alone ⟨node, "member"⟩ = some (.ok (f.text.map .text), f.events.map .reported) := by
  obtain ⟨t, ht⟩ := hc.types
  have hschema : c.schema node = .ok t.funcSchema := schema_of_block hblock (ht ▸ rfl)
  have hoperand : (({ key := "name", type := t.identifier } : PropDecl).settle .input).IsOperand :=
    ⟨rfl, rfl, t.forward t.identifier (by simp)⟩
  have hcollects : (({ key := "body", type := t.effect, multi := true } : PropDecl).settle .input).Collects :=
    ⟨rfl, rfl, t.backward t.effect (by simp)⟩
  have hprints : ∀ peer ∈ c.graph.peers node .output "body", ∃ e, c.Unfolds (.operand peer.node "message") e ∧
      c.AcyclicFrom peer ∧ c.alone peer = some (.ok (some (.text (statement e))), []) := by
    rintro ⟨print, pin⟩ hpeer
    obtain ⟨hpin, hprint⟩ := h.body node hblock _ hpeer
    obtain rfl : pin = "statement" := hpin
    exact h.alone_print hc hprint
  have hacyclic : c.AcyclicFrom ⟨node, "member"⟩ := by
    refine h.acyclicFrom_collector (.inl hblock) hschema hoperand rfl hcollects fun peer hpeer => ?_
    obtain ⟨e, -, hpeer, -⟩ := hprints peer hpeer
    exact hpeer
  obtain ⟨body, hbody⟩ := exists_forall₂_iff.mpr hprints
  obtain ⟨name, hname, hreadName⟩ := h.readTrace_name (.inl hblock) hschema rfl hoperand
  have hreadBody : c.readTrace c.alone node t.funcSchema "body" =
      some (.ok (some (.list (body.map fun e => .text (statement e)))), []) := by
    rw [c.readTrace_collected hschema rfl hcollects (hbody.imp fun _ _ hpeer => hpeer.2.2)]
    simp
  refine ⟨⟨node, name, body⟩, ⟨rfl, hname, hbody.imp fun _ _ hpeer => hpeer.1⟩, hacyclic, ?_⟩
  rw [hc.alone_eq hschema rfl rfl hacyclic]
  cases name with
  | none =>
    simp only [funcCallback, Program.readings_get hreadName]
    rfl
  | some v =>
    simp only [funcCallback, Program.readings_get hreadName, Program.getTexts, Program.readings_get hreadBody,
      Value.texts, displayAll_eq_map, List.map_map]
    rfl

theorem alone_actor : ∃ a, c.ShowsActor actor a ∧
    c.alone ⟨actor, "actor"⟩ = some (.ok (some (.text a.text)), a.events.map .reported) := by
  obtain ⟨t, ht⟩ := hc.types
  have hschema : c.schema actor = .ok t.actorSchema := schema_of_block h.block (ht ▸ rfl)
  have hoperand : (({ key := "name", type := t.identifier, optional := true } : PropDecl).settle .input).IsOperand :=
    ⟨rfl, rfl, t.forward t.identifier (by simp)⟩
  have hcollects : (({ key := "members", type := t.member, multi := true } : PropDecl).settle .input).Collects :=
    ⟨rfl, rfl, t.backward t.member (by simp)⟩
  have hfuncs : ∀ peer ∈ c.graph.peers actor .output "members", ∃ f, c.ShowsFunc peer.node f ∧ c.AcyclicFrom peer ∧
      c.alone peer = some (.ok (f.text.map .text), f.events.map .reported) := by
    rintro ⟨func, pin⟩ hpeer
    obtain ⟨hpin, hfunc⟩ := h.members _ hpeer
    obtain rfl : pin = "member" := hpin
    exact h.alone_func hc hfunc
  have hacyclic : c.AcyclicFrom ⟨actor, "actor"⟩ := by
    refine h.acyclicFrom_collector (.inr h.block) hschema hoperand rfl hcollects fun peer hpeer => ?_
    obtain ⟨f, -, hpeer, -⟩ := hfuncs peer hpeer
    exact hpeer
  obtain ⟨members, hmembers⟩ := exists_forall₂_iff.mpr hfuncs
  obtain ⟨name, hname, hreadName⟩ := h.readTrace_name (.inr h.block) hschema rfl hoperand
  rw [missing_of_optional rfl] at hreadName
  have hreadMembers := c.readTrace_collected hschema rfl hcollects (hmembers.imp fun _ _ hpeer => hpeer.2.2)
  have htexts : (members.filterMap fun f => f.text.map .text).map Value.display = members.filterMap Func.text := by
    simp [List.map_filterMap, Function.comp_def, Value.display]
  refine ⟨⟨name, members⟩, ⟨hname, hmembers.imp fun _ _ hpeer => hpeer.1⟩, ?_⟩
  rw [hc.alone_eq hschema rfl rfl hacyclic]
  simp only [actorCallback, Program.readings_get hreadName, Program.getTexts, Program.readings_get hreadMembers,
    Value.texts, displayAll_eq_map, htexts]
  simp [Program.text, Program.value, Program.readings, conclude, Actor.text, Actor.events, List.map_flatMap]

theorem globalTargets_eq : c.globalTargets = [⟨actor, "actor"⟩] := by
  obtain ⟨t, ht⟩ := hc.types
  have hschema : c.schema actor = .ok t.actorSchema := schema_of_block h.block (ht ▸ rfl)
  have hactor : c.targetsOf actor = [⟨actor, "actor"⟩] := by
    rw [targetsOf, hschema]
    rfl
  have hother : ∀ id, id ≠ actor → c.targetsOf id = [] := by
    intro id hid
    rw [targetsOf]
    cases hfound : c.schema id with
    | error e => rfl
    | ok schema =>
      have hlocal : schema.isGlobal ≠ true := fun hglobal => hid (h.only id schema hfound hglobal)
      simp [hlocal]
  have hmem : actor ∈ c.graph.nodeIds := by
    obtain ⟨n, hn, hid, -⟩ := mem_nodes_of_blockName? h.block
    exact hid ▸ List.mem_map_of_mem hn
  -- the ids before and after that of the actor are different from it
  obtain ⟨before, after, hsplit⟩ := List.append_of_mem hmem
  have hids := h.ids
  rw [hsplit, List.nodup_append, List.nodup_cons] at hids
  obtain ⟨-, ⟨hafter, -⟩, hbefore⟩ := hids
  have hnone : ∀ ids : List String, actor ∉ ids → ids.flatMap c.targetsOf = [] := by
    intro ids hids
    rw [List.flatMap_eq_nil_iff]
    exact fun id hid => hother id fun heq => hids (heq ▸ hid)
  rw [globalTargets, hsplit, List.flatMap_append, List.flatMap_cons, hnone after hafter, hactor,
    hnone before fun hmem => hbefore actor hmem actor List.mem_cons_self rfl]
  rfl

end IsActorProgram

/-- **An actor program has every member that has a name, in order, and says which have none.** -/
theorem compileProgram_actor (c : Compiler) (hc : c.OverStandard) (actor : String) (h : c.IsActorProgram actor) :
    ∃ a, c.ShowsActor actor a ∧ (∀ a', c.ShowsActor actor a' → a' = a) ∧
      c.compileProgram {} =
        some (.ok ⟨[⟨actor, "Actor", "actor", some (.text a.text)⟩], a.events⟩,
          { heard := a.events, handed := [a.events] }) := by
  obtain ⟨t, ht⟩ := hc.types
  have hschema : c.schema actor = .ok t.actorSchema := schema_of_block h.block (ht ▸ rfl)
  obtain ⟨a, hshows, halone⟩ := h.alone_actor hc
  refine ⟨a, hshows, fun a' ha' => hshows.unique ha', ?_⟩
  have houtput := output_of_alone halone (s := {}) rfl
  have hevents : (a.events.map Notice.reported).map Notice.event = a.events := by
    simp [Function.comp_def, Notice.event]
  rw [hevents] at houtput
  have hentry : c.IsEntry ⟨actor, "actor"⟩ ⟨actor, "Actor", "actor", some (.text a.text)⟩ :=
    (isEntry_iff (property_eq_ok_iff.mpr ⟨hschema, rfl⟩)).mpr ⟨_, _, houtput, rfl⟩
  rw [compileProgram_eq h.known, h.globalTargets_eq hc, compileOutputs_eq_ok_iff]
  refine ⟨.cons hentry .nil, ?_, rfl⟩
  simp [eventsAlone_eq (t := ⟨actor, "actor"⟩) houtput, Session.raise]

/-! ### A greeting -/

/-- An actor that has one function twice and between them one without a name. -/
def greeting : Compiler where
  graph :=
    ⟨[(Node.new "app" "Actor").withControl "name" (.string "Main"),
        (Node.new "greet" "Func").withControl "name" (.string "greet"), .new "hush" "Func", .new "say" "Print",
        (Node.new "shout" "Print").withControl "message" (.boolean true),
        (Node.new "word" "LiteralText").withControl "value" (.string "hi")],
      [⟨"app", "members", "greet", "member"⟩, ⟨"app", "members", "hush", "member"⟩,
        ⟨"app", "members", "greet", "member"⟩, ⟨"greet", "body", "say", "statement"⟩,
        ⟨"greet", "body", "shout", "statement"⟩, ⟨"hush", "body", "shout", "statement"⟩,
        ⟨"word", "result", "say", "message"⟩], {}⟩
  catalog := builtinCatalog
  registry := .empty
  compileKey := motokoKey

theorem overStandard_greeting : greeting.OverStandard := ⟨catalog_builtin, rfl, rfl, rfl⟩

theorem isExpression_greeting : greeting.IsExpression "word" := by
  refine .of_operands overStandard_greeting (.literal textLiteral) rfl ⟨.text "hi", "\"hi\"", rfl, rfl⟩ ?_
  intro key hkey
  cases hkey

theorem mem_greeting {id block : String} (h : greeting.graph.blockName? id = some block) :
    (id, block) ∈ [("app", "Actor"), ("greet", "Func"), ("hush", "Func"), ("say", "Print"), ("shout", "Print"),
      ("word", "LiteralText")] := by
  obtain ⟨n, hn, rfl, rfl⟩ := mem_nodes_of_blockName? h
  exact List.mem_map_of_mem (f := fun n => (n.id, n.block)) hn

theorem only_greeting {id : String} {schema : Schema} (h : greeting.schema id = .ok schema)
    (hglobal : schema.isGlobal = true) : id = "app" := by
  obtain ⟨t, ht⟩ := overStandard_greeting.types
  obtain ⟨n, hn, hget⟩ := schema_eq_ok_iff.mp h
  have hblock : greeting.graph.blockName? id = some n.block := by rw [Graph.blockName?, hn, Option.map_some]
  have hname : schema.name = n.block := by simpa using List.find?_some hget
  have hactor : n.block = "Actor" := by
    rw [← hname]
    have hmem := mem_blocks_of_schema h
    rw [ht] at hmem
    exact t.name_of_isGlobal schema hmem hglobal
  simpa [hactor] using mem_greeting hblock

theorem isActorProgram_greeting : greeting.IsActorProgram "app" where
  ids := by decide
  known := by
    obtain ⟨t, ht⟩ := overStandard_greeting.types
    rintro id - ⟨block, hblock, hget⟩
    rw [ht] at hget
    have hmem := mem_greeting hblock
    simp only [List.mem_cons, Prod.mk.injEq, List.not_mem_nil, or_false] at hmem
    rcases hmem with ⟨-, rfl⟩ | ⟨-, rfl⟩ | ⟨-, rfl⟩ | ⟨-, rfl⟩ | ⟨-, rfl⟩ | ⟨-, rfl⟩ <;> cases hget
  block := rfl
  only := fun _ _ => only_greeting
  members := by
    intro peer hpeer
    obtain rfl | rfl | rfl : peer = ⟨"greet", "member"⟩ ∨ peer = ⟨"hush", "member"⟩ ∨ peer = ⟨"greet", "member"⟩ := by
      simpa [greeting, Graph.peers, Connection.peer?] using hpeer
    · exact ⟨rfl, rfl⟩
    · exact ⟨rfl, rfl⟩
    · exact ⟨rfl, rfl⟩
  body := by
    intro node hblock peer hpeer
    obtain rfl | rfl : node = "greet" ∨ node = "hush" := by simpa using mem_greeting hblock
    · obtain rfl | rfl : peer = ⟨"say", "statement"⟩ ∨ peer = ⟨"shout", "statement"⟩ := by
        simpa [greeting, Graph.peers, Connection.peer?] using hpeer
      · exact ⟨rfl, rfl⟩
      · exact ⟨rfl, rfl⟩
    · obtain rfl : peer = ⟨"shout", "statement"⟩ := by
        simpa [greeting, Graph.peers, Connection.peer?] using hpeer
      exact ⟨rfl, rfl⟩
  message := by
    intro node hblock
    obtain rfl | rfl : node = "say" ∨ node = "shout" := by simpa using mem_greeting hblock
    · exact ⟨rfl, isExpression_greeting⟩
    · exact ⟨.bool true, rfl⟩
  name := by
    rintro node (hblock | hblock)
    · obtain rfl | rfl : node = "greet" ∨ node = "hush" := by simpa using mem_greeting hblock
      · exact ⟨rfl, some (.text "greet"), rfl⟩
      · exact ⟨rfl, none, rfl⟩
    · obtain rfl : node = "app" := by simpa using mem_greeting hblock
      exact ⟨rfl, some (.text "Main"), rfl⟩

/-- The function that has a name appears twice, and the one without a name is reported. -/
theorem compileProgram_actor_greeting :
    greeting.OverStandard ∧ greeting.IsActorProgram "app" ∧
      greeting.compileProgram {} =
        some (.ok ⟨[⟨"app", "Actor", "actor", some (.text ("actor Main \x7b " ++
            "public func greet() : async () \x7b Debug.print(\"hi\"); Debug.print(true); \x7d; " ++
            "public func greet() : async () \x7b Debug.print(\"hi\"); Debug.print(true); \x7d; \x7d;"))⟩],
          [.missingInput "hush" "Func" "name", .warning "hush" "Func" "member" "Function hush has no name"]⟩,
          { heard := [.missingInput "hush" "Func" "name",
              .warning "hush" "Func" "member" "Function hush has no name"],
            handed := [[.missingInput "hush" "Func" "name",
              .warning "hush" "Func" "member" "Function hush has no name"]] }) := by
  refine ⟨overStandard_greeting, isActorProgram_greeting, ?_⟩
  obtain ⟨a, -, hunique, hprogram⟩ :=
    compileProgram_actor greeting overStandard_greeting "app" isActorProgram_greeting
  let word : Literal := ⟨textLiteral, .text "hi", "\"hi\"", rfl⟩
  let greet : Func := ⟨"greet", some (.text "greet"), [.literal word, .control (.bool true)]⟩
  let hush : Func := ⟨"hush", none, [.control (.bool true)]⟩
  have hsay : greeting.Unfolds (.operand "say" "message") (.literal word) := .connected rfl (.literal rfl rfl)
  have hshout : greeting.Unfolds (.operand "shout" "message") (.control (.bool true)) := .control rfl rfl
  have hgreet : greeting.ShowsFunc "greet" greet := ⟨rfl, rfl, .cons hsay (.cons hshout .nil)⟩
  have hhush : greeting.ShowsFunc "hush" hush := ⟨rfl, rfl, .cons hshout .nil⟩
  have hactor : greeting.ShowsActor "app" ⟨some (.text "Main"), [greet, hush, greet]⟩ :=
    ⟨rfl, .cons hgreet (.cons hhush (.cons hgreet .nil))⟩
  rw [hprogram, ← hunique _ hactor]
  rfl

end Compiler

end BlockGraph
