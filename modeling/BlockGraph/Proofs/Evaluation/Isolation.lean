import BlockGraph.Proofs.Evaluation.Inference

/-!
# Targets are compiled apart from one another

Compiling several outputs is compiling each of them alone, on a fresh compiler, and putting values and events
together in order. Whatever goes wrong in one of them (a program that fails, a cycle, a connection that leads
nowhere, a stored type that is not registered) ends at that output.

* `compileEach_eq_ok_iff`: the outputs of a list of targets, as what each gives alone;
* `compilation_isolated`: when a list of targets and when a whole program can be compiled, and what the report
  holds then.

A target whose type is inferred in order to infer itself gives no report, alone or among others; `Settles` says that
there is no such nesting in it.
-/

namespace BlockGraph.Compiler

variable (c : Compiler)

/-- The target is a property that the block of a node of the graph declares. -/
def Declares (t : Socket) : Prop :=
  ∃ node schema p, c.graph.node? t.node = some node ∧ c.catalog.get? node.block = some schema ∧
    schema.prop? t.key = some p

/-- No inference that computing the target comes to is nested in itself. -/
def Settles (t : Socket) : Prop := ∀ b, c.Prompts [] (.compute t .done) b → c.WellNested b

/-- The events that the target raises alone. -/
def eventsAlone (t : Socket) : List Event :=
  match c.output t.node t.key {} with
  | some (_, s) => s.events
  | none => []

/-- The entry of a target in a report: its value is the one that the target has alone. -/
def IsEntry (t : Socket) (o : CompiledOutput) : Prop :=
  o.node = t.node ∧ o.key = t.key ∧ (∃ schema, c.schema t.node = .ok schema ∧ o.block = schema.name) ∧
    (c.output t.node t.key {}).map Prod.fst = some (.ok o.value)

/-- One of the targets is not declared, and those before it are declared and settle. -/
def Refuses (targets : List Socket) : Prop :=
  ∃ before t after, targets = before ++ t :: after ∧ (∀ u ∈ before, c.Declares u ∧ c.Settles u) ∧ ¬ c.Declares t

/-- The block of the node is not in the catalog. -/
def UnknownBlock (id : String) : Prop := ∃ name, c.graph.blockName? id = some name ∧ c.catalog.get? name = none

/-- The outputs of a node of a global block, in merge order. -/
def targetsOf (id : String) : List Socket :=
  match c.schema id with
  | .ok schema => if schema.isGlobal then schema.outputs.map fun p => ⟨id, p.key⟩ else []
  | .error _ => []

/-- The outputs of all nodes of global blocks, in the order of the nodes. -/
def globalTargets : List Socket := c.graph.nodeIds.flatMap c.targetsOf

variable {c}

theorem declares_iff {t : Socket} : c.Declares t ↔ ∃ r, c.property t.node t.key = .ok r := by
  constructor
  · rintro ⟨node, schema, p, hnode, hget, hprop⟩
    exact ⟨(schema, p), property_eq_ok_iff.mpr ⟨schema_eq_ok_iff.mpr ⟨node, hnode, hget⟩, hprop⟩⟩
  · rintro ⟨⟨schema, p⟩, h⟩
    obtain ⟨hschema, hprop⟩ := property_eq_ok_iff.mp h
    obtain ⟨node, hnode, hget⟩ := schema_eq_ok_iff.mp hschema
    exact ⟨node, schema, p, hnode, hget, hprop⟩

/-! ### One target -/

theorem settles_iff {t : Socket} : c.Settles t ↔ (c.output t.node t.key {}).isSome := by
  rw [output_eq_execute, execute_isSome_iff, Settles]

theorem outputAt_eq_none {t : Socket} (ht : ¬ c.Settles t) (n : Nat) : outputAt n c t {} = none := by
  cases h : outputAt n c t {} with
  | none => rfl
  | some r =>
    have hout : c.output t.node t.key {} = some r := output_eq_of_outputAt h
    exact absurd (settles_iff.mpr (by rw [hout]; rfl)) ht

theorem output_outcome {t : Socket} {s s' : Session} {r : Outcome (Option Value)}
    (h : c.output t.node t.key s = some (r, s')) :
    match c.property t.node t.key with
    | .error e => r = .error e ∧ s' = s
    | .ok _ => ∃ v, r = .ok v := by
  obtain ⟨n, hn⟩ : ∃ n, c.depth = n + 1 := ⟨_, rfl⟩
  rw [output, hn, outputAt_succ, outputWith_eq] at h
  cases hprop : c.property t.node t.key with
  | error e =>
    simp only [hprop, Option.some.injEq, Prod.mk.injEq] at h
    exact ⟨h.1.symm, h.2.symm⟩
  | ok found =>
    simp only [hprop] at h
    split at h
    · cases h
      exact ⟨none, rfl⟩
    · obtain ⟨x, -, hx⟩ := Option.map_eq_some_iff.mp h
      exact ⟨x.1, (congrArg Prod.fst hx).symm⟩

theorem eventsAlone_eq {t : Socket} {r : Outcome (Option Value)} {s : Session}
    (h : c.output t.node t.key {} = some (r, s)) : c.eventsAlone t = s.events := by
  rw [eventsAlone, h]

theorem property_of_isEntry {t : Socket} {o : CompiledOutput} (h : c.IsEntry t o) :
    ∃ found, c.property t.node t.key = .ok found := by
  obtain ⟨⟨result, s⟩, hout, hvalue⟩ := Option.map_eq_some_iff.mp h.2.2.2
  have houtcome := output_outcome hout
  cases hprop : c.property t.node t.key with
  | error e =>
    -- a target that is not declared has no value alone either
    rw [hprop] at houtcome
    exact absurd (houtcome.1.symm.trans hvalue) (by simp)
  | ok found => exact ⟨found, rfl⟩

theorem isEntry_iff {t : Socket} {o : CompiledOutput} {schema : Schema} {p : Property}
    (hprop : c.property t.node t.key = .ok (schema, p)) :
    c.IsEntry t o ↔ ∃ v s, c.output t.node t.key {} = some (.ok v, s) ∧ o = ⟨t.node, schema.name, t.key, v⟩ := by
  have hschema := (property_eq_ok_iff.mp hprop).1
  constructor
  · rintro ⟨hnode, hkey, ⟨schema', hschema', hblock⟩, hvalue⟩
    obtain rfl : schema = schema' := Except.ok.inj (hschema.symm.trans hschema')
    obtain ⟨⟨result, s⟩, hout, rfl⟩ := Option.map_eq_some_iff.mp hvalue
    refine ⟨o.value, s, hout, ?_⟩
    rw [← hnode, ← hkey, ← hblock]
  · rintro ⟨v, s, hout, rfl⟩
    exact ⟨rfl, rfl, ⟨schema, hschema, rfl⟩, by rw [hout]; rfl⟩

/-! ### A list of targets -/

theorem compileEach_cons_error {t : Socket} {rest : List Socket} {s : Session} {e : Error}
    (h : c.property t.node t.key = .error e) : c.compileEach (t :: rest) s = some (.error e, s) := by
  obtain ⟨n, hn⟩ : ∃ n, c.depth = n + 1 := ⟨_, rfl⟩
  rw [compileEach_cons]
  cases hschema : c.schema t.node with
  | error e' =>
    obtain rfl : e' = e := by simpa [property, hschema, bind, Except.bind] using h
    rfl
  | ok schema =>
    dsimp only
    rw [Eval.bind_apply, output, hn, outputAt_succ, outputWith_eq, h]
    rfl

theorem compileEach_cons_ok {t : Socket} {rest : List Socket} {s : Session} {schema : Schema} {p : Property}
    (hprop : c.property t.node t.key = .ok (schema, p)) (hs : s.inProgress = []) :
    c.compileEach (t :: rest) s =
      (c.output t.node t.key {}).bind fun r =>
        match r.1 with
        | .error e => some (.error e, s.raise r.2.events)
        | .ok v => (c.compileEach rest (s.raise r.2.events)).map fun q =>
            (q.1.map (⟨t.node, schema.name, t.key, v⟩ :: ·), q.2) := by
  rw [compileEach_cons, (property_eq_ok_iff.mp hprop).1]
  dsimp only
  rw [Eval.bind_apply, output_apply _ _ hs]
  cases c.output t.node t.key {} with
  | none => rfl
  | some r =>
    obtain ⟨result, s'⟩ := r
    cases result with
    | error e => rfl
    | ok v =>
      simp only [Option.map_some, Option.bind_some, Eval.bind_apply]
      cases c.compileEach rest (s.raise s'.events) with
      | none => rfl
      | some q =>
        obtain ⟨outputs, s''⟩ := q
        cases outputs <;> rfl

/-- One step: a list of targets has outputs when its first target has an entry, and the others have outputs after
the events of the first. -/
theorem compileEach_cons_eq_ok_iff {t : Socket} {rest : List Socket} {s s' : Session}
    {outputs : List CompiledOutput} (hs : s.inProgress = []) :
    c.compileEach (t :: rest) s = some (.ok outputs, s') ↔
      ∃ o os, c.IsEntry t o ∧ c.compileEach rest (s.raise (c.eventsAlone t)) = some (.ok os, s') ∧
        outputs = o :: os := by
  cases hprop : c.property t.node t.key with
  | error e =>
    rw [compileEach_cons_error hprop]
    constructor
    · intro h
      cases h
    · rintro ⟨o, os, hentry, -, -⟩
      obtain ⟨found, hfound⟩ := property_of_isEntry hentry
      rw [hprop] at hfound
      cases hfound
  | ok found =>
    obtain ⟨schema, p⟩ := found
    rw [compileEach_cons_ok hprop hs, Option.bind_eq_some_iff]
    constructor
    · rintro ⟨⟨result, s₁⟩, hout, h⟩
      cases result with
      | error e => cases h
      | ok v =>
        obtain ⟨⟨tail, s₂⟩, htail, hq⟩ := Option.map_eq_some_iff.mp h
        cases tail with
        | error e => cases hq
        | ok os =>
          cases hq
          refine ⟨_, os, (isEntry_iff hprop).mpr ⟨v, s₁, hout, rfl⟩, ?_, rfl⟩
          rw [eventsAlone_eq hout]
          exact htail
    · rintro ⟨o, os, hentry, hrest, rfl⟩
      obtain ⟨v, s₁, hout, rfl⟩ := (isEntry_iff hprop).mp hentry
      rw [eventsAlone_eq hout] at hrest
      refine ⟨_, hout, ?_⟩
      dsimp only
      rw [hrest]
      rfl

/-- **The outputs of a list of targets are what the targets give alone**, and what is added to the session
are the events that they raise alone. -/
theorem compileEach_eq_ok_iff {targets : List Socket} {s s' : Session} {outputs : List CompiledOutput}
    (hs : s.inProgress = []) :
    c.compileEach targets s = some (.ok outputs, s') ↔
      List.Forall₂ c.IsEntry targets outputs ∧ s' = s.raise (targets.flatMap c.eventsAlone) := by
  induction targets generalizing s s' outputs with
  | nil =>
    rw [List.forall₂_nil_left_iff, List.flatMap_nil, Session.raise_nil]
    constructor
    · intro h
      cases h
      exact ⟨rfl, rfl⟩
    · rintro ⟨rfl, rfl⟩
      rfl
  | cons t rest ih =>
    have hraised : (s.raise (c.eventsAlone t)).inProgress = [] := hs
    rw [compileEach_cons_eq_ok_iff hs, List.flatMap_cons, ← Session.raise_raise]
    constructor
    · rintro ⟨o, os, hentry, hrest, rfl⟩
      obtain ⟨hentries, hsession⟩ := (ih hraised).mp hrest
      exact ⟨.cons hentry hentries, hsession⟩
    · rintro ⟨hentries, hsession⟩
      obtain ⟨o, os, hentry, hrest, rfl⟩ := List.forall₂_cons_left_iff.mp hentries
      exact ⟨o, os, hentry, (ih hraised).mpr ⟨hrest, hsession⟩, rfl⟩

theorem compileEach_cons_eq_error_iff {t : Socket} {rest : List Socket} {s : Session} (hs : s.inProgress = [])
    (hdeclares : c.Declares t) :
    (∃ e s', c.compileEach (t :: rest) s = some (.error e, s')) ↔
      c.Settles t ∧ ∃ e s', c.compileEach rest (s.raise (c.eventsAlone t)) = some (.error e, s') := by
  obtain ⟨⟨schema, p⟩, hprop⟩ := declares_iff.mp hdeclares
  rw [compileEach_cons_ok hprop hs, settles_iff]
  cases hout : c.output t.node t.key {} with
  | none => simp
  | some r =>
    obtain ⟨result, s₁⟩ := r
    have houtcome := output_outcome hout
    rw [hprop] at houtcome
    obtain ⟨v, rfl⟩ := houtcome
    rw [eventsAlone_eq hout, Option.bind_some, Option.isSome_some]
    cases c.compileEach rest (s.raise s₁.events) with
    | none => simp
    | some q =>
      obtain ⟨tail, s₂⟩ := q
      cases tail <;> simp [Except.map]

theorem compileEach_eq_error_iff {targets : List Socket} {s : Session} (hs : s.inProgress = []) :
    (∃ e s', c.compileEach targets s = some (.error e, s')) ↔ c.Refuses targets := by
  induction targets generalizing s with
  | nil =>
    constructor
    · rintro ⟨e, s', h⟩
      cases h
    · rintro ⟨before, t, after, hsplit, -, -⟩
      simp at hsplit
  | cons u rest ih =>
    by_cases hdeclares : c.Declares u
    · have hraised : (s.raise (c.eventsAlone u)).inProgress = [] := hs
      rw [compileEach_cons_eq_error_iff hs hdeclares, ih hraised]
      constructor
      · rintro ⟨hsettles, before, t, after, rfl, hbefore, ht⟩
        exact ⟨u :: before, t, after, rfl, List.forall_mem_cons.mpr ⟨⟨hdeclares, hsettles⟩, hbefore⟩, ht⟩
      · rintro ⟨before, t, after, hsplit, hbefore, ht⟩
        cases before with
        | nil =>
          cases hsplit
          exact absurd hdeclares ht
        | cons v before =>
          cases hsplit
          obtain ⟨hfirst, hbefore⟩ := List.forall_mem_cons.mp hbefore
          exact ⟨hfirst.2, before, t, after, rfl, hbefore, ht⟩
    · cases hprop : c.property u.node u.key with
      | ok found => exact absurd (declares_iff.mpr ⟨found, hprop⟩) hdeclares
      | error e =>
        refine iff_of_true ⟨e, s, compileEach_cons_error hprop⟩ ⟨[], u, rest, rfl, ?_, hdeclares⟩
        intro v hv
        cases hv

theorem exists_isEntry_iff {t : Socket} : (∃ o, c.IsEntry t o) ↔ c.Declares t ∧ c.Settles t := by
  rw [declares_iff, settles_iff]
  constructor
  · rintro ⟨o, hentry⟩
    obtain ⟨⟨schema, p⟩, hprop⟩ := property_of_isEntry hentry
    obtain ⟨v, s, hout, -⟩ := (isEntry_iff hprop).mp hentry
    exact ⟨⟨_, hprop⟩, by rw [hout]; rfl⟩
  · rintro ⟨⟨⟨schema, p⟩, hprop⟩, hends⟩
    obtain ⟨⟨result, s⟩, hout⟩ := Option.isSome_iff_exists.mp hends
    have houtcome := output_outcome hout
    rw [hprop] at houtcome
    obtain ⟨v, rfl⟩ := houtcome
    exact ⟨_, (isEntry_iff hprop).mpr ⟨v, s, hout, rfl⟩⟩

theorem exists_forall₂_iff {α β : Type} {related : α → β → Prop} {as : List α} :
    (∃ bs, List.Forall₂ related as bs) ↔ ∀ a ∈ as, ∃ b, related a b := by
  induction as with
  | nil => exact ⟨fun _ a ha => absurd ha List.not_mem_nil, fun _ => ⟨[], .nil⟩⟩
  | cons a rest ih =>
    rw [List.forall_mem_cons, ← ih]
    constructor
    · rintro ⟨bs, hbs⟩
      obtain ⟨b, bs, hb, hrest, -⟩ := List.forall₂_cons_left_iff.mp hbs
      exact ⟨⟨b, hb⟩, ⟨bs, hrest⟩⟩
    · rintro ⟨⟨b, hb⟩, ⟨bs, hrest⟩⟩
      exact ⟨b :: bs, .cons hb hrest⟩

theorem exists_entries_iff {targets : List Socket} :
    (∃ outputs, List.Forall₂ c.IsEntry targets outputs) ↔ ∀ t ∈ targets, c.Declares t ∧ c.Settles t := by
  simp only [exists_forall₂_iff, exists_isEntry_iff]

/-- A report on a list of targets holds their entries and their events, and the compiler is left without
either marks or collected events. -/
theorem compileOutputs_eq_ok_iff {targets : List Socket} {r : Report} {s : Session} :
    c.compileOutputs targets {} = some (.ok r, s) ↔
      List.Forall₂ c.IsEntry targets r.outputs ∧ r.events = targets.flatMap c.eventsAlone ∧
        s = { heard := r.events, handed := [r.events] } := by
  rw [compileOutputs_eq_bind, Eval.bind_apply, Option.bind_eq_some_iff]
  constructor
  · rintro ⟨⟨result, s'⟩, heach, h⟩
    cases result with
    | error e => cases h
    | ok outputs =>
      obtain ⟨hentries, rfl⟩ := (compileEach_eq_ok_iff rfl).mp heach
      cases h
      exact ⟨hentries, List.nil_append _, rfl⟩
  · rintro ⟨hentries, hevents, rfl⟩
    refine ⟨_, (compileEach_eq_ok_iff rfl).mpr ⟨hentries, rfl⟩, ?_⟩
    obtain ⟨outputs, events⟩ := r
    cases hevents
    rfl

theorem compileOutputs_eq_error_iff {targets : List Socket} :
    (∃ e s, c.compileOutputs targets {} = some (.error e, s)) ↔ c.Refuses targets := by
  rw [← compileEach_eq_error_iff (s := {}) rfl, compileOutputs_eq_bind, Eval.bind_apply]
  cases c.compileEach targets {} with
  | none => simp
  | some q =>
    obtain ⟨result, s⟩ := q
    cases result with
    | error e => simp
    | ok outputs =>
      constructor
      · rintro ⟨e, s', h⟩
        cases h
      · rintro ⟨e, s', h⟩
        cases h

/-! ### The whole program -/

theorem unknownBlock_iff {id : String} (hid : id ∈ c.graph.nodeIds) :
    c.UnknownBlock id ↔ ∃ e, c.schema id = .error e := by
  obtain ⟨n, hn, rfl⟩ := List.mem_map.mp hid
  obtain ⟨found, hfound⟩ : ∃ found, c.graph.node? n.id = some found :=
    Option.isSome_iff_exists.mp (List.find?_isSome.mpr ⟨n, hn, by simp⟩)
  rw [UnknownBlock, Compiler.schema, Graph.blockName?, hfound]
  cases hget : c.catalog.get? found.block <;> simp [Catalog.get, hget]

theorem mapM_globalOutputs {ids : List String} (h : ∀ id ∈ ids, ¬ ∃ e, c.schema id = .error e) :
    ids.mapM c.globalOutputs = .ok (ids.map c.targetsOf) := by
  induction ids with
  | nil => rfl
  | cons id rest ih =>
    rw [List.forall_mem_cons] at h
    cases hschema : c.schema id with
    | error e => exact absurd ⟨e, hschema⟩ h.1
    | ok schema =>
      rw [List.mapM_cons, ih h.2]
      simp [globalOutputs, targetsOf, hschema, bind, Except.bind, pure, Except.pure]

theorem mapM_globalOutputs_error {ids : List String} {id : String} {e : Error} (hid : id ∈ ids)
    (h : c.schema id = .error e) : ∃ e', ids.mapM c.globalOutputs = .error e' := by
  induction ids with
  | nil => exact absurd hid List.not_mem_nil
  | cons first rest ih =>
    rw [List.mapM_cons]
    cases hfirst : c.globalOutputs first with
    | error e' => exact ⟨e', rfl⟩
    | ok targets =>
      rcases List.mem_cons.mp hid with rfl | hid
      · simp [globalOutputs, h, bind, Except.bind] at hfirst
      · obtain ⟨e', he'⟩ := ih hid
        exact ⟨e', by rw [he']; rfl⟩

theorem programTargets_eq_ok (h : ∀ id ∈ c.graph.nodeIds, ¬ c.UnknownBlock id) :
    c.programTargets = .ok c.globalTargets := by
  have hok := mapM_globalOutputs fun id hid => (unknownBlock_iff hid).not.mp (h id hid)
  rw [programTargets, hok, globalTargets, List.flatMap_def]
  rfl

theorem programTargets_eq_error {id : String} (hid : id ∈ c.graph.nodeIds) (h : c.UnknownBlock id) :
    ∃ e, c.programTargets = .error e := by
  obtain ⟨e, he⟩ := (unknownBlock_iff hid).mp h
  obtain ⟨e', he'⟩ := mapM_globalOutputs_error hid he
  exact ⟨e', by rw [programTargets, he']; rfl⟩

theorem declares_of_mem_globalTargets {t : Socket} (ht : t ∈ c.globalTargets) : c.Declares t := by
  obtain ⟨id, -, ht⟩ := List.mem_flatMap.mp ht
  rw [targetsOf] at ht
  cases hschema : c.schema id with
  | error e => simp [hschema] at ht
  | ok schema =>
    simp only [hschema] at ht
    split at ht
    · obtain ⟨p, hp, rfl⟩ := List.mem_map.mp ht
      obtain ⟨found, hfound⟩ : ∃ found, schema.prop? p.key = some found :=
        Option.isSome_iff_exists.mp (List.find?_isSome.mpr ⟨p, List.mem_of_mem_filter hp, by simp⟩)
      exact declares_iff.mpr ⟨(schema, found), property_eq_ok_iff.mpr ⟨hschema, hfound⟩⟩
    · exact absurd ht List.not_mem_nil

theorem compileProgram_eq (h : ∀ id ∈ c.graph.nodeIds, ¬ c.UnknownBlock id) :
    c.compileProgram = c.compileOutputs c.globalTargets := by
  rw [compileProgram_eq_bind, programTargets_eq_ok h]

theorem compileProgram_eq_error_iff :
    (∃ e s, c.compileProgram {} = some (.error e, s)) ↔ ∃ id ∈ c.graph.nodeIds, c.UnknownBlock id := by
  constructor
  · rintro ⟨e, s, h⟩
    by_contra hknown
    rw [compileProgram_eq fun id hid hunknown => hknown ⟨id, hid, hunknown⟩] at h
    -- all outputs of known blocks are declared, so compiling them is not refused
    obtain ⟨before, t, after, hsplit, -, ht⟩ := compileOutputs_eq_error_iff.mp ⟨e, s, h⟩
    exact ht (declares_of_mem_globalTargets (by simp [hsplit]))
  · rintro ⟨id, hid, hunknown⟩
    obtain ⟨e, he⟩ := programTargets_eq_error hid hunknown
    exact ⟨e, {}, by rw [compileProgram_eq_bind, he]; rfl⟩

/-- **Targets are compiled apart from one another.** On a fresh compiler, compiling a list of targets succeeds
exactly when each of them is declared and settles, and it is refused at the first target that is not declared. A
target settles unless the inference of some type that it comes to is nested in itself; all of them do if programs ask
for no types, and one that does not has no value under any bound. The report has one entry for each target, in order,
with the value that the target has alone, and its events are those that the targets raise alone, one after the other.
A whole program is refused exactly when the block of a listed node is unknown; otherwise compiling it is compiling the
outputs of its global nodes. -/
theorem compilation_isolated (c : Compiler) :
    (∀ targets,
      ((∃ r s, c.compileOutputs targets {} = some (.ok r, s)) ↔
        ∀ t ∈ targets, c.Declares t ∧ c.Settles t) ∧
      ((∃ e s, c.compileOutputs targets {} = some (.error e, s)) ↔ c.Refuses targets) ∧
      ∀ r s, c.compileOutputs targets {} = some (.ok r, s) →
        List.Forall₂ c.IsEntry targets r.outputs ∧ r.events = targets.flatMap c.eventsAlone) ∧
    (c.InferFree → ∀ t, c.Settles t) ∧
    (∀ t, ¬ c.Settles t → ∀ n, outputAt n c t {} = none) ∧
    ((∃ e s, c.compileProgram {} = some (.error e, s)) ↔ ∃ id ∈ c.graph.nodeIds, c.UnknownBlock id) ∧
    ((∀ id ∈ c.graph.nodeIds, ¬ c.UnknownBlock id) →
      c.compileProgram = c.compileOutputs c.globalTargets) := by
  refine ⟨fun targets => ⟨?_, compileOutputs_eq_error_iff, ?_⟩, ?_, fun t ht n => outputAt_eq_none ht n,
    compileProgram_eq_error_iff, compileProgram_eq⟩
  · rw [← exists_entries_iff]
    constructor
    · rintro ⟨r, s, h⟩
      exact ⟨r.outputs, (compileOutputs_eq_ok_iff.mp h).1⟩
    · rintro ⟨outputs, hentries⟩
      exact ⟨⟨outputs, targets.flatMap c.eventsAlone⟩, _, compileOutputs_eq_ok_iff.mpr ⟨hentries, rfl, rfl⟩⟩
  · intro r s h
    obtain ⟨hentries, hevents, -⟩ := compileOutputs_eq_ok_iff.mp h
    exact ⟨hentries, hevents⟩
  · intro hc t
    exact settles_iff.mpr (output_isSome hc t {})

/-- The output of a node that follows itself is declared, and its type is inferred in order to infer it. Compiling it
gives neither a report nor an error. -/
theorem narcissus_has_no_report :
    narcissus.Declares ⟨"n", "out"⟩ ∧ ¬ narcissus.Settles ⟨"n", "out"⟩ ∧
      (∀ n, outputAt n narcissus ⟨"n", "out"⟩ {} = none) ∧
      narcissus.compileOutputs [⟨"n", "out"⟩] {} = none := by
  have hnone : narcissus.output "n" "out" {} = none := rfl
  have hloops : ¬ narcissus.Settles ⟨"n", "out"⟩ := by
    rw [settles_iff, hnone]
    simp
  exact ⟨declares_iff.mpr ⟨_, rfl⟩, hloops, outputAt_eq_none hloops, rfl⟩

end BlockGraph.Compiler
