import BlockGraph.Proofs.Standard.Blocks

/-!
# Absent outputs

An output may be absent because it is part of a cycle, because its program fails, or because its program ends with
nothing. The first two are reported on the output. A program that `Accounts` for its absences ends with nothing only
after it found a required argument absent, which is reported too, when the argument is read
(`explains_of_traceAt`).

All outputs of the standard blocks have such programs (`Standard.accounts_of_mem`), over whatever registry the
catalog was made, so each of their absences has its reason among the events (`absent_output_reported`).
-/

namespace BlockGraph

/-- The absence of the argument is reported when it is read. -/
def Schema.Requires (s : Schema) (key : String) : Prop :=
  ∃ p, s.prop? key = some p ∧ p.isOutput = false ∧ p.optional = false

namespace Program

/-- The program ends with nothing only after it found an argument of some kind absent. -/
def Accounts (required : String → Prop) : Program → Prop
  | .done r => r ≠ .ok none
  | .ask q next => ∀ answer,
      (answer = .ok none ∧ ∃ key, q = .argument key ∧ required key) ∨ (next answer).Accounts required

variable {required : String → Prop} {read : String → Traced (Outcome (Option Value))} {key : String}

theorem accounts_get {k : Option Value → Program} (hk : ∀ v, (k v).Accounts required) :
    (Program.get key k).Accounts required := by
  intro answer
  cases answer with
  | error e => exact .inr fun h => by cases h
  | ok v => exact .inr (hk v)

theorem accounts_get_required {k : Option Value → Program} (hkey : required key)
    (hk : ∀ v, (k (some v)).Accounts required) : (Program.get key k).Accounts required := by
  intro answer
  cases answer with
  | error e => exact .inr fun h => by cases h
  | ok v =>
    cases v with
    | some v => exact .inr (hk v)
    | none => exact .inl ⟨rfl, key, rfl, hkey⟩

theorem accounts_text (s : String) : (Program.text s).Accounts required := fun h => by cases h

theorem Accounts.exists_reading {p : Program} {ns : List Notice} (hp : p.Accounts required)
    (h : p.readings read = some (.ok none, ns)) :
    ∃ key ms, required key ∧ read key = some (.ok none, ms) ∧ ms ⊆ ns := by
  induction p generalizing ns with
  | done r =>
    cases h
    exact absurd rfl hp
  | ask q next ih =>
    cases q with
    | argument key =>
      obtain ⟨answer, ns₁, ns₂, hread, hnext, rfl⟩ := Traced.andThen_eq_some.mp h
      rcases hp answer with ⟨rfl, own, hown, hrequired⟩ | hrest
      · cases hown
        exact ⟨key, ns₁, hrequired, hread, List.subset_append_left _ _⟩
      · obtain ⟨own, ms, hrequired, hown, hms⟩ := ih answer hrest hnext
        exact ⟨own, ms, hrequired, hown, List.Subset.trans hms (List.subset_append_right _ _)⟩
    | _ => cases h

end Program

namespace Compiler

variable {c : Compiler} {x : Socket} {schema : Schema} {p : Property} {ns : List Notice}

/-- Among the events is a warning on the output, or a missing input of its node. -/
def Explains (schema : Schema) (x : Socket) (es : List Event) : Prop :=
  (∃ message, .warning x.node schema.name x.key message ∈ es) ∨
    ∃ own p, schema.prop? own = some p ∧ .missingInput x.node schema.name own ∈ es

theorem missing_mem_readTrace {outputs : Socket → Traced (Outcome (Option Value))} {node key : String}
    (hkey : schema.Requires key) (h : c.readTrace outputs node schema key = some (.ok none, ns)) :
    .reported (.missingInput node schema.name key) ∈ ns := by
  obtain ⟨p, hprop, hargument, hrequired⟩ := hkey
  rw [c.readTrace_eq hprop hargument] at h
  obtain ⟨r, ns₁, ns₂, -, hmissing, rfl⟩ := Traced.andThen_eq_some.mp h
  cases hmissing
  have hpkey := Schema.key_of_prop? hprop
  simp [missing, hrequired, hpkey]

/-- An output is absent for a reason that is reported, if its program accounts for its absences. -/
theorem explains_of_traceAt {n : Nat} {marks : List Socket} (hpost : c.postCompile = none)
    (hprop : c.property x.node x.key = .ok (schema, p)) (honce : (c.program x.node schema p).ReadsOnce [])
    (haccounts : (c.program x.node schema p).Accounts schema.Requires)
    (h : traceAt n c marks x = some (.ok none, ns)) : Explains schema x (ns.map Notice.event) := by
  cases n with
  | zero => cases h
  | succ n =>
    rw [traceAt, hprop] at h
    dsimp only at h
    by_cases hmark : x ∈ marks
    · rw [if_pos hmark] at h
      cases h
      exact .inl ⟨_, List.mem_singleton_self _⟩
    · rw [if_neg hmark, c.trace_outputSteps honce] at h
      obtain ⟨⟨v, ms⟩, htrace, hv⟩ := Option.map_eq_some_iff.mp h
      cases hv
      obtain ⟨result, ns₁, ns₂, hprogram, hend, rfl⟩ := Traced.andThen_eq_some.mp htrace
      rw [List.map_append]
      cases result with
      | error f =>
        cases hend
        exact .inl ⟨f.message, List.mem_append_right _ (List.mem_singleton_self _)⟩
      | ok v =>
        obtain ⟨hv, -⟩ := Prod.mk.inj (Option.some.inj hend)
        obtain rfl : v = none := by rwa [postProcess, hpost] at hv
        obtain ⟨own, ms, hown, hread, hsub⟩ := haccounts.exists_reading hprogram
        have hmem := hsub (missing_mem_readTrace hown hread)
        obtain ⟨q, hq, -⟩ := hown
        exact .inr ⟨own, q, hq, List.mem_append_left _ (List.mem_map_of_mem hmem)⟩

end Compiler

namespace Standard

/-- Every output of the block has a program for Motoko, which reads each argument once and accounts for its
absences. -/
def Accounts (s : Schema) : Prop :=
  ∀ p ∈ s.props, p.isOutput = true → ∃ callback, p.callback? motokoKey = some callback ∧
    ∀ site, (callback site).ReadsOnce [] ∧ (callback site).Accounts s.Requires

variable {name category op : String} {t identifier text effect member actor : Ty} {s : Schema}

theorem accounts_literalBlock {write : LiteralText} (h : (literalBlock name t write).normalize = .ok s) :
    Accounts s := by
  obtain rfl : literalSchema name t write = s := Except.ok.inj h
  intro p hp hout
  have honce := readsOnce_literalSchema name t write p hp
  obtain rfl | rfl := by simpa [literalSchema] using hp
  · cases hout
  · refine ⟨_, rfl, fun site => ⟨honce _ rfl site, Program.accounts_get_required ⟨_, rfl, rfl, rfl⟩ fun v => ?_⟩⟩
    dsimp only
    split
    · exact Program.accounts_text _
    · exact fun h => by cases h

theorem accounts_splitSchema {isGlobal : Bool} {output : PropDecl} {inputs : List PropDecl} {callback : Callback}
    (houtput : output.callbacks.get? motokoKey = some callback) (honce : ∀ site, (callback site).ReadsOnce [])
    (haccounts : ∀ site, (callback site).Accounts (splitSchema name category isGlobal output inputs).Requires) :
    Accounts (splitSchema name category isGlobal output inputs) := by
  intro p hp hout
  rcases List.mem_cons.mp hp with rfl | hinput
  · exact ⟨callback, houtput, fun site => ⟨honce site, haccounts site⟩⟩
  · obtain ⟨d, -, rfl⟩ := List.mem_map.mp hinput
    cases hout

theorem accounts_binaryBlock (h : (binaryBlock name category t op).normalize = .ok s) : Accounts s := by
  obtain rfl : binarySchema name category op t = s := Except.ok.inj h
  refine accounts_splitSchema rfl (fun site => ?_) fun site => ?_
  · exact readsOnce_binarySchema name category op t _ List.mem_cons_self _ rfl site
  · exact Program.accounts_get fun a => Program.accounts_get fun b => Program.accounts_text _

theorem accounts_unaryBlock (h : (unaryBlock name category t op).normalize = .ok s) : Accounts s := by
  obtain rfl : unarySchema name category op t = s := Except.ok.inj h
  refine accounts_splitSchema rfl (fun site => ?_) fun site => ?_
  · exact readsOnce_unarySchema name category op t _ List.mem_cons_self _ rfl site
  · exact Program.accounts_get fun v => Program.accounts_text _

theorem accounts_actorBlock (h : (actorBlock identifier member actor).normalize = .ok s) : Accounts s := by
  obtain rfl : splitSchema "Actor" "actors" true
      { key := "actor", type := actor, callbacks := .ofList [(motokoKey, actorCallback)] }
      [{ key := "name", type := identifier, optional := true }, { key := "members", type := member, multi := true }] =
        s := Except.ok.inj h
  refine accounts_splitSchema rfl (fun site => ?_) fun site => ?_
  · exact Program.readsOnce_get (by simp) fun name => Program.readsOnce_get (by decide) fun members => trivial
  · exact Program.accounts_get fun name => Program.accounts_get fun members => Program.accounts_text _

theorem accounts_funcBlock (h : (funcBlock identifier effect member).normalize = .ok s) : Accounts s := by
  obtain rfl : splitSchema "Func" "members" false
      { key := "member", type := member, callbacks := .ofList [(motokoKey, funcCallback)] }
      [{ key := "name", type := identifier }, { key := "body", type := effect, multi := true }] = s := Except.ok.inj h
  refine accounts_splitSchema rfl (fun site => ?_) fun site => ?_
  · refine Program.readsOnce_get (by simp) fun name => ?_
    cases name with
    | none => trivial
    | some name => exact Program.readsOnce_get (by decide) fun body => trivial
  · -- without a name the program fails, so that its absence is reported in two ways
    refine Program.accounts_get_required ⟨_, rfl, rfl, rfl⟩ fun name => ?_
    exact Program.accounts_get fun body => Program.accounts_text _

theorem accounts_printBlock (h : (printBlock text effect).normalize = .ok s) : Accounts s := by
  obtain rfl : splitSchema "Print" "statements" false
      { key := "statement", type := effect, callbacks := .ofList [(motokoKey, printCallback)] }
      [{ key := "message", type := text }] = s := Except.ok.inj h
  refine accounts_splitSchema rfl (fun site => ?_) fun site => ?_
  · exact Program.readsOnce_get (by simp) fun message => trivial
  · exact Program.accounts_get fun message => Program.accounts_text _

theorem accounts_of_mem_decls {types : Registry} {ds : List BlockDecl} (h : decls types = .ok ds) :
    ∀ b ∈ ds, ∀ s, b.normalize = .ok s → Accounts s := by
  simp only [decls, literalBlocks, logicBlocks, mathBlocks, actorBlocks, bind_eq_ok_iff] at h
  obtain ⟨literals, ⟨_, -, _, -, _, -, _, -, _, -, _, -, hliterals⟩, logic, ⟨_, -, hlogic⟩,
    math, ⟨_, -, _, -, hmath⟩, actors, ⟨_, -, _, -, _, -, _, -, _, -, _, -, _, -, hactors⟩, h⟩ := h
  cases hliterals
  cases hlogic
  cases hmath
  cases hactors
  cases h
  simp only [List.forall_mem_append, List.forall_mem_cons, List.not_mem_nil, false_implies, implies_true, and_true]
  exact ⟨⟨⟨⟨fun _ => accounts_literalBlock, fun _ => accounts_literalBlock, fun _ => accounts_literalBlock,
    fun _ => accounts_literalBlock, fun _ => accounts_literalBlock, fun _ => accounts_literalBlock⟩,
    fun _ => accounts_binaryBlock, fun _ => accounts_binaryBlock, fun _ => accounts_unaryBlock⟩,
    fun _ => accounts_binaryBlock, fun _ => accounts_binaryBlock, fun _ => accounts_binaryBlock,
    fun _ => accounts_binaryBlock⟩,
    fun _ => accounts_actorBlock, fun _ => accounts_funcBlock, fun _ => accounts_printBlock⟩

/-- **All standard blocks account for their absences**, whatever types the registry has for them. -/
theorem accounts_of_mem {types : Registry} {blocks : Catalog} (h : catalog types = .ok blocks) :
    ∀ s ∈ blocks.blocks, Accounts s := by
  obtain ⟨ds, hds, hinsert⟩ := bind_eq_ok_iff.mp h
  exact Catalog.forall_mem_insertAll hinsert (by simp [Catalog.empty]) (accounts_of_mem_decls hds)

end Standard

namespace Compiler

variable {types : Registry} {node key : String} {schema : Schema} {p : Property}

/-- **An absent output of a standard block says why.** Whatever else is being computed, and however deep the output is
nested in other outputs, the events that are added while it is computed name its node: a warning on the output, or a
missing input of the node. -/
theorem absent_output_reported (c : Compiler) (hcatalog : Standard.catalog types = .ok c.catalog)
    (hkey : c.compileKey = motokoKey) (hdefault : c.defaultCompile = none) (hpost : c.postCompile = none)
    (hprop : c.property node key = .ok (schema, p)) (hout : p.isOutput = true) (n : Nat) (s s' : Session)
    (h : outputAt n c ⟨node, key⟩ s = some (.ok none, s')) :
    ∃ es, s'.events = s.events ++ es ∧ s'.heard = s.heard ++ es ∧ Explains schema ⟨node, key⟩ es := by
  obtain ⟨es, hobserve, rfl⟩ := (c.framed_outputAt n ⟨node, key⟩).apply_eq_some h
  refine ⟨es, rfl, rfl, ?_⟩
  rw [observe_outputAt] at hobserve
  obtain ⟨⟨r, ns⟩, htrace, hr⟩ := Option.map_eq_some_iff.mp hobserve
  cases hr
  have hschema := mem_blocks_of_schema (property_eq_ok_iff.mp hprop).1
  obtain ⟨callback, hcallback, hprogram⟩ :=
    Standard.accounts_of_mem hcatalog schema hschema p (mem_props_of_property hprop) hout
  have hprogram_eq : c.program node schema p = callback (c.site node schema) := by
    simp only [program, hdefault, hkey, hcallback]
  refine explains_of_traceAt hpost hprop ?_ ?_ htrace
  · rw [hprogram_eq]
    exact (hprogram _).1
  · rw [hprogram_eq]
    exact (hprogram _).2

/-- A sum of a literal that has no value. -/
def blank : Compiler where
  graph := ⟨[.new "sum" "Add", .new "blank" "LiteralInt"], [⟨"blank", "result", "sum", "a"⟩], {}⟩
  catalog := Standard.builtinCatalog
  registry := .empty
  compileKey := motokoKey

/-- While the sum is being computed, its operand is absent, and an event says so of the literal. -/
theorem absent_output_reported_blank :
    ∃ types schema p s, Standard.catalog types = .ok blank.catalog ∧
      blank.property "blank" "result" = .ok (schema, p) ∧ p.isOutput = true ∧
      blank.output "blank" "result" { inProgress := [⟨"sum", "result"⟩] } = some (.ok none, s) ∧
      s.events = [.missingInput "blank" "LiteralInt" "value"] ∧ Explains schema ⟨"blank", "result"⟩ s.events := by
  obtain ⟨types, -, hcatalog⟩ := Standard.catalog_builtin
  obtain ⟨⟨schema, p⟩, hprop⟩ : ∃ found, blank.property "blank" "result" = .ok found := ⟨_, rfl⟩
  have hout : p.isOutput = true := by
    have h : (blank.property "blank" "result").map (·.2.isOutput) = .ok true := rfl
    rw [hprop] at h
    exact Except.ok.inj h
  have houtput : outputAt blank.depth blank ⟨"blank", "result"⟩ { inProgress := [⟨"sum", "result"⟩] } =
      some (.ok none, Session.raise { inProgress := [⟨"sum", "result"⟩] }
        [.missingInput "blank" "LiteralInt" "value"]) := rfl
  obtain ⟨es, hes, -, hexplains⟩ :=
    absent_output_reported blank hcatalog rfl rfl rfl hprop hout blank.depth _ _ houtput
  exact ⟨types, schema, p, _, hcatalog, hprop, hout, houtput, rfl, hes ▸ hexplains⟩

end Compiler

end BlockGraph
