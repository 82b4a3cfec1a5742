import BlockGraph.Proofs.Block.Catalog
import BlockGraph.Proofs.Evaluation.Locality
import BlockGraph.Proofs.Evaluation.Nested
import BlockGraph.Proofs.Evaluation.Reading
import BlockGraph.Proofs.Type.Lattice
import BlockGraph.Standard.Catalog

/-!
# The standard catalog

A registry that extends the built-in one resolves all types of the standard blocks, so the standard catalog over it
exists, and it is a list of schemas of two shapes over these types (`catalog_eq_ok`): literals, and blocks of one
output and some inputs. Which way connections are followed is part of the `Types`.

All programs of the catalog read each of their arguments at most once (`Types.readsOnce_of_mem`).
-/

namespace BlockGraph

namespace Registry

variable {r r' builtin : Registry} {name : String} {t : Ty}

/-- The registry has the built-in types and perhaps more. -/
def ExtendsBuiltin (r : Registry) : Prop :=
  ∃ builtin decls, Registry.builtin = .ok builtin ∧ builtin.registerAll decls = .ok r

theorem resolve_of_registerAll {decls : List TypeDecl} (h : r.registerAll decls = .ok r')
    (ht : r.resolve name = .ok t) : r'.resolve name = .ok t := by
  induction decls generalizing r with
  | nil =>
    cases h
    exact ht
  | cons decl decls ih =>
    rw [registerAll, List.foldlM_cons, bind_eq_ok_iff] at h
    obtain ⟨next, hnext, hrest⟩ := h
    obtain ⟨⟨u, next'⟩, hregister, hnext⟩ := bind_eq_ok_iff.mp hnext
    cases hnext
    refine ih hrest (resolve_eq_ok_iff.mpr ?_)
    exact get?_of_register hregister name t (resolve_eq_ok_iff.mp ht)

/-- The names of the types that the standard blocks take from a registry as they are, and whether these are
reversed. -/
def standardNames : List (String × Bool) :=
  [("Bool", false), ("Int", false), ("Nat", false), ("Float", false), ("Text", false), ("Char", false),
    ("Identifier", false), ("Member", true), ("Actor", true)]

theorem all_builtin :
    (Registry.builtin.map fun b => standardNames.all fun entry => (b.get? entry.1).map Ty.isReversed == some entry.2) =
      .ok true := (rfl)

theorem ExtendsBuiltin.resolve (hr : r.ExtendsBuiltin) (name : String) (reversed : Bool)
    (h : (name, reversed) ∈ standardNames) : ∃ t, r.resolve name = .ok t ∧ t.isReversed = reversed := by
  obtain ⟨builtin, decls, hbuiltin, hall⟩ := hr
  have hnames := all_builtin
  rw [hbuiltin] at hnames
  have hname := List.all_eq_true.mp (Except.ok.inj hnames) _ h
  obtain ⟨t, ht, hreversed⟩ := Option.map_eq_some_iff.mp (beq_iff_eq.mp hname)
  exact ⟨t, resolve_of_registerAll hall (resolve_eq_ok_iff.mpr ht), hreversed⟩

theorem effect_builtin :
    (Registry.builtin.bind fun b => do
      let tuple ← b.resolve "Tuple"
      let unit ← tuple.of []
      let effect ← b.resolve "Effect"
      let statement ← effect.of [unit]
      return statement.isReversed) = .ok true := (rfl)

theorem ExtendsBuiltin.effect (hr : r.ExtendsBuiltin) : ∃ unit effect t, r.unitType = .ok unit ∧
    r.resolve "Effect" = .ok effect ∧ effect.of [unit] = .ok t ∧ t.isReversed = true := by
  obtain ⟨builtin, decls, hbuiltin, hall⟩ := hr
  obtain ⟨b, hb, h⟩ := bind_eq_ok_iff.mp effect_builtin
  obtain rfl : b = builtin := Except.ok.inj (hb.symm.trans hbuiltin)
  obtain ⟨tuple, htuple, h⟩ := bind_eq_ok_iff.mp h
  obtain ⟨unit, hunit, h⟩ := bind_eq_ok_iff.mp h
  obtain ⟨effect, heffect, h⟩ := bind_eq_ok_iff.mp h
  obtain ⟨t, ht, h⟩ := bind_eq_ok_iff.mp h
  refine ⟨unit, effect, t, ?_, resolve_of_registerAll hall heffect, ht, Except.ok.inj h⟩
  exact bind_eq_ok_iff.mpr ⟨tuple, resolve_of_registerAll hall htuple, hunit⟩

end Registry

namespace Standard

/-- The types of the standard blocks. Values flow forwards, what is collected is followed backwards. -/
structure Types where
  bool : Ty
  int : Ty
  nat : Ty
  float : Ty
  text : Ty
  char : Ty
  identifier : Ty
  effect : Ty
  member : Ty
  actor : Ty
  forward : ∀ t ∈ [bool, int, nat, float, text, char, identifier], t.isReversed = false
  backward : ∀ t ∈ [effect, member, actor], t.isReversed = true

def literalSchema (name : String) (t : Ty) (write : LiteralText) : Schema where
  name
  category := some "literals"
  isGlobal := false
  props :=
    [ { key := "value", type := t, direction := .control, multi := false, optional := false, callbacks := .empty },
      (resultDecl t (literalCallback write)).settle .output ]

def splitSchema (name category : String) (isGlobal : Bool) (output : PropDecl) (inputs : List PropDecl) : Schema where
  name
  category := some category
  isGlobal
  props := output.settle .output :: inputs.map (·.settle .input)

variable (name category op : String) (t : Ty)

def binarySchema : Schema :=
  splitSchema name category false (resultDecl t (binaryCallback op))
    [{ key := "a", type := t }, { key := "b", type := t }]

def unarySchema : Schema :=
  splitSchema name category false (resultDecl t (unaryCallback op)) [{ key := "value", type := t }]

namespace Types

variable (t : Types)

def actorSchema : Schema :=
  splitSchema "Actor" "actors" true
    { key := "actor", type := t.actor, callbacks := .ofList [(motokoKey, actorCallback)] }
    [{ key := "name", type := t.identifier, optional := true }, { key := "members", type := t.member, multi := true }]

def funcSchema : Schema :=
  splitSchema "Func" "members" false
    { key := "member", type := t.member, callbacks := .ofList [(motokoKey, funcCallback)] }
    [{ key := "name", type := t.identifier }, { key := "body", type := t.effect, multi := true }]

def printSchema : Schema :=
  splitSchema "Print" "statements" false
    { key := "statement", type := t.effect, callbacks := .ofList [(motokoKey, printCallback)] }
    [{ key := "message", type := t.text }]

def schemas : List Schema :=
  [ literalSchema "LiteralBool" t.bool plainLiteral, literalSchema "LiteralInt" t.int plainLiteral,
    literalSchema "LiteralNat" t.nat natLiteral, literalSchema "LiteralFloat" t.float floatLiteral,
    literalSchema "LiteralText" t.text textLiteral, literalSchema "LiteralChar" t.char charLiteral,
    binarySchema "And" "logic" "and" t.bool, binarySchema "Or" "logic" "or" t.bool,
    unarySchema "Not" "logic" "not" t.bool, binarySchema "Add" "math" "+" t.int,
    binarySchema "Subtract" "math" "-" t.int, binarySchema "Multiply" "math" "*" t.int,
    binarySchema "Concat" "text" "#" t.text, t.actorSchema, t.funcSchema, t.printSchema ]

theorem nodup_names : (t.schemas.map (·.name)).Nodup := by
  change ["LiteralBool", "LiteralInt", "LiteralNat", "LiteralFloat", "LiteralText", "LiteralChar", "And", "Or", "Not",
    "Add", "Subtract", "Multiply", "Concat", "Actor", "Func", "Print"].Nodup
  decide

theorem name_of_isGlobal : ∀ s ∈ t.schemas, s.isGlobal = true → s.name = "Actor" := by
  simp [schemas, literalSchema, binarySchema, unarySchema, actorSchema, funcSchema, printSchema, splitSchema]

end Types

theorem normalize_literalBlock (write : LiteralText) :
    (literalBlock name t write).normalize = .ok (literalSchema name t write) := rfl

theorem normalize_binaryBlock :
    (binaryBlock name category t op).normalize = .ok (binarySchema name category op t) := rfl

theorem normalize_unaryBlock :
    (unaryBlock name category t op).normalize = .ok (unarySchema name category op t) := rfl

theorem Types.normalize_actorBlock (t : Types) :
    (actorBlock t.identifier t.member t.actor).normalize = .ok t.actorSchema := rfl

theorem Types.normalize_funcBlock (t : Types) :
    (funcBlock t.identifier t.effect t.member).normalize = .ok t.funcSchema := rfl

theorem Types.normalize_printBlock (t : Types) : (printBlock t.text t.effect).normalize = .ok t.printSchema := rfl

/-- **The standard catalog over an extension of the built-in types exists, and it has the standard schemas.** -/
theorem catalog_eq_ok {r : Registry} (hr : r.ExtendsBuiltin) : ∃ t : Types, catalog r = .ok ⟨t.schemas⟩ := by
  obtain ⟨bool, hbool, hbool'⟩ := hr.resolve "Bool" false (by decide)
  obtain ⟨int, hint, hint'⟩ := hr.resolve "Int" false (by decide)
  obtain ⟨nat, hnat, hnat'⟩ := hr.resolve "Nat" false (by decide)
  obtain ⟨float, hfloat, hfloat'⟩ := hr.resolve "Float" false (by decide)
  obtain ⟨text, htext, htext'⟩ := hr.resolve "Text" false (by decide)
  obtain ⟨char, hchar, hchar'⟩ := hr.resolve "Char" false (by decide)
  obtain ⟨identifier, hidentifier, hidentifier'⟩ := hr.resolve "Identifier" false (by decide)
  obtain ⟨member, hmember, hmember'⟩ := hr.resolve "Member" true (by decide)
  obtain ⟨actor, hactor, hactor'⟩ := hr.resolve "Actor" true (by decide)
  obtain ⟨unit, base, effect, hunit, hbase, heffect, heffect'⟩ := hr.effect
  let t : Types :=
    { bool, int, nat, float, text, char, identifier, effect, member, actor
      forward := by simp [hbool', hint', hnat', hfloat', htext', hchar', hidentifier']
      backward := by simp [heffect', hmember', hactor'] }
  refine ⟨t, ?_⟩
  simp only [catalog, decls, literalBlocks, logicBlocks, mathBlocks, actorBlocks, hbool, hint, hnat, hfloat, htext,
    hchar, hidentifier, hmember, hactor, hunit, hbase, heffect, bind, Except.bind, pure, Except.pure]
  have hschemas : List.Forall₂ (fun b s => BlockDecl.normalize b = .ok s) _ t.schemas :=
    .cons (normalize_literalBlock ..) <| .cons (normalize_literalBlock ..) <| .cons (normalize_literalBlock ..) <|
    .cons (normalize_literalBlock ..) <| .cons (normalize_literalBlock ..) <| .cons (normalize_literalBlock ..) <|
    .cons (normalize_binaryBlock ..) <| .cons (normalize_binaryBlock ..) <| .cons (normalize_unaryBlock ..) <|
    .cons (normalize_binaryBlock ..) <| .cons (normalize_binaryBlock ..) <| .cons (normalize_binaryBlock ..) <|
    .cons (normalize_binaryBlock ..) <| .cons t.normalize_actorBlock <| .cons t.normalize_funcBlock <|
    .cons t.normalize_printBlock .nil
  exact Catalog.insertAll_eq_ok hschemas t.nodup_names

def builtinCatalog : Catalog := (Registry.builtin.bind catalog).toOption.getD .empty

theorem catalog_builtin : ∃ r, Registry.ExtendsBuiltin r ∧ catalog r = .ok builtinCatalog := by
  obtain ⟨r, hr, -⟩ := bind_eq_ok_iff.mp Registry.effect_builtin
  have hextends : r.ExtendsBuiltin := ⟨r, [], hr, rfl⟩
  obtain ⟨t, ht⟩ := catalog_eq_ok hextends
  refine ⟨r, hextends, ?_⟩
  rw [builtinCatalog, hr, Except.bind, ht]
  rfl

/-! ### Programs -/

/-- What the outputs of a block do reads each argument at most once. -/
def ReadsOnce (s : Schema) : Prop :=
  ∀ p ∈ s.props, ∀ callback, p.callback? motokoKey = some callback → ∀ site, (callback site).ReadsOnce []

theorem readsOnce_literalSchema (write : LiteralText) : ReadsOnce (literalSchema name t write) := by
  intro p hp callback hcallback site
  rcases List.mem_cons.mp hp with rfl | hp
  · cases hcallback
  · rw [List.mem_singleton.mp hp] at hcallback
    obtain rfl : literalCallback write = callback := Option.some.inj hcallback
    refine Program.readsOnce_get (by simp) fun v => ?_
    cases v with
    | none => trivial
    | some v =>
      dsimp only
      split <;> trivial

theorem readsOnce_splitSchema {isGlobal : Bool} {output : PropDecl} {inputs : List PropDecl} {callback : Callback}
    (houtput : output.callbacks.get? motokoKey = some callback) (hinputs : ∀ d ∈ inputs, d.callbacks = .empty)
    (hcallback : ∀ site, (callback site).ReadsOnce []) :
    ReadsOnce (splitSchema name category isGlobal output inputs) := by
  intro p hp found hfound site
  rcases List.mem_cons.mp hp with rfl | hp
  · obtain rfl : callback = found := Option.some.inj (houtput.symm.trans hfound)
    exact hcallback site
  · obtain ⟨d, hd, rfl⟩ := List.mem_map.mp hp
    rw [Property.callback?, PropDecl.settle, hinputs d hd] at hfound
    cases hfound

theorem readsOnce_binarySchema : ReadsOnce (binarySchema name category op t) := by
  refine readsOnce_splitSchema name category rfl (by simp) fun site => ?_
  exact Program.readsOnce_get (by simp) fun a => Program.readsOnce_get (by decide) fun b => trivial

theorem readsOnce_unarySchema : ReadsOnce (unarySchema name category op t) := by
  refine readsOnce_splitSchema name category rfl (by simp) fun site => ?_
  exact Program.readsOnce_get (by simp) fun v => trivial

namespace Types

variable (t : Types)

theorem readsOnce_actorSchema : ReadsOnce t.actorSchema := by
  refine readsOnce_splitSchema _ _ rfl (by simp) fun site => ?_
  exact Program.readsOnce_get (by simp) fun name => Program.readsOnce_get (by decide) fun members => trivial

theorem readsOnce_funcSchema : ReadsOnce t.funcSchema := by
  refine readsOnce_splitSchema _ _ rfl (by simp) fun site => ?_
  refine Program.readsOnce_get (by simp) fun name => ?_
  cases name with
  | none => trivial
  | some name => exact Program.readsOnce_get (by decide) fun body => trivial

theorem readsOnce_printSchema : ReadsOnce t.printSchema := by
  refine readsOnce_splitSchema _ _ rfl (by simp) fun site => ?_
  exact Program.readsOnce_get (by simp) fun message => trivial

theorem readsOnce_of_mem : ∀ s ∈ t.schemas, ReadsOnce s := by
  simp only [schemas, List.forall_mem_cons, List.not_mem_nil, false_implies, implies_true, and_true,
    readsOnce_literalSchema, readsOnce_binarySchema, readsOnce_unarySchema, readsOnce_actorSchema,
    readsOnce_funcSchema, readsOnce_printSchema]

end Types

end Standard

namespace Compiler

theorem schema_of_block {c : Compiler} {node block : String} {schema : Schema}
    (hblock : c.graph.blockName? node = some block) (hget : c.catalog.get? block = some schema) :
    c.schema node = .ok schema := by
  rw [Compiler.schema, hblock]
  dsimp only
  rw [Catalog.get, hget]

/-- The output that the result of a program gives. -/
def conclude (x : Socket) (schema : Schema) : Except Failure (Option Value) → Traced (Outcome (Option Value))
  | .ok v => some (.ok v, [])
  | .error f => some (.ok none, [.reported (.warning x.node schema.name x.key f.message)])

/-- The compiler writes Motoko from the standard blocks. -/
structure OverStandard (c : Compiler) : Prop where
  catalog : ∃ types, Registry.ExtendsBuiltin types ∧ Standard.catalog types = .ok c.catalog
  compileKey : c.compileKey = motokoKey
  defaultCompile : c.defaultCompile = none
  postCompile : c.postCompile = none

namespace OverStandard

variable {c : Compiler} (hc : c.OverStandard)

include hc

theorem onGraph (g : Graph) : (c.onGraph g).OverStandard :=
  ⟨hc.catalog, hc.compileKey, hc.defaultCompile, hc.postCompile⟩

theorem types : ∃ t : Standard.Types, c.catalog = ⟨t.schemas⟩ := by
  obtain ⟨r, hr, hcatalog⟩ := hc.catalog
  obtain ⟨t, ht⟩ := Standard.catalog_eq_ok hr
  exact ⟨t, Except.ok.inj (hcatalog.symm.trans ht)⟩

theorem postProcess (node key : String) (v : Option Value) : c.postProcess node key v = v := by
  rw [Compiler.postProcess, hc.postCompile]

theorem program_eq {node : String} {schema : Schema} {p : Property} {callback : Callback}
    (h : p.callback? motokoKey = some callback) : c.program node schema p = callback (c.site node schema) := by
  rw [program, hc.defaultCompile, hc.compileKey, h]

theorem program_of_quiet {node : String} {schema : Schema} {p : Property} (h : p.callback? motokoKey = none) :
    c.program node schema p = .absent := by
  rw [program, hc.defaultCompile, hc.compileKey, h]

theorem readsOnce (node : String) {schema : Schema} {p : Property} (hschema : schema ∈ c.catalog.blocks)
    (hp : p ∈ schema.props) : (c.program node schema p).ReadsOnce [] := by
  obtain ⟨t, ht⟩ := hc.types
  rw [ht] at hschema
  cases hcallback : p.callback? motokoKey with
  | some callback =>
    rw [hc.program_eq hcallback]
    exact t.readsOnce_of_mem schema hschema p hp callback hcallback _
  | none =>
    rw [hc.program_of_quiet hcallback]
    trivial

theorem catalogReadsOwnArguments : c.CatalogReadsOwnArguments := by
  intro schema hschema p hp node
  exact (hc.readsOnce node hschema hp).asksOnly

theorem readsOwnArguments : c.ReadsOwnArguments := hc.catalogReadsOwnArguments.onGraph c.graph

section

variable {x : Socket} {schema : Schema} {p : Property} {callback : Callback} (hschema : c.schema x.node = .ok schema)
  (hprop : schema.prop? x.key = some p) (hcallback : p.callback? motokoKey = some callback)

include hschema hprop hcallback

theorem trace_outputSteps {outputs : Socket → Traced (Outcome (Option Value))}
    {types : String → String → Traced (Outcome (Option Ty))} :
    (((c.outputSteps x schema p).trace outputs types).map fun r => (.ok r.1, r.2)) =
      ((callback (c.site x.node schema)).readings (c.readTrace outputs x.node schema)).andThen (conclude x schema) := by
  have honce := hc.readsOnce x.node (mem_blocks_of_schema hschema) (List.mem_of_find?_eq_some hprop)
  rw [c.trace_outputSteps honce, hc.program_eq hcallback]
  cases (callback (c.site x.node schema)).readings (c.readTrace outputs x.node schema) with
  | none => rfl
  | some r =>
    obtain ⟨result, ns⟩ := r
    cases result <;> simp [hc.postProcess, conclude]

theorem traceAt_eq (n : Nat) {marks : List Socket} (hmark : x ∉ marks) :
    traceAt (n + 1) c marks x =
      ((callback (c.site x.node schema)).readings
        (c.readTrace (traceAt n c (x :: marks)) x.node schema)).andThen (conclude x schema) := by
  rw [traceAt, property_eq_ok_iff.mpr ⟨hschema, hprop⟩]
  dsimp only
  rw [if_neg hmark]
  exact hc.trace_outputSteps hschema hprop hcallback

theorem alone_eq (hacyclic : c.AcyclicFrom x) :
    c.alone x =
      ((callback (c.site x.node schema)).readings (c.readTrace c.alone x.node schema)).andThen (conclude x schema) := by
  rw [Compiler.alone_eq hc.readsOwnArguments hacyclic (property_eq_ok_iff.mpr ⟨hschema, hprop⟩)]
  exact hc.trace_outputSteps hschema hprop hcallback

end

end OverStandard

end Compiler

end BlockGraph
