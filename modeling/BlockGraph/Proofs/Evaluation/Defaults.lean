import BlockGraph.Proofs.Block.Catalog
import BlockGraph.Proofs.Evaluation.Memory
import BlockGraph.Proofs.Type.RoundTrip

/-!
# A new node reads back its defaults

A new node stores the default values of its properties in the form of controls, and a compiler takes controls back to
values when it reads them. The two meet: where a value was stored, an equal one is read, and where none was, the
property is absent. How a default value is computed from the type that has it does not matter, as long as what it comes to
is built from the registry.

* `Schema.BuiltFrom.exists_read_back`: what is stored for a default value is read back;
* `Node.get?_ofSchema`: what a new node stores for a property;
* `Compiler.argumentsOf_of_done`: reading properties that take no step, one after the other;
* `Compiler.new_node_reads_defaults`: what is read from a new node, and what is reported missing.
-/

namespace BlockGraph

/-! ### Default values that can be stored -/

variable {providers : Providers}

/-- What the default values of a block come to is built from a registry, unless it is a list. -/
def Schema.BuiltFrom (s : Schema) (providers : Providers) (r : Registry) : Prop :=
  ∀ p ∈ s.props, ∀ v, p.type.defaultValue providers = some v → v.asList? = none → v.Storable r

/-- The default value of a type, unless it is a list. -/
def Ty.plainDefault (providers : Providers) (t : Ty) : Option Value :=
  (t.defaultValue providers).filter (·.asList?.isNone)

theorem Value.toControl?_eq_none_iff {v : Value} : v.toControl? = none ↔ v.asList?.isNone = false := by
  cases v <;> simp [Value.toControl?, Value.asList?]

theorem Value.Storable.exists_toValue {r : Registry} (hr : r.Reached) {v : Value} (hv : v.Storable r) :
    ∃ control w, v.toControl? = some control ∧ control.toValue r = .ok w ∧ (w == v) = true := by
  cases v with
  | bool x | text x | node x => exact ⟨_, _, rfl, rfl, beq_self_eq_true x⟩
  | number x => exact ⟨_, _, rfl, rfl, float_beq_self hv⟩
  | list items => exact hv.elim
  | type t =>
    obtain ⟨u, hread, hequal⟩ := (hv.formed hr).fromPortable_portable hr.sound
    refine ⟨.type t.portable, .type u, rfl, ?_, hequal⟩
    rw [Control.toValue, hread]
    rfl

namespace Schema.BuiltFrom

variable {s : Schema} {r : Registry} {p : Property}

theorem exists_read_back (hs : s.BuiltFrom providers r) (hr : r.Reached) (hp : p ∈ s.props) :
    ∃ v, ((p.type.defaultValue providers).bind Value.toControl?).mapM (Control.toValue r) = .ok v ∧
      Option.Rel (fun v w => (v == w) = true) v (p.type.plainDefault providers) := by
  cases hplain : p.type.plainDefault providers with
  | none =>
    have hstored : (p.type.defaultValue providers).bind Value.toControl? = none := by
      rw [Option.bind_eq_none_iff]
      intro v hv
      rw [Value.toControl?_eq_none_iff]
      exact Bool.eq_false_iff.mpr (Option.filter_eq_none_iff.mp hplain v hv)
    exact ⟨none, by rw [hstored]; rfl, .none⟩
  | some v =>
    obtain ⟨hdefault, hsingle⟩ := Option.filter_eq_some_iff.mp hplain
    have hstorable : v.Storable r := hs p hp v hdefault (Option.isNone_iff_eq_none.mp hsingle)
    obtain ⟨control, w, hcontrol, hread, hequal⟩ := hstorable.exists_toValue hr
    refine ⟨some w, ?_, .some hequal⟩
    rw [hdefault, Option.bind_some, hcontrol, Option.mapM_some, hread]
    rfl

end Schema.BuiltFrom

/-! ### What a new node stores -/

namespace Node

variable {n : Node} {p : Property} {key : String}

theorem wantsControl_iff : wantsControl p = true ↔
    p.isControl = true ∨ p.isInput = true ∧ p.multi = false ∧ p.type.isReversed = false := by
  simp [wantsControl, and_assoc]

/-- The control that a new node stores for a property. -/
def seed? (providers : Providers) (p : Property) : Option Control :=
  if wantsControl p then (p.type.defaultValue providers).bind Value.toControl? else none

def seeded (providers : Providers) (n : Node) (p : Property) : Node :=
  match seed? providers p with
  | some control => n.withControl p.key control
  | none => n

theorem ofSchema_eq_foldl (id : String) (s : Schema) :
    ofSchema providers id s = s.props.foldl (seeded providers) (new id s.name) := by
  unfold ofSchema
  congr 1
  funext n p
  unfold seeded seed?
  split <;> rfl

theorem seeded_eq (n : Node) (p : Property) : seeded providers n p = { n with controls := (seeded providers n p).controls } := by
  unfold seeded
  split <;> rfl

theorem foldl_seeded_eq (n : Node) (ps : List Property) :
    ps.foldl (seeded providers) n = { n with controls := (ps.foldl (seeded providers) n).controls } := by
  induction ps generalizing n with
  | nil => rfl
  | cons p ps ih => rw [List.foldl_cons, ih, seeded_eq n p]

theorem get?_seeded : (seeded providers n p).controls.get? key =
    if p.key = key then (seed? providers p).or (n.controls.get? key) else n.controls.get? key := by
  unfold seeded
  split
  · next control hseed => rw [withControl, KeyMap.get?_insert, hseed]; rfl
  · next hseed => rw [hseed, Option.none_or, ite_self]

theorem get?_foldl_seeded_of_notMem {ps : List Property} (hkey : key ∉ ps.map (·.key)) :
    (ps.foldl (seeded providers) n).controls.get? key = n.controls.get? key := by
  induction ps generalizing n with
  | nil => rfl
  | cons p ps ih =>
    rw [List.map_cons, List.mem_cons, not_or] at hkey
    rw [List.foldl_cons, ih hkey.2, get?_seeded, if_neg (Ne.symm hkey.1)]

theorem get?_foldl_seeded {ps : List Property} (hkeys : (ps.map (·.key)).Nodup) (hp : p ∈ ps) :
    (ps.foldl (seeded providers) n).controls.get? p.key = (seed? providers p).or (n.controls.get? p.key) := by
  induction ps generalizing n with
  | nil => cases hp
  | cons q ps ih =>
    obtain ⟨hq, hrest⟩ := List.nodup_cons.mp hkeys
    rw [List.foldl_cons]
    rcases List.mem_cons.mp hp with rfl | hp
    · rw [get?_foldl_seeded_of_notMem hq, get?_seeded, if_pos rfl]
    · have hne : p.key ≠ q.key := ne_of_mem_of_not_mem (List.mem_map_of_mem hp) hq
      rw [ih hrest hp, get?_seeded, if_neg (Ne.symm hne)]

theorem get?_ofSchema {s : Schema} (hkeys : (s.props.map (·.key)).Nodup) (hp : p ∈ s.props) (id : String) :
    (ofSchema providers id s).controls.get? p.key = seed? providers p := by
  rw [ofSchema_eq_foldl, get?_foldl_seeded hkeys hp]
  exact Option.or_none

@[simp] theorem id_ofSchema (id : String) (s : Schema) : (ofSchema providers id s).id = id := by
  rw [ofSchema_eq_foldl, foldl_seeded_eq]
  rfl

@[simp] theorem block_ofSchema (id : String) (s : Schema) : (ofSchema providers id s).block = s.name := by
  rw [ofSchema_eq_foldl, foldl_seeded_eq]
  rfl

end Node

namespace Compiler

variable {c : Compiler} {id : String} {s : Schema} {p : Property}

/-! ### Reading what takes no step -/

/-- Whether a property is read and found absent. -/
def findsAbsent (c : Compiler) (session : Session) (node key : String) : Bool :=
  match c.input node key session with
  | some (.ok none, _) => true
  | _ => false

theorem input_of_done {node key : String} {r : Outcome (Option Value)} (h : c.inputSteps node key = .done r)
    (session : Session) : c.input node key session = some (r, session) := by
  rw [input_eq_execute, h]
  rfl

theorem findsAbsent_of_done {node key : String} {v : Option Value} (h : c.inputSteps node key = .done (.ok v))
    (session : Session) : c.findsAbsent session node key = v.isNone := by
  rw [findsAbsent, input_of_done h]
  cases v <;> rfl

theorem argumentsOf_of_done (args : Arguments) {ps : List Property} (hkeys : (ps.map (·.key)).Nodup)
    (hprops : ∀ p ∈ ps, args.schema.prop? p.key = some p ∧ p.isOutput = false)
    (hheld : ∀ p ∈ ps, args.held? p.key = none)
    (hdone : ∀ p ∈ ps, ∃ v, c.inputSteps args.node p.key = .done (.ok v)) (session t : Session) :
    ∃ args', c.argumentsOf args (ps.map (·.key)) t =
      some ((.ok (), args'), t.raise
        ((ps.filter fun p => !p.optional && c.findsAbsent session args.node p.key).map fun p =>
          .missingInput args.node args.schema.name p.key)) := by
  induction ps generalizing args t with
  | nil => exact ⟨args, by simp only [List.filter_nil, List.map_nil, Session.raise_nil]; rfl⟩
  | cons p ps ih =>
    obtain ⟨hp, hrest⟩ := List.nodup_cons.mp hkeys
    rw [List.forall_mem_cons] at hprops hheld hdone
    obtain ⟨v, hv⟩ := hdone.1
    -- What is remembered of this property says nothing about the others.
    have hheld' : ∀ q ∈ ps, (args.remember p.key v).held? q.key = none := by
      intro q hq
      have hne : q.key ≠ p.key := ne_of_mem_of_not_mem (List.mem_map_of_mem hq) hp
      rw [Arguments.held?_remember, if_neg hne, hheld.2 q hq]
    obtain ⟨args', hargs'⟩ := ih (args.remember p.key v) hrest hprops.2 hheld'
      hdone.2 (t.raise (args.absence p p.key v))
    refine ⟨args', ?_⟩
    rw [List.map_cons, argumentsOf_cons, argument_computed hheld.1 hprops.1.1 hprops.1.2, Eval.bind_apply, Eval.bind_apply,
      input_of_done hv, Option.bind_some, Arguments.keep_ok_apply, Option.bind_some]
    refine hargs'.trans ?_
    rw [Session.raise_raise, List.filter_cons, findsAbsent_of_done hv, Arguments.absence, Bool.and_comm v.isNone]
    split <;> rfl

/-! ### The new node -/

/-- The graph of a compiler has a new node of a block of its catalog and nothing else, and no step follows the
computation of a value. -/
structure HoldsNew (c : Compiler) (providers : Providers) (id : String) (s : Schema) : Prop where
  nodes : c.graph.nodes = [Node.ofSchema providers id s]
  connections : c.graph.connections = []
  reached : c.catalog.Reached
  block : c.catalog.get? s.name = some s
  postCompile : c.postCompile = none

namespace HoldsNew

variable (h : c.HoldsNew providers id s)

include h

theorem nodup_keys : (s.props.map (·.key)).Nodup :=
  h.reached.nodup_keys s (List.mem_of_find?_eq_some h.block)

theorem node? : c.graph.node? id = some (Node.ofSchema providers id s) := by
  rw [Graph.node?, h.nodes, List.find?_cons_of_pos (by simp)]

theorem schema : c.schema id = .ok s :=
  schema_eq_ok_iff.mpr ⟨_, h.node?, by rw [Node.block_ofSchema, h.block]⟩

theorem property (hp : p ∈ s.props) : c.property id p.key = .ok (s, p) :=
  property_eq_ok_iff.mpr ⟨h.schema, Schema.prop?_of_mem h.nodup_keys hp⟩

theorem peers (side : Side) (key : String) : c.graph.peers id side key = [] := by
  rw [Graph.peers, h.connections, List.filterMap_nil]

theorem storedControl (hp : p ∈ s.props) :
    c.storedControl id p.key = (Node.seed? providers p).mapM (Control.toValue c.registry) := by
  rw [Compiler.storedControl, Graph.control?, h.node?, Option.bind_some, Node.get?_ofSchema h.nodup_keys hp]

theorem inputSteps_of_isInput (hp : p ∈ s.props) (hinput : p.isInput = true) :
    c.inputSteps id p.key = c.connectedSteps id p := by
  have hdir : p.direction = .input := by simpa [Property.isInput] using hinput
  rw [inputSteps, h.property hp]
  simp only [hdir]

theorem inputSteps_of_wantsControl (hp : p ∈ s.props) (hwants : Node.wantsControl p = true) :
    c.inputSteps id p.key =
      .done (((p.type.defaultValue providers).bind Value.toControl?).mapM (Control.toValue c.registry)) := by
  have hstored := h.storedControl hp
  rw [Node.seed?, if_pos hwants] at hstored
  rw [← hstored]
  rcases Node.wantsControl_iff.mp hwants with hcontrol | ⟨hinput, hsingle, hforward⟩
  · have hdir : p.direction = .control := by simpa [Property.isControl] using hcontrol
    have hpost : ∀ v, c.postProcess id p.key v = v := fun v => by rw [postProcess, h.postCompile]
    rw [inputSteps, h.property hp]
    simp only [hdir]
    cases c.storedControl id p.key with
    | error e => rfl
    | ok v => rw [Except.map, hpost]
  · rw [h.inputSteps_of_isInput hp hinput, connectedSteps, h.peers]
    simp [hsingle, hforward]

theorem inputSteps_of_reversed (hp : p ∈ s.props) (hinput : p.isInput = true) (hsingle : p.multi = false)
    (hreversed : p.type.isReversed = true) : c.inputSteps id p.key = .done (.ok none) := by
  rw [h.inputSteps_of_isInput hp hinput, connectedSteps, h.peers]
  simp [hsingle, hreversed]

theorem inputSteps_of_multi (hp : p ∈ s.props) (hinput : p.isInput = true) (hmulti : p.multi = true) :
    c.inputSteps id p.key = .done (.ok (some (.list []))) := by
  rw [h.inputSteps_of_isInput hp hinput, connectedSteps, h.peers, if_pos hmulti]
  rfl

theorem exists_inputSteps (hr : c.registry.Reached) (hs : s.BuiltFrom providers c.registry) (hp : p ∈ s.props)
    (hargument : p.isOutput = false) : ∃ v, c.inputSteps id p.key = .done (.ok v) := by
  have hstored (hwants : Node.wantsControl p = true) : ∃ v, c.inputSteps id p.key = .done (.ok v) := by
    obtain ⟨v, hread, -⟩ := hs.exists_read_back hr hp
    exact ⟨v, by rw [h.inputSteps_of_wantsControl hp hwants, hread]⟩
  cases hdir : p.direction with
  | output => simp [Property.isOutput, hdir] at hargument
  | control => exact hstored (Node.wantsControl_iff.mpr (.inl (by simp [Property.isControl, hdir])))
  | input =>
    have hinput : p.isInput = true := by simp [Property.isInput, hdir]
    cases hmulti : p.multi with
    | true => exact ⟨_, h.inputSteps_of_multi hp hinput hmulti⟩
    | false =>
      cases hreversed : p.type.isReversed with
      | true => exact ⟨none, h.inputSteps_of_reversed hp hinput hmulti hreversed⟩
      | false => exact hstored (Node.wantsControl_iff.mpr (.inr ⟨hinput, hmulti, hreversed⟩))

theorem exists_prefetch (hr : c.registry.Reached) (hs : s.BuiltFrom providers c.registry) (session : Session) :
    ∃ args', c.prefetch ⟨id, s, []⟩ session = some ((.ok (), args'), session.raise
      ((s.props.filter fun p => !p.isOutput && !p.optional && c.findsAbsent session id p.key).map fun p =>
        .missingInput id s.name p.key)) := by
  have hkeys := h.nodup_keys
  have hprops : ∀ p ∈ s.props.filter (!·.isOutput), p ∈ s.props ∧ p.isOutput = false := by simp
  obtain ⟨args', hrun⟩ := argumentsOf_of_done (c := c) ⟨id, s, []⟩ (hkeys.sublist (List.filter_sublist.map _))
    (fun p hp => ⟨Schema.prop?_of_mem hkeys (hprops p hp).1, (hprops p hp).2⟩) (fun _ _ => rfl)
    (fun p hp => h.exists_inputSteps hr hs (hprops p hp).1 (hprops p hp).2) session session
  refine ⟨args', hrun.trans ?_⟩
  simp only [List.filter_filter, Bool.and_comm, Bool.and_left_comm, Bool.and_assoc]

end HoldsNew

/-- **A new node reads back its defaults.** From a graph that holds nothing else, a control and a single input in the
forward direction are read as the default value of the type, and are absent where there is none or it is a list. It does
not matter how default values are computed. A single input in the reverse direction is absent, and an input of many connections is the empty list. Reading all
arguments reports each required property that is absent once, in merge order, and nothing else. -/
theorem new_node_reads_defaults (h : c.HoldsNew providers id s) (hr : c.registry.Reached)
    (hs : s.BuiltFrom providers c.registry) (session : Session) :
    (∀ p ∈ s.props, p.isControl = true ∨ p.isInput = true ∧ p.multi = false ∧ p.type.isReversed = false →
      ∃ v, c.input id p.key session = some (.ok v, session) ∧
        Option.Rel (fun v w => (v == w) = true) v (p.type.plainDefault providers)) ∧
    (∀ p ∈ s.props, p.isInput = true → p.multi = false → p.type.isReversed = true →
      c.input id p.key session = some (.ok none, session)) ∧
    (∀ p ∈ s.props, p.isInput = true → p.multi = true →
      c.input id p.key session = some (.ok (some (.list [])), session)) ∧
    ∃ args args', c.arguments id = .ok args ∧
      c.prefetch args session = some ((.ok (), args'), session.raise
        ((s.props.filter fun p => !p.isOutput && !p.optional && c.findsAbsent session id p.key).map fun p =>
          .missingInput id s.name p.key)) := by
  refine ⟨?_, ?_, ?_, ⟨id, s, []⟩, ?_⟩
  · intro p hp hstored
    obtain ⟨v, hread, hequal⟩ := hs.exists_read_back hr hp
    have hsteps := h.inputSteps_of_wantsControl hp (Node.wantsControl_iff.mpr hstored)
    exact ⟨v, input_of_done (hread ▸ hsteps) session, hequal⟩
  · intro p hp hinput hsingle hreversed
    exact input_of_done (h.inputSteps_of_reversed hp hinput hsingle hreversed) session
  · intro p hp hinput hmulti
    exact input_of_done (h.inputSteps_of_multi hp hinput hmulti) session
  · have hfresh : c.arguments id = .ok ⟨id, s, []⟩ := by
      rw [arguments, h.schema]
      rfl
    obtain ⟨args', hrun⟩ := h.exists_prefetch hr hs session
    exact ⟨args', hfresh, hrun⟩

/-! ### A form -/

namespace Form

/-- Default values that are the type itself, its first or its last generic. -/
def plain : Providers := fun provider t =>
  if provider = "itself" then some (.type t)
  else if provider = "last" then t.generics.getLast?.map .type
  else Builtin.providers provider t

/-- Default values that are those of the first generic besides. -/
def supply : Providers := fun provider t =>
  if provider = "inner" then t.generics.head?.bind (Ty.defaultValue plain) else plain provider t

def mark : Ty := ⟨"Mark", none, [], { default := some (.computed "itself") }, .empty, true⟩

def box : Ty := ⟨"Box", none, [mark], { default := some (.computed Builtin.contentProvider) }, .empty, true⟩

def stack : Ty := ⟨"Stack", none, [mark, box], { default := some (.computed "last") }, .empty, true⟩

def crate : Ty := ⟨"Crate", none, [box, mark], { default := some (.computed "inner") }, .empty, true⟩

def row : Ty := ⟨"Row", none, [], { default := some (.value (.list [.bool true])) }, .empty, true⟩

def trail : Ty := ⟨"Trail", none, [], { default := some (.value (.bool true)), reversed := true }, .empty, true⟩

def types : Registry := ⟨[mark, box, stack, crate, row, trail]⟩

theorem reached_types : types.Reached := by
  have h : Registry.empty.registerAll
      [ { name := "Mark", default := some (.computed "itself") },
        { name := "Box", generics := [.named "Mark"], default := some (.computed Builtin.contentProvider) },
        { name := "Stack", generics := [.named "Mark", .named "Box"], default := some (.computed "last") },
        { name := "Crate", generics := [.named "Box", .named "Mark"], default := some (.computed "inner") },
        { name := "Row", default := some (.value (.list [.bool true])) },
        { name := "Trail", default := some (.value (.bool true)), reversed := some true } ] = .ok types := rfl
  exact Registry.Reached.empty.registerAll h

/-- The properties of a form: two of them have a list as default value, of which one is optional. -/
def props : List (PropDecl × Direction) :=
  [({ key := "out", type := mark, output := true }, .output),
    ({ key := "content", type := box, input := true }, .input),
    ({ key := "path", type := trail, input := true }, .input),
    ({ key := "rest", type := mark, input := true, multi := true }, .input),
    ({ key := "rows", type := row, control := true }, .control),
    ({ key := "note", type := row, control := true, optional := true }, .control),
    ({ key := "top", type := stack, control := true }, .control),
    ({ key := "goods", type := crate, control := true }, .control)]

def form : Schema := ⟨"Form", none, false, props.map fun d => d.1.settle d.2⟩

/-- The compiler of a graph with a new form. -/
def newForm : Compiler where
  graph := ⟨[Node.ofSchema supply "f" form], [], {}⟩
  catalog := ⟨[form]⟩
  registry := types
  compileKey := motokoKey

theorem holdsNew_newForm : newForm.HoldsNew supply "f" form := by
  have hinsert : Catalog.empty.insert (.unified "Form" (props.map (·.1))) = .ok (form, ⟨[form]⟩) := rfl
  exact ⟨rfl, rfl, .insert .empty hinsert, rfl, rfl⟩

theorem builtFrom_form : form.BuiltFrom supply types := by
  have hmark : types.Built mark := .resolve (show types.resolve "Mark" = .ok mark from rfl)
  have hbox : types.Built box := .resolve (show types.resolve "Box" = .ok box from rfl)
  have hdefaults : form.props.map (·.type.defaultValue supply) =
      [some (.type mark), some (.type mark), some (.bool true), some (.type mark), some (.list [.bool true]),
        some (.list [.bool true]), some (.type box), some (.type mark)] := rfl
  intro p hp v hv hplain
  have hmem : some v ∈ form.props.map (·.type.defaultValue supply) := hv ▸ List.mem_map_of_mem hp
  rw [hdefaults] at hmem
  simp only [List.mem_cons, Option.some.injEq, List.not_mem_nil, or_false] at hmem
  rcases hmem with rfl | rfl | rfl | rfl | rfl | rfl | rfl | rfl
  all_goals first | exact hmark | exact hbox | trivial

/-- The content of a new form is the mark that its box holds. Its top is the last thing on the stack, a box, and its goods
are what a box has by default. Its path and its rows are missing, and so is its note, without notice. -/
theorem new_node_reads_defaults_form :
    newForm.HoldsNew supply "f" form ∧ newForm.registry.Reached ∧ form.BuiltFrom supply newForm.registry ∧
    (∃ v, newForm.input "f" "content" {} = some (.ok (some v), {}) ∧ (v == .type mark) = true) ∧
    (∃ v, newForm.input "f" "top" {} = some (.ok (some v), {}) ∧ (v == .type box) = true) ∧
    (∃ v, newForm.input "f" "goods" {} = some (.ok (some v), {}) ∧ (v == .type mark) = true) ∧
    newForm.input "f" "path" {} = some (.ok none, {}) ∧ newForm.input "f" "rest" {} = some (.ok (some (.list [])), {}) ∧
    ∃ args args', newForm.arguments "f" = .ok args ∧
      newForm.prefetch args {} = some ((.ok (), args'),
        ({} : Session).raise [.missingInput "f" "Form" "path", .missingInput "f" "Form" "rows"]) := by
  obtain ⟨hstored, hreversed, hmulti, hprefetch⟩ :=
    new_node_reads_defaults holdsNew_newForm reached_types builtFrom_form {}
  have hvalue : ∀ {p : Property} {v : Value}, p ∈ form.props →
      p.isControl = true ∨ p.isInput = true ∧ p.multi = false ∧ p.type.isReversed = false →
      p.type.plainDefault supply = some v →
      ∃ w, newForm.input "f" p.key {} = some (.ok (some w), {}) ∧ (w == v) = true := by
    intro p v hp hwants hdefault
    obtain ⟨r, hread, hequal⟩ := hstored p hp hwants
    rw [hdefault] at hequal
    cases hequal with
    | some h => exact ⟨_, hread, h⟩
  refine ⟨holdsNew_newForm, reached_types, builtFrom_form, ?_, ?_, ?_, ?_, ?_, ?_⟩
  · exact hvalue (p := form.props.get ⟨1, by decide⟩) (List.get_mem _ _) (.inr ⟨rfl, rfl, rfl⟩) rfl
  · exact hvalue (p := form.props.get ⟨6, by decide⟩) (List.get_mem _ _) (.inl rfl) rfl
  · exact hvalue (p := form.props.get ⟨7, by decide⟩) (List.get_mem _ _) (.inl rfl) rfl
  · exact hreversed (form.props.get ⟨2, by decide⟩) (List.get_mem _ _) rfl rfl rfl
  · exact hmulti (form.props.get ⟨3, by decide⟩) (List.get_mem _ _) rfl rfl
  · exact hprefetch

end Form

end Compiler

end BlockGraph
