import BlockGraph.Proofs.Type.Registration

/-!
# Types under their names

A registry may keep its types in a map under their names, and beside it the names in the order of registration
(`IndexedRegistry`). A registration then reads one container and writes to both, one after the other, and whatever it
has written when it fails stays written. The two containers stay in step all the same (`on_register`): they take in what
the list of types takes in, and a refused declaration is refused before anything is written.

`Registry.registration_invariant` says for every run of declarations, refused ones among them, what the registry lists,
what its types refer to, and that what it says stays true.
-/

namespace BlockGraph

namespace KeyMap

variable {α : Type} {key : String} {value : α}

theorem length_insertEntry {entries : List (String × α)} (h : entries.find? (·.1 == key) = none) :
    (insertEntry key value entries).length = entries.length + 1 := by
  induction entries with
  | nil => rfl
  | cons e rest ih =>
    have hne : ¬ (e.1 == key) = true := List.find?_eq_none.mp h e List.mem_cons_self
    have hrest : rest.find? (·.1 == key) = none := by rwa [List.find?_cons, eq_false_of_ne_true hne] at h
    rw [insertEntry, if_neg fun hkey : key = e.1 => hne (beq_iff_eq.mpr hkey.symm)]
    split
    · rfl
    · rw [List.length_cons, ih hrest, List.length_cons]

theorem length_insert {m : KeyMap α} (h : m.get? key = none) :
    (m.insert key value).entries.length = m.entries.length + 1 :=
  length_insertEntry (Option.map_eq_none_iff.mp h)

end KeyMap

/-- Types in a map under their names, and the names in the order of registration. -/
structure IndexedRegistry where
  types : KeyMap Ty
  order : List String

namespace IndexedRegistry

/-- A computation over the two containers. What was written before it fails stays written. -/
abbrev Update (α : Type) := ExceptT Error (StateM IndexedRegistry) α

/-- What a computation gives, and the containers after it. -/
def Update.on {α : Type} (u : Update α) (x : IndexedRegistry) : Except Error α × IndexedRegistry := u.run.run x

def empty : IndexedRegistry := ⟨.empty, []⟩

def get? (x : IndexedRegistry) (name : String) : Option Ty := x.types.get? name

def list (x : IndexedRegistry) : List Ty := x.order.filterMap x.get?

def size (x : IndexedRegistry) : Nat := x.types.entries.length

def resolve (name : String) : Update Ty := do
  match (← get).get? name with
  | some t => return t
  | none => throw (.unknownType name)

mutual

def fromPortable : Portable → Update Ty
  | .mk name generics => do
    let base ← resolve name
    let generics ← fromPortables generics
    base.of generics

def fromPortables : List Portable → Update (List Ty)
  | [] => return []
  | p :: rest => do
    let t ← fromPortable p
    let ts ← fromPortables rest
    return t :: ts

end

/-- Registers a declared type: its name is put last, and then the type under its name. -/
def register (decl : TypeDecl) : Update Ty := do
  if ((← get).get? decl.name).isSome then throw (.duplicateType decl.name)
  let parent ← decl.parent.mapM resolve
  let generics ← fromPortables decl.generics
  let t := decl.toType parent generics
  modify fun x => { x with order := x.order ++ [decl.name] }
  modify fun x => { x with types := x.types.insert decl.name t }
  return t

/-- The containers after a declaration, accepted or refused. -/
def submit (x : IndexedRegistry) (decl : TypeDecl) : IndexedRegistry := ((register decl).on x).2

def submitAll (x : IndexedRegistry) (decls : List TypeDecl) : IndexedRegistry := decls.foldl submit x

/-! ### Computations that only read -/

namespace Update

variable {α β : Type} {x x' : IndexedRegistry} {u : Update α} {next : α → Update β} {result : Except Error α}

theorem on_bind : (u >>= next).on x =
    match u.on x with
    | (.ok a, x') => (next a).on x'
    | (.error e, x') => (.error e, x') := by
  have hrun : (u >>= next).on x = ExceptT.bindCont next (u.on x).1 (u.on x).2 := rfl
  rw [hrun]
  obtain ⟨result, x'⟩ := u.on x
  cases result <;> rfl

/-- The computation gives the result and writes nothing. -/
def Reads (u : Update α) (x : IndexedRegistry) (result : Except Error α) : Prop := u.on x = (result, x)

theorem Reads.bind {after : α → Except Error β} (h : u.Reads x result)
    (hnext : ∀ a, (next a).Reads x (after a)) : Reads (u >>= next) x (result >>= after) := by
  rw [Reads, on_bind, show u.on x = (result, x) from h]
  cases result with
  | error e => rfl
  | ok a => exact hnext a

end Update

end IndexedRegistry

namespace Registry

variable {r r' start : Registry} {decl : TypeDecl} {decls : List TypeDecl} {name : String} {t : Ty}

open IndexedRegistry (Update)

/-- The two containers with the types of a registry. -/
def indexed (r : Registry) : IndexedRegistry where
  types := KeyMap.insertAll .empty (r.types.map fun t => (t.name, t))
  order := r.names

theorem indexed_concat (ts : List Ty) (t : Ty) : indexed ⟨ts ++ [t]⟩ =
    { types := (indexed ⟨ts⟩).types.insert t.name t, order := (indexed ⟨ts⟩).order ++ [t.name] } := by
  simp [indexed, names, KeyMap.insertAll]

namespace Reached

theorem get?_indexed (hr : r.Reached) (name : String) : r.indexed.get? name = r.get? name := by
  induction hr with
  | empty => rfl
  | @register r r' decl t hr h ih =>
    rw [get?_register h]
    obtain ⟨-, _, _, -, -, ht, rfl⟩ := register_eq_ok h
    have hname : t.name = decl.name := by rw [ht]; rfl
    rw [indexed_concat, IndexedRegistry.get?, KeyMap.get?_insert, hname]
    exact ite_congr (propext eq_comm) (fun _ => rfl) fun _ => ih

theorem list_indexed (hr : r.Reached) : r.indexed.list = r.types := by
  have hfound : ∀ t ∈ r.types, r.indexed.get? t.name = some t := fun t ht => by
    rw [hr.get?_indexed]
    exact resolve_eq_ok_iff.mp (hr.orderly.resolve_eq_ok_iff.mpr ⟨ht, rfl⟩)
  calc r.indexed.list
      _ = r.types.filterMap fun t => r.indexed.get? t.name := List.filterMap_map
      _ = r.types.filterMap some := List.filterMap_congr hfound
      _ = r.types := List.filterMap_some

theorem size_indexed (hr : r.Reached) : r.indexed.size = r.types.length := by
  induction hr with
  | empty => rfl
  | @register r r' decl t hr h ih =>
    obtain ⟨hget, _, _, -, -, ht, rfl⟩ := register_eq_ok h
    have hnew : r.indexed.types.get? t.name = none := by
      rw [ht]
      exact (hr.get?_indexed decl.name).trans hget
    rw [indexed_concat, IndexedRegistry.size, KeyMap.length_insert hnew, List.length_append, List.length_singleton]
    exact congrArg (· + 1) ih

theorem reads_resolve (hr : r.Reached) (name : String) :
    (IndexedRegistry.resolve name).Reads r.indexed (r.resolve name) := by
  rw [Update.Reads, IndexedRegistry.resolve, Update.on_bind, Registry.resolve]
  show (match r.indexed.get? name with
    | some t => return t
    | none => throw (.unknownType name) : Update Ty).on r.indexed = _
  rw [hr.get?_indexed]
  cases r.get? name <;> rfl

mutual

theorem reads_fromPortable (hr : r.Reached) :
    ∀ p : Portable, (IndexedRegistry.fromPortable p).Reads r.indexed (r.fromPortable p)
  | .mk name generics => by
    rw [IndexedRegistry.fromPortable, Registry.fromPortable]
    exact (hr.reads_resolve name).bind fun base => (hr.reads_fromPortables generics).bind fun _ => rfl

theorem reads_fromPortables (hr : r.Reached) :
    ∀ ps : List Portable, (IndexedRegistry.fromPortables ps).Reads r.indexed (r.fromPortables ps)
  | [] => rfl
  | p :: ps => by
    rw [IndexedRegistry.fromPortables, Registry.fromPortables]
    exact (hr.reads_fromPortable p).bind fun t => (hr.reads_fromPortables ps).bind fun _ => rfl

end

theorem reads_parent (hr : r.Reached) (parent : Option String) :
    Update.Reads (parent.mapM IndexedRegistry.resolve) r.indexed (parent.mapM r.resolve) := by
  cases parent with
  | none => rfl
  | some name => exact (hr.reads_resolve name).bind fun _ => rfl

end Reached

theorem register_eq_of_taken {b : Ty} (hget : r.get? decl.name = some b) :
    r.register decl = .error (.duplicateType decl.name) := by
  rw [register, contains, hget]
  rfl

theorem register_eq_of_new (hget : r.get? decl.name = none) : r.register decl = (do
    let parent ← decl.parent.mapM r.resolve
    let generics ← r.fromPortables decl.generics
    return (decl.toType parent generics, ⟨r.types ++ [decl.toType parent generics]⟩)) := by
  rw [register, contains, hget]
  rfl

/-- The two containers answer a declaration as the list of types does, and are in step afterwards. -/
theorem Reached.on_register (hr : r.Reached) (decl : TypeDecl) : (IndexedRegistry.register decl).on r.indexed =
    ((r.register decl).map (·.1), (r.submit decl).indexed) := by
  have hcheck : (IndexedRegistry.register decl).on r.indexed =
      (if (r.get? decl.name).isSome then throw (.duplicateType decl.name) else do
        let parent ← decl.parent.mapM IndexedRegistry.resolve
        let generics ← IndexedRegistry.fromPortables decl.generics
        modify fun x => { x with order := x.order ++ [decl.name] }
        modify fun x => { x with types := x.types.insert decl.name (decl.toType parent generics) }
        return decl.toType parent generics : Update Ty).on r.indexed := by
    rw [IndexedRegistry.register, Update.on_bind, ← hr.get?_indexed]
    rfl
  have hparent : Update.on _ _ = _ := hr.reads_parent decl.parent
  have hgenerics : Update.on _ _ = _ := hr.reads_fromPortables decl.generics
  cases hget : r.get? decl.name with
  | some b =>
    have hrefused := register_eq_of_taken hget
    rw [hcheck, hget, hrefused, submit_eq_of_error hrefused]
    rfl
  | none =>
    have hregister := register_eq_of_new hget
    rw [hcheck, hget, if_neg (by simp), Update.on_bind, hparent]
    cases hp : decl.parent.mapM r.resolve with
    | error e =>
      rw [hp] at hregister
      rw [hregister, submit_eq_of_error hregister]
      rfl
    | ok parent =>
      dsimp only
      rw [Update.on_bind, hgenerics]
      cases hg : r.fromPortables decl.generics with
      | error e =>
        rw [hp, hg] at hregister
        rw [hregister, submit_eq_of_error hregister]
        rfl
      | ok generics =>
        -- only now are the containers written to, and no step after this one fails
        rw [hp, hg] at hregister
        rw [hregister, submit_eq_of_ok hregister, indexed_concat]
        rfl

theorem Reached.eq_of_on_register {e : Error} {x : IndexedRegistry} (hr : r.Reached)
    (h : (IndexedRegistry.register decl).on r.indexed = (.error e, x)) : x = r.indexed := by
  rw [hr.on_register] at h
  obtain ⟨herror, rfl⟩ := Prod.mk.inj h
  cases hregister : r.register decl with
  | ok result =>
    rw [hregister] at herror
    cases herror
  | error e => rw [submit_eq_of_error hregister]

theorem Reached.submitAll_indexed (hr : r.Reached) (decls : List TypeDecl) :
    r.indexed.submitAll decls = (r.submitAll decls).indexed := by
  induction decls generalizing r with
  | nil => rfl
  | cons decl rest ih =>
    have hstep : r.indexed.submit decl = (r.submit decl).indexed := congrArg (·.2) (hr.on_register decl)
    rw [IndexedRegistry.submitAll, List.foldl_cons, hstep]
    exact ih (hr.submitAll [decl])

/-- **However types are declared, the registry stays in order and what it says stays true.** After any declarations to
the empty or the built-in registry, refused ones among them, the registry is the one that the accepted declarations
alone give. It lists their names in order, each once, and resolves just these; every registered type refers to earlier
ones only; a type that is built from it comes from the registered type of its name; and what a portable form stands
for is not changed by any later declaration. Kept in two containers, it lists and finds the same types after the same
declarations and refuses the same ones, and a refused one has written to neither. -/
theorem registration_invariant (hstart : start = .empty ∨ Registry.builtin = .ok start) (decls : List TypeDecl) :
    let r := start.submitAll decls
    start.registerAll (start.accepted decls) = .ok r ∧
    (∀ decl e, r.register decl = .error e → r.submit decl = r) ∧
    r.names = start.names ++ (start.accepted decls).map (·.name) ∧
    r.types.length = start.types.length + (start.accepted decls).length ∧
    (∀ name t, r.resolve name = .ok t ↔ t ∈ r.types ∧ t.name = name) ∧
    r.Orderly ∧
    (∀ t, r.Built t → ∃ b, r.resolve t.name = .ok b ∧ (t.eponym == b) = true) ∧
    (∀ later p t, r.fromPortable p = .ok t → (r.submitAll later).fromPortable p = .ok t) ∧
    ∃ first, (first = [] ∨ first = Builtin.decls) ∧
      let x := IndexedRegistry.empty.submitAll (first ++ decls)
      x.list = r.types ∧ x.size = r.types.length ∧ (∀ name, x.get? name = r.get? name) ∧
      ∀ decl, ((IndexedRegistry.register decl).on x).1 = (r.register decl).map (·.1) ∧
        ∀ e x', (IndexedRegistry.register decl).on x = (.error e, x') → x' = x := by
  intro r
  obtain ⟨first, hfirst, hsubmit⟩ : ∃ first, (first = [] ∨ first = Builtin.decls) ∧
      Registry.empty.submitAll first = start := by
    rcases hstart with rfl | hbuiltin
    · exact ⟨[], .inl rfl, rfl⟩
    · exact ⟨Builtin.decls, .inr rfl, submitAll_eq_of_registerAll hbuiltin⟩
  have hreached : start.Reached := hsubmit ▸ Reached.empty.submitAll first
  have hr : r.Reached := hreached.submitAll decls
  have hnames : r.names = start.names ++ (start.accepted decls).map (·.name) := start.names_submitAll decls
  refine ⟨start.registerAll_accepted decls, fun decl e => submit_eq_of_error, hnames, ?_, ?_, hr.orderly, ?_, ?_,
    first, hfirst, ?_⟩
  · simpa [names] using congrArg List.length hnames
  · intro name t
    exact hr.orderly.resolve_eq_ok_iff
  · intro t ht
    obtain ⟨b, hget⟩ := (ht.formed hr).registered
    exact ⟨b, resolve_eq_ok_iff.mpr hget, (ht.formed hr).eponym_beq hr.orderly hget⟩
  · intro later p t h
    exact fromPortable_mono (r.get?_submitAll later) p t h
  · have hindexed : IndexedRegistry.empty.submitAll (first ++ decls) = r.indexed := by
      rw [show r = Registry.empty.submitAll (first ++ decls) by
        rw [Registry.submitAll, List.foldl_append]; exact congrArg (·.submitAll decls) hsubmit.symm]
      exact Reached.empty.submitAll_indexed (first ++ decls)
    rw [hindexed]
    refine ⟨hr.list_indexed, hr.size_indexed, hr.get?_indexed, fun decl => ⟨?_, fun e x' => hr.eq_of_on_register⟩⟩
    rw [hr.on_register]

namespace Numeric

/-- Declarations of which two are refused: one for a name that is taken, one for a generic that is unknown. -/
def declared : List TypeDecl :=
  [ { name := "Float" }, { name := "Int", parent := some "Float" }, { name := "Tuple", arbitraryGenerics := true },
    { name := "Int" }, { name := "Box", generics := [.named "Ghost"] },
    { name := "Box", generics := [.named "Float"] } ]

/-- These declarations give the registry of boxes, also when it is kept in two containers, in which the narrowed tuple
comes from the registered tuple through one more instance, and what is read back from its stored form is read back later
as well. The built-in registry is in order too. -/
theorem registration_invariant_boxes :
    Registry.empty.submitAll declared = boxes ∧ boxes.names = ["Float", "Int", "Tuple", "Box"] ∧ boxes.Orderly ∧
    narrowed.lineage.map (·.name) = ["Tuple", "Tuple"] ∧ (narrowed.eponym == tuple) = true ∧
    (∃ t, ∀ later, (boxes.submitAll later).fromPortable narrowed.portable = .ok t) ∧
    (∃ x : IndexedRegistry, x.list = boxes.types ∧ x.size = 4 ∧ x.get? "Tuple" = some tuple ∧
      ∀ x', (IndexedRegistry.register { name := "Int" }).on x = (.error (.duplicateType "Int"), x') → x' = x) ∧
    ∃ builtin, Registry.builtin = .ok builtin ∧ builtin.Orderly := by
  have hboxes : Registry.empty.submitAll declared = boxes := rfl
  obtain ⟨-, -, hnames, -, -, horderly, heponym, hstays, first, -, hlist, hsize, hget, hregister⟩ :=
    registration_invariant (.inl rfl) declared
  rw [hboxes] at hnames horderly heponym hstays hlist hsize hget
  obtain ⟨b, hb, hnarrowed⟩ := heponym narrowed built_narrowed
  obtain rfl : tuple = b := Except.ok.inj hb
  obtain ⟨t, ht⟩ : ∃ t, boxes.fromPortable narrowed.portable = .ok t := ⟨_, rfl⟩
  obtain ⟨builtin, hbuiltin⟩ : ∃ builtin, Registry.builtin = .ok builtin := ⟨_, rfl⟩
  obtain ⟨-, -, -, -, -, hbase, -⟩ := registration_invariant (.inr hbuiltin) []
  exact ⟨hboxes, hnames, horderly, rfl, hnarrowed, ⟨t, fun later => hstays later _ t ht⟩,
    ⟨_, hlist, hsize, hget "Tuple", (hregister { name := "Int" }).2 _⟩, builtin, hbuiltin, hbase⟩

end Numeric

end Registry

end BlockGraph
