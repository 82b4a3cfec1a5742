import BlockGraph.Proofs.Type.Registration
import Mathlib.Data.List.Induction

/-!
# Where the traits of a type come from

The traits of a registered type are put together once, from those of its parent and from what its declaration states,
and an instance copies them. Nothing is looked up later. Still each trait is the one that a look-up would find: the
declarations of a type and of its declared parents form a line (`TypeDecl.Line`), and the first of them that states a
trait decides it. Abstractness and free arity are not looked up, but belong to one declaration and not to instances.

* `KeyMap.get?_insertAll`: the last entry for a key counts, and the map below it where there is none;
* `Ty.StatedIn.toType`: a declaration over a parent comes first in the line of the parent;
* `Registry.exists_line`: every registered type has a line, by induction over the declarations;
* `Registry.traits_of_nearest_declaration`: the same for instances of instances.
-/

namespace BlockGraph

theorem KeyMap.get?_insertAll {α : Type} (m : KeyMap α) (entries : List (String × α)) (key : String) :
    (m.insertAll entries).get? key = (entries.reverse.lookup key).or (m.get? key) := by
  induction entries generalizing m with
  | nil => rfl
  | cons entry rest ih =>
    obtain ⟨k, v⟩ := entry
    have hrest := ih (m.insert k v)
    rw [KeyMap.insertAll, List.foldl_cons, ← KeyMap.insertAll, hrest, KeyMap.get?_insert, List.reverse_cons,
      List.lookup_append, Option.or_assoc]
    by_cases h : k = key
    · simp [h]
    · have hbeq : (key == k) = false := by simpa using Ne.symm h
      simp [h, List.lookup_cons, hbeq]

/-! ### Lines of declarations -/

namespace TypeDecl

variable {decls : List TypeDecl} {name : String} {line line' : List TypeDecl}

/-- The renderer that a declaration states for a compile key, the last one if there are several. -/
def renderer? (decl : TypeDecl) (key : String) : Option Renderer := decl.renderers.reverse.lookup key

/-- The annotation that a declaration states under a key, the last one if there are several. -/
def annotation? (decl : TypeDecl) (key : String) : Option Json := decl.annotations.reverse.lookup key

/-- The declaration of a name, then that of its declared parent, and so on up to one without a parent. -/
inductive Line (decls : List TypeDecl) : String → List TypeDecl → Prop
  | root {name : String} {decl : TypeDecl} (hmem : decl ∈ decls) (hname : decl.name = name)
      (hparent : decl.parent = none) : Line decls name [decl]
  | child {name above : String} {decl : TypeDecl} {line : List TypeDecl} (hmem : decl ∈ decls)
      (hname : decl.name = name) (hparent : decl.parent = some above) (habove : Line decls above line) :
      Line decls name (decl :: line)

theorem Line.append (h : Line decls name line) (more : List TypeDecl) : Line (decls ++ more) name line := by
  induction h with
  | root hmem hname hparent => exact .root (List.mem_append_left _ hmem) hname hparent
  | child hmem hname hparent _ ih => exact .child (List.mem_append_left _ hmem) hname hparent ih

theorem Line.unique (hnames : (decls.map (·.name)).Nodup) (h : Line decls name line) (h' : Line decls name line') :
    line' = line := by
  have hsame : ∀ {name : String} {d d' : TypeDecl}, d ∈ decls → d' ∈ decls → d.name = name → d'.name = name → d' = d :=
    fun hd hd' hname hname' => List.inj_on_of_nodup_map hnames hd' hd (hname'.trans hname.symm)
  induction h generalizing line' with
  | root hmem hname hparent =>
    cases h' with
    | root hmem' hname' _ => rw [hsame hmem hmem' hname hname']
    | child hmem' hname' hparent' _ =>
      rw [hsame hmem hmem' hname hname', hparent] at hparent'
      cases hparent'
  | child hmem hname hparent _ ih =>
    cases h' with
    | root hmem' hname' hparent' =>
      rw [hsame hmem hmem' hname hname', hparent] at hparent'
      cases hparent'
    | child hmem' hname' hparent' habove' =>
      rw [hsame hmem hmem' hname hname', hparent] at hparent'
      cases hparent'
      rw [hsame hmem hmem' hname hname', ih habove']

end TypeDecl

/-! ### Traits stated in a line -/

theorem findSome?_cons_eq_or {α β : Type} (f : α → Option β) (a : α) (l : List α) :
    (a :: l).findSome? f = (f a).or (l.findSome? f) := by
  rw [List.findSome?_cons]
  cases f a <;> rfl

/-- Every trait that passes to children is what the first declaration of the line states for it that states
anything. -/
structure Traits.StatedIn (traits : Traits Value) (line : List TypeDecl) : Prop where
  category : traits.category = line.findSome? (·.category)
  default : traits.default = line.findSome? (·.default)
  typeText : traits.typeText = line.findSome? (·.typeText)
  slotNames : traits.slotNames = (line.findSome? (·.slotNames)).getD []
  reversed : traits.reversed = (line.findSome? (·.reversed)).getD false
  renderers : ∀ key, traits.renderers.get? key = line.findSome? (·.renderer? key)

namespace Traits.StatedIn

variable {above : Traits Value} {line : List TypeDecl}

theorem nil : ({} : Traits Value).StatedIn [] := ⟨rfl, rfl, rfl, rfl, rfl, fun _ => rfl⟩

theorem inherited (h : above.StatedIn line) : above.inherited.StatedIn line :=
  ⟨h.category, h.default, h.typeText, h.slotNames, h.reversed, h.renderers⟩

theorem traitsOver (h : above.StatedIn line) (decl : TypeDecl) : (decl.traitsOver above).StatedIn (decl :: line) where
  category := by rw [findSome?_cons_eq_or, ← h.category, TypeDecl.traitsOver]
  default := by rw [findSome?_cons_eq_or, ← h.default, TypeDecl.traitsOver]
  typeText := by rw [findSome?_cons_eq_or, ← h.typeText, TypeDecl.traitsOver]
  slotNames := by rw [findSome?_cons_eq_or, Option.getD_or, ← h.slotNames, TypeDecl.traitsOver]
  reversed := by rw [findSome?_cons_eq_or, Option.getD_or, ← h.reversed, TypeDecl.traitsOver]
  renderers := by
    intro key
    rw [findSome?_cons_eq_or, ← h.renderers, TypeDecl.traitsOver, KeyMap.get?_insertAll, TypeDecl.renderer?]

end Traits.StatedIn

namespace Ty

variable {t p : Ty} {line : List TypeDecl}

/-- The traits of a type that pass to children, and its annotations, are stated in the line. -/
structure StatedIn (t : Ty) (line : List TypeDecl) : Prop where
  traits : t.traits.StatedIn line
  annotations : ∀ key, t.annotations.get? key = line.findSome? (·.annotation? key)

theorem StatedIn.withGenerics (h : t.StatedIn line) (generics : List Ty) : (t.withGenerics generics).StatedIn line :=
  ⟨h.traits.inherited, h.annotations⟩

theorem StatedIn.root (decl : TypeDecl) (generics : List Ty) : (decl.toType none generics).StatedIn [decl] := by
  refine ⟨Traits.StatedIn.nil.traitsOver decl, fun key => ?_⟩
  rw [findSome?_cons_eq_or]
  exact KeyMap.get?_insertAll .empty decl.annotations key

theorem StatedIn.child (h : p.StatedIn line) (decl : TypeDecl) (generics : List Ty) :
    (decl.toType (some p) generics).StatedIn (decl :: line) := by
  refine ⟨h.traits.traitsOver decl, fun key => ?_⟩
  rw [findSome?_cons_eq_or, ← h.annotations]
  exact KeyMap.get?_insertAll p.annotations decl.annotations key

end Ty

/-! ### Registered types -/

namespace Registry

variable {r r' start : Registry} {decl : TypeDecl} {decls : List TypeDecl} {name : String} {t b : Ty}

theorem registerAll_concat (h : start.registerAll (decls ++ [decl]) = .ok r') :
    ∃ r t, start.registerAll decls = .ok r ∧ r.register decl = .ok (t, r') := by
  rw [registerAll, List.foldlM_append, bind_eq_ok_iff] at h
  obtain ⟨r, hr, h⟩ := h
  rw [List.foldlM_cons, bind_eq_ok_iff] at h
  obtain ⟨r'', h, hnil⟩ := h
  obtain ⟨⟨t, _⟩, hregister, hsnd⟩ := bind_eq_ok_iff.mp h
  cases hsnd
  cases hnil
  exact ⟨r, t, hr, hregister⟩

theorem names_registerAll (h : Registry.empty.registerAll decls = .ok r) : r.names = decls.map (·.name) := by
  induction decls using List.reverseRecOn generalizing r with
  | nil =>
    cases h
    rfl
  | append_singleton decls decl ih =>
    obtain ⟨before, t, hbefore, hregister⟩ := registerAll_concat h
    rw [names_register hregister, ih hbefore, List.map_append, List.map_singleton]

theorem parent_of_mapM {above : Option String} {parent : Option Ty} (h : above.mapM r.resolve = .ok parent) :
    (above = none ∧ parent = none) ∨ ∃ name p, above = some name ∧ parent = some p ∧ r.get? name = some p := by
  cases above with
  | none =>
    cases h
    exact .inl ⟨rfl, rfl⟩
  | some name =>
    have hmap : (r.resolve name).map some = .ok parent := h
    cases hresolve : r.resolve name with
    | error e =>
      rw [hresolve] at hmap
      cases hmap
    | ok p =>
      rw [hresolve] at hmap
      cases hmap
      exact .inr ⟨name, p, rfl, rfl, resolve_eq_ok_iff.mp hresolve⟩

/-- The traits of the registered type of a name are stated in the line of the name, and its flags in its own
declaration. -/
theorem exists_line (h : Registry.empty.registerAll decls = .ok r) (hget : r.get? name = some b) :
    ∃ own above, TypeDecl.Line decls name (own :: above) ∧ b.StatedIn (own :: above) ∧
      b.traits.isAbstract = own.isAbstract ∧ b.traits.arbitraryGenerics = own.arbitraryGenerics := by
  induction decls using List.reverseRecOn generalizing r name b with
  | nil =>
    cases h
    cases hget
  | append_singleton decls decl ih =>
    obtain ⟨before, t, hbefore, hregister⟩ := registerAll_concat h
    have hmem : decl ∈ decls ++ [decl] := by simp
    rw [get?_register hregister] at hget
    split at hget
    · next hname =>
      cases hget
      obtain ⟨-, parent, generics, hparent, -, rfl, -⟩ := register_eq_ok hregister
      rcases parent_of_mapM hparent with ⟨hnone, rfl⟩ | ⟨above, p, habove, rfl, hp⟩
      · exact ⟨decl, [], .root hmem hname.symm hnone, .root decl generics, rfl, rfl⟩
      · -- the parent was declared before, and its line is extended
        obtain ⟨own, rest, hline, hstated, -⟩ := ih hbefore hp
        exact ⟨decl, own :: rest, .child hmem hname.symm habove (hline.append [decl]), hstated.child decl generics, rfl, rfl⟩
    · obtain ⟨own, above, hline, hrest⟩ := ih hbefore hget
      exact ⟨own, above, hline.append [decl], hrest⟩

/-! ### Instances -/

/-- A type that is made from a registered one by instantiations, one after the other, with any generics. -/
inductive Derived (r : Registry) : Ty → Prop
  | resolve {name : String} {t : Ty} (h : r.resolve name = .ok t) : Derived r t
  | of {t u : Ty} {generics : List Ty} (ht : Derived r t) (h : t.of generics = .ok u) : Derived r u

theorem Derived.isBase_iff (hr : r.Reached) (ht : r.Derived t) : t.isBase = true ↔ r.resolve t.name = .ok t := by
  constructor
  · intro hbase
    induction ht with
    | resolve h => rw [name_of_get? (resolve_eq_ok_iff.mp h), h]
    | of _ h ih =>
      rcases Ty.of_cases h with rfl | ⟨rfl, -⟩
      · exact ih hbase
      · cases hbase
  · intro h
    exact hr.orderly.base t (hr.orderly.resolve_eq_ok_iff.mp h).1

theorem Derived.exists_line (h : Registry.empty.registerAll decls = .ok r) (ht : r.Derived t) :
    ∃ own above, TypeDecl.Line decls t.name (own :: above) ∧ t.StatedIn (own :: above) ∧
      t.traits.isAbstract = (t.isBase && own.isAbstract) ∧
      t.traits.arbitraryGenerics = (t.isBase && own.arbitraryGenerics) := by
  induction ht with
  | @resolve name t hname =>
    have hget : r.get? name = some t := resolve_eq_ok_iff.mp hname
    have hbase : t.isBase = true := (Reached.empty.registerAll h).orderly.base t (List.mem_of_find?_eq_some hget)
    obtain ⟨own, above, hline, hstated, habstract, harity⟩ := Registry.exists_line h hget
    rw [name_of_get? hget, hbase]
    exact ⟨own, above, hline, hstated, habstract, harity⟩
  | of _ hof ih =>
    rcases Ty.of_cases hof with rfl | ⟨rfl, -⟩
    · exact ih
    · -- an instance has the line of what it is made from, but none of the flags
      obtain ⟨own, above, hline, hstated, -, -⟩ := ih
      exact ⟨own, above, hline, hstated.withGenerics _, rfl, rfl⟩

/-- **The traits of a type are those of the nearest declaration that states them.** After any declarations that are
accepted, the name of a type that is made by instantiations has one line of declarations, its own first and then those
of its declared ancestors. Category, default value, text, names of slots and direction of flow, the renderer of each
compile key and the annotation under each key are what the first declaration of the line states that states it, and
absent or forward if none does. Abstractness and free arity are what its own declaration states if the type is the
registered one, and never hold of an instance. -/
theorem traits_of_nearest_declaration (h : Registry.empty.registerAll decls = .ok r) (ht : r.Derived t) :
    ∃ own above, TypeDecl.Line decls t.name (own :: above) ∧
      (∀ line, TypeDecl.Line decls t.name line → line = own :: above) ∧
      t.StatedIn (own :: above) ∧
      t.traits.isAbstract = (t.isBase && own.isAbstract) ∧
      t.traits.arbitraryGenerics = (t.isBase && own.arbitraryGenerics) ∧
      (t.isBase = true ↔ r.resolve t.name = .ok t) := by
  have hr : r.Reached := Reached.empty.registerAll h
  have hnames : (decls.map (·.name)).Nodup := names_registerAll h ▸ hr.orderly.nodup
  obtain ⟨own, above, hline, hstated, habstract, harity⟩ := ht.exists_line h
  exact ⟨own, above, hline, fun line hline' => hline.unique hnames hline', hstated, habstract, harity,
    ht.isBase_iff hr⟩

namespace Family

/-! Shapes, figures with sides of any number and kind, and polygons. -/

def shapeText (v : TypeView) : String := "shape " ++ v.name

def figureText (v : TypeView) : String := "figure " ++ v.name

def shape : TypeDecl :=
  { name := "Shape", isAbstract := true, reversed := some true, category := some "shapes",
    renderers := [("a", shapeText), ("b", shapeText)], annotations := [("color", .text "red")] }

def figure : TypeDecl :=
  { name := "Figure", parent := some "Shape", arbitraryGenerics := true, slotNames := some ["side"],
    renderers := [("b", figureText)], annotations := [("icon", .text "star")] }

def polygon : TypeDecl := { name := "Polygon", parent := some "Figure", category := some "polygons" }

def family : List TypeDecl := [shape, figure, polygon]

theorem line_figure : TypeDecl.Line family "Figure" [figure, shape] :=
  .child (by simp [family]) rfl rfl (.root (by simp [family]) rfl rfl)

theorem line_polygon : TypeDecl.Line family "Polygon" [polygon, figure, shape] :=
  .child (by simp [family]) rfl rfl line_figure

/-- Polygons state a category of their own and take the rest from figures and shapes, but not that figures have sides
of any number. A figure that is narrowed twice has what figures state and from shapes what figures do not state, but
has sides of any number no more. -/
theorem traits_of_nearest_declaration_figures :
    ∃ r, Registry.empty.registerAll family = .ok r ∧
      (∃ t, r.resolve "Polygon" = .ok t ∧ t.traits.category = some "polygons" ∧ t.traits.slotNames = ["side"] ∧
        t.traits.reversed = true ∧ t.traits.arbitraryGenerics = false) ∧
      ∃ t, r.Derived t ∧ t.lineage.map (·.name) = ["Figure", "Figure", "Shape"] ∧ t.isBase = false ∧
        t.traits.category = some "shapes" ∧ t.traits.renderers.get? "a" = some shapeText ∧
        t.traits.renderers.get? "b" = some figureText ∧ t.annotations.get? "color" = some (.text "red") ∧
        t.traits.arbitraryGenerics = false := by
  obtain ⟨r, h, polygons, hpolygons, hpolygon, figures, hfigures, once, honce, twice, htwice, hfigure, hlineage, hinst⟩ :
      ∃ r, Registry.empty.registerAll family = .ok r ∧ ∃ polygons, r.resolve "Polygon" = .ok polygons ∧
      polygons.name = "Polygon" ∧ ∃ figures, r.resolve "Figure" = .ok figures ∧
      ∃ once, figures.of [figures] = .ok once ∧ ∃ twice, once.of [once] = .ok twice ∧ twice.name = "Figure" ∧
      twice.lineage.map (·.name) = ["Figure", "Figure", "Shape"] ∧ twice.isBase = false :=
    ⟨_, rfl, _, rfl, rfl, _, rfl, _, rfl, _, rfl, rfl, rfl, rfl⟩
  have hderived : r.Derived twice := .of (.of (.resolve hfigures) honce) htwice
  obtain ⟨own, above, -, hunique, hstated, -, harity, -⟩ := traits_of_nearest_declaration h (.resolve hpolygons)
  obtain ⟨rfl, rfl⟩ := List.cons.inj (hunique _ (hpolygon ▸ line_polygon))
  obtain ⟨own', above', -, hunique', hstated', -, harity', -⟩ := traits_of_nearest_declaration h hderived
  obtain ⟨rfl, rfl⟩ := List.cons.inj (hunique' _ (hfigure ▸ line_figure))
  refine ⟨r, h, ⟨polygons, hpolygons, hstated.traits.category, hstated.traits.slotNames, hstated.traits.reversed, ?_⟩,
    twice, hderived, hlineage, hinst, hstated'.traits.category, hstated'.traits.renderers "a",
    hstated'.traits.renderers "b", hstated'.annotations "color", ?_⟩
  · simpa [polygon] using harity
  · simpa [hinst] using harity'

end Family

end Registry

end BlockGraph
