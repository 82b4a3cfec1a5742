import BlockGraph.Proofs.Type.Antisymmetry
import BlockGraph.Proofs.Type.Inheritance
import BlockGraph.Proofs.Type.Shared

/-!
# Forward and reverse flow are kept apart

Whether connections of a type are followed in the opposite direction is a trait that is copied when a type is declared
and when it is instantiated. If no declaration with a parent states it, it is the same all the way up to the root of a
type (`Built.isReversed_root`). Types that are comparable have the same root, so no type of forward flow is ever taken
for one of reverse flow.
-/

namespace BlockGraph

theorem Ty.Heir.isReversed {t b : Ty} (h : t.Heir b) : t.isReversed = b.isReversed := (Traits.mk.inj h.common).2.2.1

namespace Registry

variable {r r' : Registry} {decl : TypeDecl} {decls : List TypeDecl} {t a b p : Ty}

/-- The registered types flow as their parents do. -/
def FlowsFromRoots (r : Registry) : Prop :=
  ∀ name b p, r.get? name = some b → b.parent = some p → b.isReversed = p.isReversed

theorem FlowsFromRoots.register (hr : r.FlowsFromRoots) (hdecl : decl.parent ≠ none → decl.reversed = none)
    (h : r.register decl = .ok (t, r')) : r'.FlowsFromRoots := by
  intro name b p hb hp
  rw [get?_register h] at hb
  split at hb
  · cases hb
    obtain ⟨-, parent, generics, hparent, -, rfl, -⟩ := register_eq_ok h
    obtain rfl : parent = some p := hp
    have hunstated : decl.reversed = none := by
      refine hdecl fun hnone => ?_
      rw [hnone] at hparent
      cases hparent
    show decl.reversed.getD p.traits.reversed = p.traits.reversed
    rw [hunstated, Option.getD_none]
  · exact hr name b p hb hp

theorem FlowsFromRoots.submitAll (hr : r.FlowsFromRoots)
    (hdecls : ∀ decl ∈ decls, decl.parent ≠ none → decl.reversed = none) : (r.submitAll decls).FlowsFromRoots :=
  submitAll_induction hr fun _ _ decl _ hmem hflows h => hflows.register (hdecls decl hmem) h

theorem flowsFromRoots_builtin (h : Registry.builtin = .ok r) : r.FlowsFromRoots := by
  have hempty : Registry.empty.FlowsFromRoots := fun _ _ _ hget => nomatch hget
  rw [← submitAll_eq_of_registerAll h]
  refine hempty.submitAll ?_
  simp [Builtin.decls]

/-! ### Along parents -/

theorem Built.isReversed_eq_of_name (hr : r.Reached) (ha : r.Built a) (hb : r.Built b) (hname : a.name = b.name) :
    a.isReversed = b.isReversed := by
  obtain ⟨base, hget, hheir⟩ := ha.heir hr
  obtain ⟨base', hget', hheir'⟩ := hb.heir hr
  obtain rfl : base = base' := Option.some.inj (hget.symm.trans (hname ▸ hget'))
  rw [hheir.isReversed, hheir'.isReversed]

theorem Built.isReversed_parent (hr : r.Reached) (hflows : r.FlowsFromRoots) (ht : r.Built t)
    (hp : t.parent = some p) : t.isReversed = p.isReversed := by
  cases ht.formed hr with
  | base hget _ hparent _ _ _ =>
    have hbase : r.Built _ := .resolve (resolve_eq_ok_iff.mpr hget)
    rw [ht.isReversed_eq_of_name hr hbase (name_of_get? hget).symm]
    exact hflows _ _ p hget (hparent.symm.trans hp)
  | inst hparent hname _ _ _ _ =>
    obtain rfl := Option.some.inj (hparent.symm.trans hp)
    exact ht.isReversed_eq_of_name hr (ht.parent hp) hname

theorem Built.root (ht : r.Built t) : r.Built t.root := by
  rcases List.mem_cons.mp t.root_mem with hself | hmem
  · rw [hself]
    exact ht
  · exact Ty.forall_mem_lineage (fun _ _ hp ht => ht.parent hp) ht _ hmem

theorem Built.isReversed_root (hr : r.Reached) (hflows : r.FlowsFromRoots) (ht : r.Built t) :
    t.isReversed = t.root.isReversed := by
  induction t using Ty.inductionOnParents with
  | step t ih =>
    cases hp : t.parent with
    | none => rw [Ty.root_of_parent_none hp]
    | some p => rw [Ty.root_of_parent hp, ht.isReversed_parent hr hflows hp, ih p hp (ht.parent hp)]

theorem Built.isReversed_eq_of_root (hr : r.Reached) (hflows : r.FlowsFromRoots) (ha : r.Built a) (hb : r.Built b)
    (hroots : (a.root == b.root) = true) : a.isReversed = b.isReversed := by
  have hname : a.root.name = b.root.name := ((Ty.beq_iff _ _).mp hroots).1
  rw [ha.isReversed_root hr hflows, hb.isReversed_root hr hflows, ha.root.isReversed_eq_of_name hr hb.root hname]

/-- **Forward and reverse flow never mix.** Over the built-in types and all that is declared after them, as long as no
declaration with a parent states the direction of flow, every type flows as the root of its ancestors does. A type that
is below another one, or that shares a type with it, flows as that one does. -/
theorem flows_kept_apart {start : Registry} (hstart : Registry.builtin = .ok start)
    (hdecls : ∀ decl ∈ decls, decl.parent ≠ none → decl.reversed = none) :
    (∀ t, (start.submitAll decls).Built t → t.isReversed = t.root.isReversed) ∧
    ∀ a b, (start.submitAll decls).Built a → (start.submitAll decls).Built b →
      (a.isSubtype b = true → a.isReversed = b.isReversed) ∧
      ((a.sharedType b).isSome = true → a.isReversed = b.isReversed) := by
  have hr : (start.submitAll decls).Reached := Reached.submitAll (Reached.empty.registerAll hstart) decls
  have hflows : (start.submitAll decls).FlowsFromRoots := (flowsFromRoots_builtin hstart).submitAll hdecls
  refine ⟨fun t ht => ht.isReversed_root hr hflows, fun a b ha hb => ⟨fun hbelow => ?_, fun hshared => ?_⟩⟩
  · exact ha.isReversed_eq_of_root hr hflows hb ((ha.formed hr).root_beq_of_isSubtype (hb.formed hr) hbelow)
  · rw [(ha.formed hr).sharedType_isSome (hb.formed hr)] at hshared
    exact ha.isReversed_eq_of_root hr hflows hb hshared

/-- A kind of effects, and one more root of reverse flow. -/
def statements : List TypeDecl :=
  [{ name := "Statement", parent := some "Effect", generics := [.named "Value"] },
    { name := "Trail", reversed := some true }]

/-- Statements about integers flow in reverse as `AnyReversed` does, three types further up, and so do the effects of
integers, with which they share a type. Integers themselves flow forward. -/
theorem flows_kept_apart_statements :
    ∃ start, Registry.builtin = .ok start ∧ (∀ decl ∈ statements, decl.parent ≠ none → decl.reversed = none) ∧
      ∃ int statement effect : Ty, (start.submitAll statements).Built statement ∧
        (start.submitAll statements).Built effect ∧ statement.generics = [int] ∧ int.isReversed = false ∧
        statement.lineage.map (·.name) = ["Statement", "Effect", "AnyReversed"] ∧
        statement.isReversed = statement.root.isReversed ∧ statement.root.isReversed = true ∧
        statement.isSubtype effect = false ∧ (statement.sharedType effect).isSome = true ∧
        statement.isReversed = effect.isReversed := by
  obtain ⟨start, hstart, int, hint, statements', hstatements, effects, heffects, statement, hstatement, effect, heffect,
      hgenerics, hforward, hlineage, hroot, hbelow, hshared⟩ :
      ∃ start, Registry.builtin = .ok start ∧ ∃ int, (start.submitAll statements).resolve "Int" = .ok int ∧
        ∃ statements', (start.submitAll statements).resolve "Statement" = .ok statements' ∧
        ∃ effects, (start.submitAll statements).resolve "Effect" = .ok effects ∧
        ∃ statement, statements'.of [int] = .ok statement ∧ ∃ effect, effects.of [int] = .ok effect ∧
        statement.generics = [int] ∧ int.isReversed = false ∧
        statement.lineage.map (·.name) = ["Statement", "Effect", "AnyReversed"] ∧ statement.root.isReversed = true ∧
        statement.isSubtype effect = false ∧ (statement.sharedType effect).isSome = true :=
    ⟨_, rfl, _, rfl, _, rfl, _, rfl, _, rfl, _, rfl, rfl, rfl, rfl, rfl, rfl, rfl⟩
  have hdecls : ∀ decl ∈ statements, decl.parent ≠ none → decl.reversed = none := by simp [statements]
  have hargs : ∀ g ∈ [int], (start.submitAll statements).Built g := List.forall_mem_singleton.mpr (.resolve hint)
  have hs : (start.submitAll statements).Built statement := .of (.resolve hstatements) hargs hstatement
  have he : (start.submitAll statements).Built effect := .of (.resolve heffects) hargs heffect
  obtain ⟨hroots, hcomparable⟩ := flows_kept_apart hstart hdecls
  exact ⟨start, hstart, hdecls, int, statement, effect, hs, he, hgenerics, hforward, hlineage, hroots statement hs, hroot,
    hbelow, hshared, (hcomparable statement effect hs he).2 hshared⟩

end Registry

end BlockGraph
