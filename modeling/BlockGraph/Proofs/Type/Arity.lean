import BlockGraph.Proofs.Type.Antisymmetry
import BlockGraph.Proofs.Type.Instantiation

/-!
# Instances of arbitrary arity

A type that takes arbitrary generics accepts any list of them, and its instances have it as their parent. Two instances
are compared generic by generic. Where that fails the comparison goes on with the registered type itself, which has no
generics: it is below just the instance without generics, because the two are equal. So the instance without generics
stands above all others, and else only lists of the same length are comparable.

* `Ty.isSubtype_withGenerics_iff`: the comparison, for every registered type without slots;
* `Registry.tuple_subtype_iff_componentwise`: the tuples of the built-in lattice.
-/

namespace BlockGraph

namespace Ty

variable {r : Registry} {b : Ty} {gs hs : List Ty}

theorem not_parent_isSubtype {p c : Ty} (hr : r.Reached) (hget : r.get? b.name = some b) (hp : b.parent = some p)
    (hname : c.name = b.name) : p.isSubtype c = false := by
  have hlt := Registry.rank_lt_of_parent hr.orderly (List.mem_of_find?_eq_some hget) hp
  by_contra habove
  have hle := Registry.rank_le_of_isSubtype hr.orderly ((hr.sound _ _ hget).parent hp) (by simpa using habove)
  rw [hname] at hle
  omega

theorem registered_isSubtype_withGenerics_iff (hr : r.Reached) (hget : r.get? b.name = some b)
    (hslots : b.generics = []) : b.isSubtype (b.withGenerics hs) = true ↔ hs = [] := by
  rw [isSubtype_iff, hslots]
  constructor
  · rintro (⟨-, hfits⟩ | ⟨p, hp, habove⟩)
    · exact eq_nil_of_fits_nil hfits
    · have hnot : p.isSubtype (b.withGenerics hs) = false := not_parent_isSubtype hr hget hp rfl
      rw [hnot] at habove
      cases habove
  · rintro rfl
    exact .inl ⟨rfl, rfl⟩

theorem isSubtype_withGenerics_iff (hr : r.Reached) (hget : r.get? b.name = some b) (hslots : b.generics = []) :
    (b.withGenerics gs).isSubtype (b.withGenerics hs) = true ↔
      hs = [] ∨ List.Forall₂ (fun g h => g.isSubtype h = true) gs hs := by
  have hparent : (b.withGenerics gs).parent = some b := rfl
  have hdirect : fits (b.withGenerics gs).generics (b.withGenerics hs).generics = fits gs hs := rfl
  rw [isSubtype_iff, hdirect, fits_iff]
  constructor
  · rintro (⟨-, hfits⟩ | ⟨p, hp, habove⟩)
    · exact .inr hfits
    · obtain rfl : b = p := Option.some.inj (hparent.symm.trans hp)
      exact .inl ((registered_isSubtype_withGenerics_iff hr hget hslots).mp habove)
  · rintro (hnil | hfits)
    · exact .inr ⟨b, hparent, (registered_isSubtype_withGenerics_iff hr hget hslots).mpr hnil⟩
    · exact .inl ⟨rfl, hfits⟩

theorem of_of_arbitrary (harbitrary : b.traits.arbitraryGenerics = true) (gs : List Ty) :
    b.of gs = .ok (b.withGenerics gs) :=
  of_eq_ok_iff.mpr ⟨.inl harbitrary, by simp [harbitrary]⟩

end Ty

namespace Registry

variable {r : Registry}

theorem exists_tuple (hstart : Registry.builtin = .ok r) :
    ∃ tuple, r.resolve "Tuple" = .ok tuple ∧ tuple.traits.arbitraryGenerics = true := by
  obtain ⟨start, hbuiltin, tuple, htuple, harbitrary⟩ : ∃ start, Registry.builtin = .ok start ∧
      ∃ tuple, start.resolve "Tuple" = .ok tuple ∧ tuple.traits.arbitraryGenerics = true := ⟨_, rfl, _, rfl, rfl⟩
  obtain rfl : r = start := Except.ok.inj (hstart.symm.trans hbuiltin)
  exact ⟨tuple, htuple, harbitrary⟩

/-- **Tuples are compared component by component, and all of them are below the unit type.** For any components, one
tuple is a subtype of another one just when the other one is the unit type, or when there are as many components and
each is a subtype of the one in its place. So tuples of different arity are comparable only if the greater one is the
unit type, which equals the registered tuple. -/
theorem tuple_subtype_iff_componentwise (hstart : Registry.builtin = .ok r) (gs hs : List Ty) :
    ∃ tuple unit a b, r.resolve "Tuple" = .ok tuple ∧ r.unitType = .ok unit ∧ tuple.of gs = .ok a ∧
      tuple.of hs = .ok b ∧
      (a.isSubtype b = true ↔ hs = [] ∨ List.Forall₂ (fun g h => g.isSubtype h = true) gs hs) ∧
      (gs.length ≠ hs.length → (a.isSubtype b = true ↔ b = unit)) ∧
      a.isSubtype tuple = true ∧ a.isSubtype unit = true ∧ (unit == tuple) = true := by
  have hr : r.Reached := Reached.empty.registerAll hstart
  obtain ⟨tuple, htuple, harbitrary⟩ := exists_tuple hstart
  have hget : r.get? tuple.name = some tuple := by
    have hfound := resolve_eq_ok_iff.mp htuple
    rwa [name_of_get? hfound]
  have hslots : tuple.generics = [] := slotFree_builtin hstart _ _ hget harbitrary
  have hunit : r.unitType = .ok (tuple.withGenerics []) := by
    rw [unitType, htuple]
    exact Ty.of_of_arbitrary harbitrary []
  refine ⟨tuple, tuple.withGenerics [], tuple.withGenerics gs, tuple.withGenerics hs, htuple, hunit,
    Ty.of_of_arbitrary harbitrary gs, Ty.of_of_arbitrary harbitrary hs,
    Ty.isSubtype_withGenerics_iff hr hget hslots, ?_, ?_, ?_, ?_⟩
  · intro hlength
    rw [Ty.isSubtype_withGenerics_iff hr hget hslots]
    constructor
    · rintro (rfl | hfits)
      · rfl
      · exact absurd hfits.length_eq hlength
    · intro heq
      have hnil : hs = [] := congrArg Ty.generics heq
      exact .inl hnil
  · exact Ty.isSubtype_of_parent rfl (Ty.isSubtype_refl tuple)
  · exact (Ty.isSubtype_withGenerics_iff hr hget hslots).mpr (.inl rfl)
  · rw [Ty.beq_iff, hslots]
    exact ⟨rfl, .nil⟩

/-- A pair of an integer and a text is below a pair of a float and a text. The unit type is not below a tuple of one
integer. -/
theorem tuple_subtype_iff_componentwise_pair :
    ∃ r, Registry.builtin = .ok r ∧ ∃ tuple int float text : Ty, r.resolve "Tuple" = .ok tuple ∧
      r.resolve "Int" = .ok int ∧ r.resolve "Float" = .ok float ∧ r.resolve "Text" = .ok text ∧
      (∃ a b, tuple.of [int, text] = .ok a ∧ tuple.of [float, text] = .ok b ∧ a.isSubtype b = true) ∧
      ∃ a b, tuple.of [] = .ok a ∧ tuple.of [int] = .ok b ∧ a.isSubtype b = false := by
  obtain ⟨r, hstart, int, float, text, hint, hfloat, htext, hbelow⟩ :
      ∃ r, Registry.builtin = .ok r ∧ ∃ int float text : Ty, r.resolve "Int" = .ok int ∧
        r.resolve "Float" = .ok float ∧ r.resolve "Text" = .ok text ∧ int.isSubtype float = true :=
    ⟨_, rfl, _, _, _, rfl, rfl, rfl, rfl⟩
  obtain ⟨tuple, unit, a, b, htuple, -, ha, hb, hwider, -⟩ :=
    tuple_subtype_iff_componentwise hstart [int, text] [float, text]
  obtain ⟨tuple', unit', a', b', htuple', -, ha', hb', hlonger, -⟩ := tuple_subtype_iff_componentwise hstart [] [int]
  obtain rfl : tuple = tuple' := Except.ok.inj (htuple.symm.trans htuple')
  refine ⟨r, hstart, tuple, int, float, text, htuple, hint, hfloat, htext, ⟨a, b, ha, hb, ?_⟩, a', b', ha', hb', ?_⟩
  · exact hwider.mpr (.inr (.cons hbelow (.cons (Ty.isSubtype_refl text) .nil)))
  · have hnot : ¬ a'.isSubtype b' = true := by simp [hlonger]
    simpa using hnot

/-- A tuple of one integer is below the unit type, although their lengths differ. -/
theorem unit_above_single :
    ∃ r, Registry.builtin = .ok r ∧ ∃ tuple int a b : Ty, r.resolve "Tuple" = .ok tuple ∧
      r.resolve "Int" = .ok int ∧ tuple.of [int] = .ok a ∧ tuple.of [] = .ok b ∧ r.unitType = .ok b ∧
      a.isSubtype b = true ∧ ¬ List.Forall₂ (fun g h => g.isSubtype h = true) [int] [] :=
  ⟨_, rfl, _, _, _, _, rfl, rfl, rfl, rfl, rfl, rfl, nofun⟩

end Registry

end BlockGraph
