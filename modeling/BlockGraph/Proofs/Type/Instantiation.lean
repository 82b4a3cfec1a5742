import BlockGraph.Proofs.Type.RoundTrip

/-!
# What can be instantiated, and what comes out

An instance is made in one of three ways: a type that takes arbitrary generics takes them as they are, a type that is
asked for no generics or for its own is not changed, and otherwise each generic is compared with its slot. All three
come to one condition, `Ty.Accepts`, and the instance is below the type that it is made from.

* `Ty.of_eq_ok_iff`: what is accepted, with the instance that comes out;
* `Ty.Accepts.of_narrowed`: what an instance accepts is accepted by the type that the instance is made from;
* `Registry.instantiation_exact`: all this for the types of a registry.
-/

namespace BlockGraph

namespace Ty

variable {r : Registry} {t u v : Ty} {gs hs : List Ty}

/-- The generics that a type can be instantiated with: any at all if it takes arbitrary ones, none, or as many as it
has slots, each of them below its slot. -/
def Accepts (t : Ty) (gs : List Ty) : Prop :=
  t.traits.arbitraryGenerics = true ∨ gs = [] ∨ List.Forall₂ (fun g slot => g.isSubtype slot = true) gs t.generics

/-! ### One instance -/

theorem forall₂_isSubtype_of_beqAll (h : beqAll gs t.generics = true) :
    List.Forall₂ (fun g slot => g.isSubtype slot = true) gs t.generics :=
  (fits_iff _ _).mp (fits_of_forall₂_beq ((beqAll_iff _ _).mp h))

theorem of_eq_ok_iff :
    t.of gs = .ok u ↔
      t.Accepts gs ∧
        u = if t.traits.arbitraryGenerics = false ∧ (gs = [] ∨ beqAll gs t.generics = true) then t
          else t.withGenerics gs := by
  by_cases hshort : t.traits.arbitraryGenerics = false ∧ (gs = [] ∨ beqAll gs t.generics = true)
  · have haccepts : t.Accepts gs := .inr (hshort.2.imp_right forall₂_isSubtype_of_beqAll)
    have hof : t.of gs = .ok t := by
      unfold of
      simp only [List.isEmpty_iff, Bool.and_eq_true, Bool.not_eq_true', Bool.or_eq_true, if_pos hshort]
    rw [hof, if_pos hshort, Except.ok.injEq]
    exact ⟨fun h => ⟨haccepts, h.symm⟩, fun h => h.2.symm⟩
  · have hof : t.of gs = if t.traits.arbitraryGenerics = true ∨ fits gs t.generics = true then .ok (t.withGenerics gs)
        else .error (.incompatibleGenerics t.typeText (t.withGenerics gs).typeText) := by
      unfold of
      simp only [List.isEmpty_iff, Bool.and_eq_true, Bool.not_eq_true', Bool.or_eq_true, if_neg hshort]
    have haccepts : t.Accepts gs ↔ t.traits.arbitraryGenerics = true ∨ fits gs t.generics = true := by
      rw [Accepts, fits_iff]
      refine or_congr_right' fun harbitrary => or_iff_right fun hnil => hshort ⟨?_, .inl hnil⟩
      simpa using harbitrary
    rw [hof, if_neg hshort, haccepts]
    split
    · next h => exact ⟨fun hu => ⟨h, (Except.ok.inj hu).symm⟩, fun hu => congrArg _ hu.2.symm⟩
    · next h => exact ⟨nofun, fun hu => absurd hu.1 h⟩

theorem of_eq_error (h : ¬ t.Accepts gs) :
    t.of gs = .error (.incompatibleGenerics t.typeText (t.withGenerics gs).typeText) := by
  unfold of
  have hfixed : t.traits.arbitraryGenerics = false := by simpa using fun harbitrary => h (.inl harbitrary)
  have hne : gs ≠ [] := fun hnil => h (.inr (.inl hnil))
  have hfits : fits gs t.generics = false := by
    simpa using fun hfits => h (.inr (.inr ((fits_iff _ _).mp hfits)))
  have hequal : beqAll gs t.generics = false := by
    simpa using fun hequal => h (.inr (.inr (forall₂_isSubtype_of_beqAll hequal)))
  simp [hfixed, hne, hfits, hequal]

theorem exists_of_eq_ok_iff : (∃ u, t.of gs = .ok u) ↔ t.Accepts gs := by
  simp only [of_eq_ok_iff, exists_and_left, exists_eq, and_true]

theorem isSubtype_of_of (h : t.of gs = .ok u) : u.isSubtype t = true := by
  obtain ⟨-, rfl⟩ := of_eq_ok_iff.mp h
  split
  · exact isSubtype_refl t
  · exact isSubtype_of_parent rfl (isSubtype_refl t)

theorem name_of_of (h : t.of gs = .ok u) : u.name = t.name := by
  obtain ⟨-, rfl⟩ := of_eq_ok_iff.mp h
  split <;> rfl

theorem of_nil (hfixed : t.traits.arbitraryGenerics = false) : t.of [] = .ok t :=
  of_eq_ok_iff.mpr ⟨.inr (.inl rfl), by simp [hfixed]⟩

theorem generics_of_of (h : t.of gs = .ok u) (hasked : t.traits.arbitraryGenerics = true ∨ gs ≠ []) :
    List.Forall₂ (fun g g' => (g == g') = true) u.generics gs := by
  have haccepts : t.traits.arbitraryGenerics = true ∨ fits gs t.generics = true := by
    rcases exists_of_eq_ok_iff.mp ⟨u, h⟩ with harbitrary | hnil | hfits
    · exact .inl harbitrary
    · exact hasked.imp_right fun hne => absurd hnil hne
    · exact .inr ((fits_iff _ _).mpr hfits)
  obtain ⟨u', hof, -, hgenerics⟩ := of_eq_ok haccepts
  obtain rfl : u = u' := Except.ok.inj (h.symm.trans hof)
  exact hgenerics

/-! ### Instances of instances -/

/-- What is accepted by an instance is accepted by the type that the instance is made from: generics that are below
those of the instance are below its slots. -/
theorem Accepts.of_narrowed (hgs : ∀ g ∈ gs, Formed r g) (hhs : ∀ h ∈ hs, Formed r h)
    (hof : t.of gs = .ok u) (hne : hs ≠ []) (h : u.Accepts hs) : t.Accepts hs := by
  obtain ⟨haccepts, rfl⟩ := of_eq_ok_iff.mp hof
  split at h
  · exact h
  · have hhs' : List.Forall₂ (fun g slot => g.isSubtype slot = true) hs gs := by
      rcases h with harbitrary | hnil | hfits
      · cases harbitrary
      · exact absurd hnil hne
      · exact hfits
    rcases haccepts with harbitrary | rfl | hfits
    · exact .inl harbitrary
    · exact absurd (List.forall₂_nil_right_iff.mp hhs') hne
    · refine .inr (.inr (forall₂_trans_of_mem ?_ hhs' hfits))
      intro x hx y hy z _ hxy hyz
      exact (hhs x hx).isSubtype_trans (hgs y hy) hxy hyz

theorem of_of_beq (hgs : ∀ g ∈ gs, Formed r g) (hhs : ∀ h ∈ hs, Formed r h) (hne : hs ≠ [])
    (hof : t.of gs = .ok u) (hof' : u.of hs = .ok v) : ∃ w, t.of hs = .ok w ∧ (w == v) = true := by
  have haccepts : u.Accepts hs := exists_of_eq_ok_iff.mp ⟨v, hof'⟩
  obtain ⟨w, hw⟩ := exists_of_eq_ok_iff.mpr (haccepts.of_narrowed hgs hhs hof hne)
  refine ⟨w, hw, (beq_iff w v).mpr ⟨?_, ?_⟩⟩
  · rw [name_of_of hw, name_of_of hof', name_of_of hof]
  · have hwgenerics := generics_of_of hw (.inr hne)
    have hvgenerics := generics_of_of hof' (.inr hne)
    refine forall₂_trans_of_mem ?_ hwgenerics hvgenerics.flip
    intro x _ y _ z _ hxy hzy
    exact beq_trans hxy (beq_symm hzy)

end Ty

namespace Registry

variable {r : Registry}

/-- **A type can be instantiated just with what it accepts**, and anything else is refused as incompatible. The instance
is below the type, has its name and the generics that were asked for, or is the type itself where none were asked for
of a type of fixed arity. To narrow an instance is to instantiate the type anew. The type may be any; it is the
generics that are compared with one another, and have to be built from the registry. -/
theorem instantiation_exact (hr : r.Reached) (t : Ty) {gs : List Ty} (hgs : ∀ g ∈ gs, r.Built g) :
    ((∃ u, t.of gs = .ok u) ↔
      t.traits.arbitraryGenerics = true ∨ gs = [] ∨
        List.Forall₂ (fun g slot => g.isSubtype slot = true) gs t.generics) ∧
    (¬ (∃ u, t.of gs = .ok u) →
      t.of gs = .error (.incompatibleGenerics t.typeText (t.withGenerics gs).typeText)) ∧
    (∀ u, t.of gs = .ok u →
      u.isSubtype t = true ∧ u.name = t.name ∧
      (t.traits.arbitraryGenerics = true ∨ gs ≠ [] →
        List.Forall₂ (fun g g' => (g == g') = true) u.generics gs) ∧
      (t.traits.arbitraryGenerics = false → gs = [] → u = t)) ∧
    ∀ hs u v, hs ≠ [] → (∀ h ∈ hs, r.Built h) → t.of gs = .ok u → u.of hs = .ok v →
      ∃ w, t.of hs = .ok w ∧ (w == v) = true := by
  refine ⟨Ty.exists_of_eq_ok_iff, ?_, ?_, ?_⟩
  · intro hnone
    exact Ty.of_eq_error fun haccepts => hnone (Ty.exists_of_eq_ok_iff.mpr haccepts)
  · intro u hu
    refine ⟨Ty.isSubtype_of_of hu, Ty.name_of_of hu, Ty.generics_of_of hu, ?_⟩
    rintro hfixed rfl
    exact (Except.ok.inj ((Ty.of_nil hfixed).symm.trans hu)).symm
  · intro hs u v hne hhs hu hv
    exact Ty.of_of_beq (fun g hg => (hgs g hg).formed hr) (fun h hh => (hhs h hh).formed hr) hne hu hv

namespace Numeric

/-- A box takes integers in the place of floats and refuses tuples. The tuple of a box, narrowed to a box of integers,
is the tuple of a box of integers, although its parent is another one. -/
theorem instantiation_exact_boxes :
    boxes.Reached ∧ (∃ u, box.of [int] = .ok u ∧ u.isSubtype box = true) ∧
    box.of [tuple] = .error (.incompatibleGenerics "Box<Float>" "Box<Tuple>") ∧ box.of [] = .ok box ∧
    tuple.of [box] = .ok tupleOfBox ∧ tupleOfBox.of [boxOfInt] = .ok (tupleOfBox.withGenerics [boxOfInt]) ∧
    ∃ w, tuple.of [boxOfInt] = .ok w ∧ (w == tupleOfBox.withGenerics [boxOfInt]) = true ∧ w.parent = some tuple := by
  have hint : boxes.Built int := .resolve (show boxes.resolve "Int" = .ok int from rfl)
  have htuple : boxes.Built tuple := .resolve (show boxes.resolve "Tuple" = .ok tuple from rfl)
  have hbox : boxes.Built box := .resolve (show boxes.resolve "Box" = .ok box from rfl)
  have hboxOfInt : boxes.Built boxOfInt := .of hbox (List.forall_mem_singleton.mpr hint) rfl
  obtain ⟨haccepted, -, hinstance, -⟩ :=
    instantiation_exact reached_boxes box (List.forall_mem_singleton.mpr hint)
  obtain ⟨hrefused, herror, -, -⟩ :=
    instantiation_exact reached_boxes box (List.forall_mem_singleton.mpr htuple)
  obtain ⟨-, -, -, hnarrowed⟩ := instantiation_exact reached_boxes tuple (List.forall_mem_singleton.mpr hbox)
  obtain ⟨u, hu⟩ := haccepted.mpr (.inr (.inr (.cons rfl .nil)))
  have hnone : ¬ ∃ u, box.of [tuple] = .ok u := by
    rw [hrefused]
    rintro (h | h | h)
    · cases h
    · cases h
    · cases h with
      | cons h _ => cases h
  obtain ⟨w, hw, hequal⟩ := hnarrowed [boxOfInt] tupleOfBox (tupleOfBox.withGenerics [boxOfInt])
    (List.cons_ne_nil _ _) (List.forall_mem_singleton.mpr hboxOfInt) rfl rfl
  obtain rfl : tuple.withGenerics [boxOfInt] = w := Except.ok.inj hw
  exact ⟨reached_boxes, ⟨u, hu, (hinstance u hu).1⟩, herror hnone, rfl, rfl, rfl, _, hw, hequal, rfl⟩

end Numeric

end Registry

end BlockGraph
