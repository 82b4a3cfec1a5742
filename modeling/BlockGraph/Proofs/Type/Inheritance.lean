import BlockGraph.Proofs.Type.Lattice

/-!
# What types of one name have in common

An instance takes over the traits of the type that it is made from, but for abstractness and free arity, and nothing
else changes traits than new names for the slots. So what is left without these is the same for all types of one name.
A type is `Kindred` to a registry when this holds of it and of all that occurs in it.

* `Registry.Built.heir`: a type that is built from a registry has the common traits of the registered type of its
  name, and its generics too if it counts as registered itself.
-/

namespace BlockGraph

/-- The traits that all types of one name share. -/
def Traits.common {V : Type} (t : Traits V) : Traits V := { t.inherited with slotNames := [] }

/-- The type has the traits that the types of its name share with the registered one. -/
structure Ty.Heir (t b : Ty) : Prop where
  common : t.traits.common = b.traits.common
  generics : t.isBase = true → t.generics = b.generics

namespace Ty.Heir

variable {t u b : Ty}

theorem refl (b : Ty) : b.Heir b := ⟨rfl, fun _ => rfl⟩

theorem typeText (h : t.Heir b) : t.traits.typeText = b.traits.typeText := (Traits.mk.inj h.common).2.2.2.2.2.2.1

theorem renderers (h : t.Heir b) : t.traits.renderers = b.traits.renderers := (Traits.mk.inj h.common).2.2.2.2.2.2.2

theorem withGenerics (h : t.Heir b) (generics : List Ty) : (t.withGenerics generics).Heir b :=
  ⟨h.common, fun hbase => absurd hbase (by simp [Ty.withGenerics])⟩

end Ty.Heir

/-- The type and all that occurs in it take after the registered types of their names. -/
inductive Ty.Kindred (r : Registry) : Ty → Prop
  | intro {t b : Ty} (hget : r.get? t.name = some b) (hheir : t.Heir b) (hargs : ∀ g ∈ t.generics, Kindred r g)
      (habove : ∀ p, t.parent = some p → Kindred r p) : Kindred r t

namespace Ty.Kindred

variable {r r' : Registry} {t u p g : Ty}

theorem heir (h : Kindred r t) : ∃ b, r.get? t.name = some b ∧ t.Heir b := by
  cases h with
  | intro hget hheir _ _ => exact ⟨_, hget, hheir⟩

theorem generic (h : Kindred r t) (hg : g ∈ t.generics) : Kindred r g := by
  cases h with
  | intro _ _ hargs _ => exact hargs g hg

theorem parent (h : Kindred r t) (hp : t.parent = some p) : Kindred r p := by
  cases h with
  | intro _ _ _ habove => exact habove p hp

theorem mono (hr : ∀ name b, r.get? name = some b → r'.get? name = some b) (h : Kindred r t) : Kindred r' t := by
  induction h with
  | intro hget hheir _ _ ihargs ihabove => exact .intro (hr _ _ hget) hheir ihargs ihabove

theorem congr (h : Kindred r t) (hname : u.name = t.name) (hgenerics : u.generics = t.generics)
    (hparent : u.parent = t.parent) (hcommon : u.traits.common = t.traits.common) (hbase : u.isBase = t.isBase) :
    Kindred r u := by
  cases h with
  | intro hget hheir hargs habove =>
    refine .intro (by rw [hname, hget]) ⟨hcommon.trans hheir.common, ?_⟩ (hgenerics ▸ hargs) (hparent ▸ habove)
    rw [hbase, hgenerics]
    exact hheir.generics

theorem of {generics : List Ty} (h : Kindred r t) (hargs : ∀ g ∈ generics, Kindred r g)
    (hof : t.of generics = .ok u) : Kindred r u := by
  rcases of_cases hof with rfl | ⟨rfl, -⟩
  · exact h
  · obtain ⟨b, hget, hheir⟩ := h.heir
    refine .intro hget (hheir.withGenerics generics) hargs ?_
    intro p hp
    obtain rfl : t = p := Option.some.inj hp
    exact h

end Ty.Kindred

namespace Registry

variable {r : Registry} {t : Ty}

theorem Reached.kindred (hr : r.Reached) : ∀ name b, r.get? name = some b → Ty.Kindred r b := by
  induction hr with
  | empty => intro name b h; cases h
  | @register r r' decl t _ h ih =>
    obtain ⟨-, parent, generics, hparent, hgenerics, ht, -⟩ := register_eq_ok h
    have hmono := get?_of_register h
    have hresolve : ∀ name t, r.resolve name = .ok t → Ty.Kindred r t :=
      fun name t hname => ih name t (resolve_eq_ok_iff.mp hname)
    intro name b hb
    rw [get?_register h] at hb
    split at hb
    · cases hb
      refine .intro (by rw [get?_register h, ht]; exact if_pos rfl) (.refl t) ?_ ?_
      · intro g hg
        rw [ht] at hg
        have hformer : Ty.Kindred r g :=
          fromPortables_induction hresolve (fun _ _ _ hu hargs => hu.of hargs) _ _ hgenerics g hg
        exact hformer.mono hmono
      · intro p hp
        rw [ht] at hp
        obtain rfl : parent = some p := hp
        obtain ⟨above, habove⟩ := resolve_of_mapM hparent
        exact (hresolve above p habove).mono hmono
    · exact (ih name b hb).mono hmono

theorem Built.kindred (hr : r.Reached) (h : r.Built t) : Ty.Kindred r t := by
  have hresolve : ∀ name t, r.resolve name = .ok t → Ty.Kindred r t :=
    fun name t hname => hr.kindred name t (resolve_eq_ok_iff.mp hname)
  induction h with
  | resolve h => exact hresolve _ _ h
  | fromPortable h => exact fromPortable_induction hresolve (fun _ _ _ hu hargs => hu.of hargs) _ _ h
  | of _ _ h iht ihargs => exact iht.of ihargs h
  | annotate annotations _ ih => exact ih.congr rfl rfl rfl rfl rfl
  | renameSlots names _ ih => exact ih.congr rfl rfl rfl rfl rfl
  | parent _ hp ih => exact ih.parent hp
  | generic _ hg ih => exact ih.generic hg

/-- **A type takes after the registered type of its name**, however it is built. -/
theorem Built.heir (hr : r.Reached) (h : r.Built t) : ∃ b, r.get? t.name = some b ∧ t.Heir b := (h.kindred hr).heir

end Registry

end BlockGraph
