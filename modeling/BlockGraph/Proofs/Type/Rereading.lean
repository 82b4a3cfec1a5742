import BlockGraph.Proofs.Type.Antisymmetry
import BlockGraph.Proofs.Type.Instantiation

/-!
# What reading back changes

A stored type is read back from the registered type of its name. What comes out equals the type that was stored, but
equality does not look at the traits of a type, nor at whether it is a registered one. Here the two are compared in
these respects.

One step of reading changes a type only if it is registered and takes arbitrary generics (`Ty.Bare`): asked for no
generics, such a type does not give itself but its instance without generics. Everything else keeps its traits and stays
registered or an instance, because an instance of a type of fixed arity never has the generics of the registered type
(`Assembled.differs`).

* `Registry.Reached.slotsSettled`: the generics of registered types are read back as themselves;
* `Registry.Assembled.read_cases`: what one step of reading changes.
-/

namespace BlockGraph

namespace Ty

/-! ### Portable forms -/

theorem portables_eq_map (ts : List Ty) : portables ts = ts.map portable := by
  induction ts with
  | nil => rfl
  | cons t ts ih => rw [portables, ih, List.map_cons]

theorem portable_eq (t : Ty) : t.portable = .mk t.name (t.generics.map portable) := by
  cases t
  rw [portable, portables_eq_map]

/-- A registered type that takes arbitrary generics. -/
def Bare (t : Ty) : Prop := t.isBase = true ∧ t.traits.arbitraryGenerics = true

end Ty

namespace Registry

variable {r : Registry} {t u b g : Ty} {ts us : List Ty}

/-! ### What was read is read back as itself -/

/-- The stored form of the first type is read back as the second. -/
def Reads (r : Registry) (t u : Ty) : Prop := r.fromPortable t.portable = .ok u

theorem Reads.unique {u' : Ty} (h : r.Reads t u) (h' : r.Reads t u') : u = u' := Except.ok.inj (h.symm.trans h')

theorem fromPortables_eq_ok_iff : r.fromPortables (ts.map Ty.portable) = .ok us ↔ List.Forall₂ r.Reads ts us := by
  induction ts generalizing us with
  | nil =>
    rw [List.map_nil, fromPortables, List.forall₂_nil_left_iff, Except.ok.injEq]
    exact eq_comm
  | cons t ts ih =>
    rw [List.map_cons, fromPortables, bind_eq_ok_iff]
    constructor
    · rintro ⟨u, hu, h⟩
      obtain ⟨rest, hrest, h⟩ := bind_eq_ok_iff.mp h
      cases h
      exact .cons hu (ih.mp hrest)
    · intro h
      cases h with
      | cons hu hrest => exact ⟨_, hu, bind_eq_ok_iff.mpr ⟨_, ih.mpr hrest, rfl⟩⟩

theorem reads_iff :
    r.Reads t u ↔ ∃ b us, r.get? t.name = some b ∧ List.Forall₂ r.Reads t.generics us ∧ b.of us = .ok u := by
  rw [Reads, Ty.portable_eq, fromPortable, bind_eq_ok_iff]
  constructor
  · rintro ⟨b, hb, h⟩
    obtain ⟨us, hus, h⟩ := bind_eq_ok_iff.mp h
    exact ⟨b, us, resolve_eq_ok_iff.mp hb, fromPortables_eq_ok_iff.mp hus, h⟩
  · rintro ⟨b, us, hb, hus, h⟩
    exact ⟨b, resolve_eq_ok_iff.mpr hb, bind_eq_ok_iff.mpr ⟨us, fromPortables_eq_ok_iff.mpr hus, h⟩⟩

/-- The slots of the registered types are read back as themselves. -/
def SlotsSettled (r : Registry) : Prop := ∀ name b, r.get? name = some b → ∀ g ∈ b.generics, r.Reads g g

theorem SlotsSettled.of (hr : r.SlotsSettled) (hget : r.get? b.name = some b) (hus : ∀ u ∈ us, r.Reads u u)
    (h : b.of us = .ok u) : r.Reads u u := by
  obtain ⟨-, hu⟩ := Ty.of_eq_ok_iff.mp h
  split at hu
  · next hfixed =>
    rw [hu, reads_iff]
    refine ⟨b, b.generics, hget, List.forall₂_same.mpr (hr _ _ hget), Ty.of_eq_ok_iff.mpr ?_⟩
    have hself : Ty.beqAll b.generics b.generics = true :=
      (Ty.beqAll_iff _ _).mpr (List.forall₂_same.mpr fun g _ => Ty.beq_refl g)
    exact ⟨.inr (.inr (Ty.forall₂_isSubtype_of_beqAll hself)), (if_pos ⟨hfixed.1, .inr hself⟩).symm⟩
  · rw [reads_iff]
    refine ⟨b, us, ?_, ?_, h⟩
    · rw [hu]
      exact hget
    · rw [hu]
      exact List.forall₂_same.mpr hus

mutual

theorem SlotsSettled.fromPortable (hr : r.SlotsSettled) :
    ∀ (p : Portable) (u : Ty), r.fromPortable p = .ok u → r.Reads u u
  | .mk name generics, u, h => by
    rw [Registry.fromPortable, bind_eq_ok_iff] at h
    obtain ⟨b, hb, h⟩ := h
    obtain ⟨us, hus, h⟩ := bind_eq_ok_iff.mp h
    have hget := resolve_eq_ok_iff.mp hb
    rw [← name_of_get? hget] at hget
    exact hr.of hget (SlotsSettled.fromPortables hr generics us hus) h

theorem SlotsSettled.fromPortables (hr : r.SlotsSettled) :
    ∀ (ps : List Portable) (us : List Ty), r.fromPortables ps = .ok us → ∀ u ∈ us, r.Reads u u
  | [], us, h => by
    rw [Registry.fromPortables] at h
    cases h
    simp
  | p :: ps, us, h => by
    rw [Registry.fromPortables, bind_eq_ok_iff] at h
    obtain ⟨first, hfirst, h⟩ := h
    obtain ⟨rest, hrest, h⟩ := bind_eq_ok_iff.mp h
    cases h
    rw [List.forall_mem_cons]
    exact ⟨SlotsSettled.fromPortable hr p first hfirst, SlotsSettled.fromPortables hr ps rest hrest⟩

end

theorem Reached.slotsSettled (hr : r.Reached) : r.SlotsSettled := by
  induction hr with
  | empty => intro name b h; cases h
  | register _ h ih =>
    obtain ⟨-, parent, generics, -, hgenerics, ht, -⟩ := register_eq_ok h
    have hmono := get?_of_register h
    intro name b hb g hg
    rw [get?_register h] at hb
    split at hb
    · cases hb
      rw [ht] at hg
      exact fromPortable_mono hmono _ _ (ih.fromPortables _ _ hgenerics g hg)
    · exact fromPortable_mono hmono _ _ (ih name b hb g hg)

/-! ### Names resolved and instantiated -/

/-- A type that is obtained by resolving names and by instantiation. -/
inductive Assembled (r : Registry) : Ty → Prop
  | resolve {name : String} {t : Ty} (h : r.resolve name = .ok t) : Assembled r t
  | of {t u : Ty} {generics : List Ty} (ht : Assembled r t) (hargs : ∀ g ∈ generics, Assembled r g)
      (h : t.of generics = .ok u) : Assembled r u

theorem assembled_of_fromPortable {p : Portable} (h : r.fromPortable p = .ok t) : r.Assembled t :=
  fromPortable_induction (fun _ _ => .resolve) (fun _ _ _ => .of) p t h

/-- What an assembled type takes from the registered type of its name. -/
structure Stems (r : Registry) (t b : Ty) : Prop where
  get : r.get? t.name = some b
  base : t.isBase = true → t = b
  traits : t.isBase = false → t.traits = b.traits.inherited

theorem Stems.withGenerics (h : r.Stems t b) (gs : List Ty) : r.Stems (t.withGenerics gs) b := by
  refine ⟨h.get, nofun, fun _ => ?_⟩
  show t.traits.inherited = b.traits.inherited
  cases hbase : t.isBase with
  | true => rw [h.base hbase]
  | false => rw [h.traits hbase]; rfl

namespace Assembled

theorem built (h : r.Assembled t) : r.Built t := by
  induction h with
  | resolve h => exact .resolve h
  | of _ _ h iht ihargs => exact .of iht ihargs h

theorem stems (hr : r.Reached) (h : r.Assembled t) : ∃ b, r.Stems t b := by
  induction h with
  | @resolve name t h =>
    have hget := resolve_eq_ok_iff.mp h
    have hbase := hr.orderly.base t (List.mem_of_find?_eq_some hget)
    rw [← name_of_get? hget] at hget
    exact ⟨t, hget, fun _ => rfl, fun hinst => by simp [hbase] at hinst⟩
  | of _ _ h iht _ =>
    obtain ⟨b, hb⟩ := iht
    rcases Ty.of_cases h with rfl | ⟨rfl, -⟩
    · exact ⟨b, hb⟩
    · exact ⟨b, hb.withGenerics _⟩

theorem generic (hr : r.Reached) (h : r.Assembled t) (hg : g ∈ t.generics) : r.Assembled g := by
  induction h with
  | resolve h =>
    have hget := resolve_eq_ok_iff.mp h
    exact assembled_of_fromPortable (hr.slotsSettled _ _ hget g hg)
  | of _ hargs h iht _ =>
    rcases Ty.of_cases h with rfl | ⟨rfl, -⟩
    · exact iht hg
    · exact hargs g hg

/-- An instance of a type of fixed arity does not have the generics of the registered type. Otherwise they would be
below those that it was made from and above them as well, hence equal to them, and no instance would have been made. -/
theorem differs (hr : r.Reached) (hfree : r.SlotFree) (ht : r.Assembled t) (hb : r.Stems t b)
    (hinst : t.isBase = false) (hfixed : b.traits.arbitraryGenerics = false) :
    t.generics ≠ [] ∧ Ty.beqAll t.generics b.generics = false := by
  induction ht with
  | resolve h =>
    have hbase := hr.orderly.base _ (List.mem_of_find?_eq_some (resolve_eq_ok_iff.mp h))
    simp [hbase] at hinst
  | @of p t gs hp hargs h ihp _ =>
    obtain ⟨haccepts, ht⟩ := Ty.of_eq_ok_iff.mp h
    split at ht
    · subst ht
      exact ihp hb hinst
    · next hnew =>
      subst ht
      have hpb : r.Stems p b := by
        obtain ⟨b', hb'⟩ := hp.stems hr
        obtain rfl : b' = b := Option.some.inj (hb'.get.symm.trans hb.get)
        exact hb'
      have harity : p.traits.arbitraryGenerics = false := by
        cases hbase : p.isBase with
        | true => rw [hpb.base hbase, hfixed]
        | false => rw [hpb.traits hbase]; rfl
      simp only [harity, true_and, not_or] at hnew
      refine ⟨hnew.1, Bool.eq_false_iff.mpr fun hequal => hnew.2 ?_⟩
      have hfits : Ty.fits gs p.generics = true := by
        rcases haccepts with harbitrary | hnil | hfits
        · simp [harity] at harbitrary
        · exact absurd hnil hnew.1
        · exact (Ty.fits_iff _ _).mpr hfits
      have hformed : ∀ g ∈ gs, Ty.Formed r g := fun g hg => (hargs g hg).built.formed hr
      have hformed' : ∀ g ∈ p.generics, Ty.Formed r g := fun g hg => (hp.generic hr hg).built.formed hr
      have hslots : ∀ g ∈ b.generics, Ty.Formed r g := fun g hg => (hr.sound _ _ hb.get).generic hg
      have hequal' : Ty.fits b.generics gs = true :=
        Ty.fits_of_forall₂_beq (((Ty.beqAll_iff _ _).mp hequal).flip.imp fun _ _ => Ty.beq_symm)
      have habove : Ty.fits p.generics b.generics = true :=
        ((hp.built.formed hr).fits_registered hpb.get).resolve_left (by simp [hfixed])
      have hback : Ty.fits p.generics gs = true := by
        refine Ty.fits_trans ?_ habove hequal'
        intro x hx y hy z _ hxy hyz
        exact (hformed' x hx).isSubtype_trans (hslots y hy) hxy hyz
      rw [Ty.beqAll_iff]
      refine Ty.forall₂_beq_of_mutual ?_ hfits hback
      intro x hx y hy hxy hyx
      exact (hformed x hx).beq_of_isSubtype_of_isSubtype hr.orderly hfree (hformed' y hy) hxy hyx

/-! ### One step of reading -/

theorem exists_reads (hr : r.Reached) (ht : r.Assembled t) : ∃ u, r.Reads t u := by
  obtain ⟨u, hu, -⟩ := (ht.built.formed hr).fromPortable_portable hr.sound
  exact ⟨u, hu⟩

/-- **What reading changes.** A registered type that takes arbitrary generics is read back as its instance without
generics. Any other type is read back with its own traits around what its generics are read back as. -/
theorem read_cases (hr : r.Reached) (hfree : r.SlotFree) (ht : r.Assembled t) (h : r.Reads t u) :
    (t.Bare ∧ t.generics = [] ∧ u = t.withGenerics []) ∨
    (¬ t.Bare ∧ u.name = t.name ∧ u.isBase = t.isBase ∧ u.traits = t.traits ∧
      List.Forall₂ r.Reads t.generics u.generics) := by
  obtain ⟨b, hb⟩ := ht.stems hr
  obtain ⟨b', us, hget, hus, hof⟩ := reads_iff.mp h
  obtain rfl : b = b' := Option.some.inj (hb.get.symm.trans hget)
  have hname : b.name = t.name := name_of_get? hget
  obtain ⟨-, hu⟩ := Ty.of_eq_ok_iff.mp hof
  have hequals : List.Forall₂ (fun u t => (u == t) = true) us t.generics := by
    refine (Ty.forall₂_imp_of_mem hus fun g hg g' _ hread => ?_).flip
    obtain ⟨u', hu', hbeq⟩ := ((ht.generic hr hg).built.formed hr).fromPortable_portable hr.sound
    rwa [← Reads.unique hread hu'] at hbeq
  cases hbase : t.isBase with
  | true =>
    obtain rfl : t = b := hb.base hbase
    cases harity : t.traits.arbitraryGenerics with
    | true =>
      have hnil : t.generics = [] := hfree _ _ hget harity
      rw [hnil, List.forall₂_nil_left_iff] at hus
      subst hus
      refine .inl ⟨⟨hbase, harity⟩, hnil, ?_⟩
      simpa [harity] using hu
    | false =>
      -- the slots are read back as themselves, so the type is asked for its own generics
      have hslots : us = t.generics := by
        have hself : List.Forall₂ r.Reads t.generics t.generics :=
          List.forall₂_same.mpr (hr.slotsSettled _ _ hget)
        have hunique : Relator.RightUnique r.Reads := fun _ _ _ => Reads.unique
        exact hunique.forall₂ hus hself
      rw [if_pos ⟨harity, .inr ((Ty.beqAll_iff _ _).mpr hequals)⟩] at hu
      subst hu
      refine .inr ⟨fun hbare => ?_, rfl, hbase, rfl, hslots ▸ hus⟩
      simp [Ty.Bare, harity] at hbare
  | false =>
    have hnew : ¬ (b.traits.arbitraryGenerics = false ∧ (us = [] ∨ Ty.beqAll us b.generics = true)) := by
      rintro ⟨hfixed, hshort⟩
      obtain ⟨hne, hdiffer⟩ := ht.differs hr hfree hb hbase hfixed
      rcases hshort with rfl | hequal
      · exact hne (List.forall₂_nil_left_iff.mp hequals)
      · rw [Ty.beqAll_iff] at hequal
        have hsame : Ty.beqAll t.generics b.generics = true := by
          refine (Ty.beqAll_iff _ _).mpr (Ty.forall₂_trans_of_mem ?_ hequals.flip hequal)
          intro x _ y _ z _ hyx hyz
          exact Ty.beq_trans (Ty.beq_symm hyx) hyz
        rw [hdiffer] at hsame
        cases hsame
    rw [if_neg hnew] at hu
    subst hu
    refine .inr ⟨fun hbare => ?_, hname, rfl, (hb.traits hbase).symm, hus⟩
    simp [Ty.Bare, hbase] at hbare

end Assembled

end Registry

end BlockGraph
