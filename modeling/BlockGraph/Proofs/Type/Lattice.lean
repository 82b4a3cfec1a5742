import BlockGraph.Proofs.Type.Relation
import BlockGraph.Type.Registry

/-!
# The types of a registry

A registry is `Reached` when it comes about by registrations, and a type is `Built` from it when it is obtained
by the operations on types. Such types are `Formed`: each is a registered type, up to what subtyping does not
look at, or an instance of another formed type whose generics fit it. Only a registered type takes arbitrary
generics.

* `Registry.Built.formed`: built types are formed, by the invariant `Registry.Sound` of reached registries;
* `Ty.Formed.isSubtype_of_registered`: a formed type is below everything that the registered type of its name
  is below.
-/

namespace BlockGraph

theorem Registry.name_of_get? {r : Registry} {name : String} {b : Ty} (h : r.get? name = some b) : b.name = name := by
  have hname := List.find?_some h
  exact beq_iff_eq.mp hname

theorem Registry.resolve_eq_ok_iff {r : Registry} {name : String} {t : Ty} :
    r.resolve name = .ok t ↔ r.get? name = some t := by
  rw [Registry.resolve]
  cases r.get? name <;> simp

theorem Ty.of_cases {t u : Ty} {generics : List Ty} (h : t.of generics = .ok u) :
    u = t ∨ u = t.withGenerics generics ∧
      (t.traits.arbitraryGenerics = true ∨ fits generics t.generics = true) := by
  rw [Ty.of] at h
  split at h
  · exact .inl (Except.ok.inj h).symm
  · split at h
    · next hfits => exact .inr ⟨(Except.ok.inj h).symm, Bool.or_eq_true .. ▸ hfits⟩
    · cases h

/-- The shape of types that are built from a registry. -/
inductive Ty.Formed (r : Registry) : Ty → Prop
  /-- A registered type. Annotations and names of slots may differ. -/
  | base {t b : Ty} (hget : r.get? t.name = some b) (hgenerics : t.generics = b.generics)
      (hparent : t.parent = b.parent) (harity : t.traits.arbitraryGenerics = b.traits.arbitraryGenerics)
      (hargs : ∀ g ∈ t.generics, Formed r g) (habove : ∀ p, t.parent = some p → Formed r p) : Formed r t
  /-- An instance of its parent. -/
  | inst {t p : Ty} (hparent : t.parent = some p) (hname : t.name = p.name)
      (harity : t.traits.arbitraryGenerics = false)
      (hfits : p.traits.arbitraryGenerics = true ∨ Ty.fits t.generics p.generics = true)
      (hargs : ∀ g ∈ t.generics, Formed r g) (habove : Formed r p) : Formed r t

namespace Ty.Formed

variable {r r' : Registry} {t u p g b c : Ty}

theorem generic (h : Formed r t) (hg : g ∈ t.generics) : Formed r g := by
  cases h with
  | base _ _ _ _ hargs _ => exact hargs g hg
  | inst _ _ _ _ hargs _ => exact hargs g hg

theorem parent (h : Formed r t) (hp : t.parent = some p) : Formed r p := by
  cases h with
  | base _ _ _ _ _ habove => exact habove p hp
  | inst hparent _ _ _ _ habove =>
    obtain rfl := Option.some.inj (hparent.symm.trans hp)
    exact habove

theorem mono (hr : ∀ name b, r.get? name = some b → r'.get? name = some b) (h : Formed r t) : Formed r' t := by
  induction h with
  | base hget hgenerics hparent harity _ _ ihargs ihabove =>
    exact .base (hr _ _ hget) hgenerics hparent harity ihargs ihabove
  | inst hparent hname harity hfits _ _ ihargs ihabove => exact .inst hparent hname harity hfits ihargs ihabove

theorem congr (h : Formed r t) (hname : u.name = t.name) (hgenerics : u.generics = t.generics)
    (hparent : u.parent = t.parent) (harity : u.traits.arbitraryGenerics = t.traits.arbitraryGenerics) :
    Formed r u := by
  cases h with
  | base hget hgenerics' hparent' harity' hargs habove =>
    exact .base (by rw [hname, hget]) (by rw [hgenerics, hgenerics']) (by rw [hparent, hparent'])
      (by rw [harity, harity']) (by rw [hgenerics]; exact hargs) (by rw [hparent]; exact habove)
  | inst hparent' hname' harity' hfits hargs habove =>
    exact .inst (by rw [hparent, hparent']) (by rw [hname, hname']) (by rw [harity, harity'])
      (by rw [hgenerics]; exact hfits) (by rw [hgenerics]; exact hargs) habove

theorem of {generics : List Ty} (h : Formed r t) (hargs : ∀ g ∈ generics, Formed r g)
    (hof : t.of generics = .ok u) : Formed r u := by
  rcases of_cases hof with rfl | ⟨rfl, hfits⟩
  · exact h
  · exact .inst rfl rfl rfl hfits hargs h

theorem registered (h : Formed r t) : ∃ b, r.get? t.name = some b := by
  induction h with
  | base hget _ _ _ _ _ => exact ⟨_, hget⟩
  | inst _ hname _ _ _ _ _ ih => rwa [hname]

/-- With its generics and its parent, a type is below the same types as the registered type of its name. -/
theorem isSubtype_registered (hget : r.get? t.name = some b) (hgenerics : t.generics = b.generics)
    (hparent : t.parent = b.parent) (c : Ty) : b.isSubtype c = t.isSubtype c :=
  isSubtype_congr (Registry.name_of_get? hget) hgenerics.symm hparent.symm c

theorem isSubtype_of_registered (h : Formed r t) (hget : r.get? t.name = some b)
    (hbc : b.isSubtype c = true) : t.isSubtype c = true := by
  induction h with
  | base hget' hgenerics hparent _ _ _ _ _ =>
    obtain rfl := Option.some.inj (hget'.symm.trans hget)
    rw [← isSubtype_registered hget hgenerics hparent, hbc]
  | inst hparent hname _ _ _ _ _ ih => exact isSubtype_of_parent hparent (ih (by rw [← hname, hget]))

end Ty.Formed

namespace Registry

variable {r r' : Registry} {t u g p : Ty}

/-- A registry that comes about by registrations. -/
inductive Reached : Registry → Prop
  | empty : Reached .empty
  | register {r r' : Registry} {decl : TypeDecl} {t : Ty} (hr : Reached r)
      (h : r.register decl = .ok (t, r')) : Reached r'

/-- A type that is obtained from a registry by the operations on types. To instantiate a type with others is to
resolve them all and then to take `of`. -/
inductive Built (r : Registry) : Ty → Prop
  | resolve {name : String} {t : Ty} (h : r.resolve name = .ok t) : Built r t
  | fromPortable {p : Portable} {t : Ty} (h : r.fromPortable p = .ok t) : Built r t
  | of {t u : Ty} {generics : List Ty} (ht : Built r t) (hargs : ∀ g ∈ generics, Built r g)
      (h : t.of generics = .ok u) : Built r u
  | annotate {t : Ty} (annotations : List (String × Json)) (ht : Built r t) : Built r (t.annotate annotations)
  | renameSlots {t : Ty} (names : List String) (ht : Built r t) : Built r (t.renameSlots names)
  | parent {t p : Ty} (ht : Built r t) (hp : t.parent = some p) : Built r p
  | generic {t g : Ty} (ht : Built r t) (hg : g ∈ t.generics) : Built r g

def Sound (r : Registry) : Prop := ∀ name b, r.get? name = some b → Ty.Formed r b

theorem Sound.resolve (hr : r.Sound) {name : String} (h : r.resolve name = .ok t) : Ty.Formed r t :=
  hr name t (resolve_eq_ok_iff.mp h)

mutual

theorem fromPortable_induction {P : Ty → Prop} (hresolve : ∀ name t, r.resolve name = .ok t → P t)
    (hof : ∀ t u generics, P t → (∀ g ∈ generics, P g) → t.of generics = .ok u → P u) :
    ∀ (p : Portable) (t : Ty), r.fromPortable p = .ok t → P t
  | .mk name generics, t, h => by
    rw [Registry.fromPortable, bind_eq_ok_iff] at h
    obtain ⟨base, hbase, h⟩ := h
    obtain ⟨args, hargs, h⟩ := bind_eq_ok_iff.mp h
    exact hof base t args (hresolve name base hbase) (fromPortables_induction hresolve hof generics args hargs) h

theorem fromPortables_induction {P : Ty → Prop} (hresolve : ∀ name t, r.resolve name = .ok t → P t)
    (hof : ∀ t u generics, P t → (∀ g ∈ generics, P g) → t.of generics = .ok u → P u) :
    ∀ (ps : List Portable) (ts : List Ty), r.fromPortables ps = .ok ts → ∀ t ∈ ts, P t
  | [], ts, h => by
    rw [Registry.fromPortables] at h
    cases h
    simp
  | p :: ps, ts, h => by
    rw [Registry.fromPortables, bind_eq_ok_iff] at h
    obtain ⟨first, hfirst, h⟩ := h
    obtain ⟨rest, hrest, h⟩ := bind_eq_ok_iff.mp h
    cases h
    rw [List.forall_mem_cons]
    exact ⟨fromPortable_induction hresolve hof p first hfirst, fromPortables_induction hresolve hof ps rest hrest⟩

end

theorem Sound.fromPortable (hr : r.Sound) (p : Portable) (t : Ty) (h : r.fromPortable p = .ok t) : Ty.Formed r t :=
  fromPortable_induction (fun _ _ => hr.resolve) (fun _ _ _ ht hargs => ht.of hargs) p t h

theorem Sound.fromPortables (hr : r.Sound) (ps : List Portable) (ts : List Ty) (h : r.fromPortables ps = .ok ts) :
    ∀ t ∈ ts, Ty.Formed r t :=
  fromPortables_induction (fun _ _ => hr.resolve) (fun _ _ _ ht hargs => ht.of hargs) ps ts h

/-- What a registration does: the name is new, parent and generics come from the registry, and the declared
type is put at the end. -/
theorem register_eq_ok {decl : TypeDecl} (h : r.register decl = .ok (t, r')) :
    r.get? decl.name = none ∧ ∃ parent generics, decl.parent.mapM r.resolve = .ok parent ∧
      r.fromPortables decl.generics = .ok generics ∧ t = decl.toType parent generics ∧
      r' = ⟨r.types ++ [t]⟩ := by
  rw [register] at h
  cases hget : r.get? decl.name with
  | some b => simp [contains, hget, bind, Except.bind, throw, throwThe, MonadExceptOf.throw] at h
  | none =>
    simp only [contains, hget, Option.isSome_none, Bool.false_eq_true, if_false] at h
    obtain ⟨-, -, h⟩ := bind_eq_ok_iff.mp h
    obtain ⟨parent, hparent, h⟩ := bind_eq_ok_iff.mp h
    obtain ⟨generics, hgenerics, h⟩ := bind_eq_ok_iff.mp h
    cases h
    exact ⟨rfl, parent, generics, hparent, hgenerics, rfl, rfl⟩

theorem get?_register {decl : TypeDecl} (h : r.register decl = .ok (t, r')) (name : String) :
    r'.get? name = if name = decl.name then some t else r.get? name := by
  obtain ⟨hget, parent, generics, -, -, ht, rfl⟩ := register_eq_ok h
  have hname : t.name = decl.name := by rw [ht]; rfl
  rw [Registry.get?, List.find?_append, List.find?_singleton, hname]
  by_cases heq : name = decl.name
  · subst heq
    rw [show r.types.find? (·.name == decl.name) = none from hget]
    simp
  · simp [Registry.get?, heq, Ne.symm heq]

theorem get?_of_register {decl : TypeDecl} (h : r.register decl = .ok (t, r')) (name : String) (b : Ty)
    (hb : r.get? name = some b) : r'.get? name = some b := by
  have hne : name ≠ decl.name := by
    rintro rfl
    rw [(register_eq_ok h).1] at hb
    cases hb
  rw [get?_register h, if_neg hne, hb]

theorem resolve_of_mapM {above : Option String} (h : above.mapM r.resolve = .ok (some p)) :
    ∃ name, r.resolve name = .ok p := by
  cases above with
  | none => cases h
  | some name =>
    have hmap : (r.resolve name).map some = .ok (some p) := h
    cases hresolve : r.resolve name with
    | error e =>
      rw [hresolve] at hmap
      cases hmap
    | ok q =>
      rw [hresolve] at hmap
      cases hmap
      exact ⟨name, hresolve⟩

theorem Reached.sound (hr : r.Reached) : r.Sound := by
  induction hr with
  | empty => intro name b h; cases h
  | register _ h ih =>
    obtain ⟨-, parent, generics, hparent, hgenerics, ht, -⟩ := register_eq_ok h
    have hmono := get?_of_register h
    intro name b hb
    rw [get?_register h] at hb
    split at hb
    · cases hb
      -- the new type is a registered one by itself, with a parent and generics from before
      refine .base (by rw [get?_register h, ht]; exact if_pos rfl) rfl rfl rfl ?_ ?_
      · intro g hg
        rw [ht] at hg
        exact (ih.fromPortables _ _ hgenerics g hg).mono hmono
      · intro p hp
        rw [ht] at hp
        obtain rfl : parent = some p := hp
        obtain ⟨name, hname⟩ := resolve_of_mapM hparent
        exact (ih.resolve hname).mono hmono
    · exact (ih name b hb).mono hmono

/-- **Every type that is built from a reached registry is formed.** -/
theorem Built.formed (hr : r.Reached) (h : r.Built t) : Ty.Formed r t := by
  induction h with
  | resolve h => exact hr.sound.resolve h
  | fromPortable h => exact hr.sound.fromPortable _ _ h
  | of _ _ h iht ihargs => exact iht.of ihargs h
  | annotate annotations _ ih => exact ih.congr rfl rfl rfl rfl
  | renameSlots names _ ih => exact ih.congr rfl rfl rfl rfl
  | parent _ hp ih => exact ih.parent hp
  | generic _ hg ih => exact ih.generic hg

end Registry

end BlockGraph
