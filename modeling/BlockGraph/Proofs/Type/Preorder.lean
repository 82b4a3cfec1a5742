import BlockGraph.Proofs.Type.Lattice

/-!
# Subtyping is a preorder on the types of a registry

Transitivity is an induction over three types at once. When `a ≤ b` climbs from `a`, the parent of `a` is
smaller. When `a` and `b` share their name and `b ≤ c` climbs from `b`, the step that `b` makes is one that `a`
can make too: `Formed.isSubtype_cases` lists these steps.
-/

namespace BlockGraph

namespace Ty

variable {r : Registry} {a b c p : Ty}

theorem fits_trans {as bs cs : List Ty}
    (htrans : ∀ x ∈ as, ∀ y ∈ bs, ∀ z ∈ cs, x.isSubtype y = true → y.isSubtype z = true → x.isSubtype z = true)
    (hab : fits as bs = true) (hbc : fits bs cs = true) : fits as cs = true := by
  rw [fits_iff] at hab hbc ⊢
  exact forall₂_trans_of_mem htrans hab hbc

theorem Formed.registered_of_arbitrary (hp : Formed r p) (harbitrary : p.traits.arbitraryGenerics = true) :
    ∃ base, r.get? p.name = some base ∧ ∀ c, base.isSubtype c = p.isSubtype c := by
  cases hp with
  | base hget hgenerics hparent _ _ _ => exact ⟨_, hget, isSubtype_registered hget hgenerics hparent⟩
  | inst _ _ harity _ _ _ =>
    rw [harity] at harbitrary
    cases harbitrary

/-- Why a formed type is below another one: the registered type of its name is, or the generics fit, or it is
an instance that fits its parent and the parent is below. -/
theorem Formed.isSubtype_cases (hb : Formed r b) (hbc : b.isSubtype c = true) :
    (∃ base, r.get? b.name = some base ∧ base.isSubtype c = true) ∨
    (b.name = c.name ∧ fits b.generics c.generics = true) ∨
    ∃ p, b.parent = some p ∧ b.name = p.name ∧ fits b.generics p.generics = true ∧ p.isSubtype c = true := by
  cases hb with
  | base hget hgenerics hparent _ _ _ =>
    exact .inl ⟨_, hget, by rw [isSubtype_registered hget hgenerics hparent, hbc]⟩
  | inst hparent hname _ hfits _ habove =>
    rcases (isSubtype_iff b c).mp hbc with hdirect | ⟨q, hq, hqc⟩
    · exact .inr (.inl hdirect)
    · obtain rfl := Option.some.inj (hparent.symm.trans hq)
      rcases hfits with harbitrary | hfits
      · -- the generics of the instance say nothing about those of the parent, but the parent is registered
        obtain ⟨base, hget, hbase⟩ := habove.registered_of_arbitrary harbitrary
        exact .inl ⟨base, by rw [hname, hget], by rw [hbase, hqc]⟩
      · exact .inr (.inr ⟨_, hparent, hname, hfits, hqc⟩)

theorem Formed.isSubtype_trans (ha : Formed r a) (hb : Formed r b) (hab : a.isSubtype b = true)
    (hbc : b.isSubtype c = true) : a.isSubtype c = true := by
  induction hn : sizeOf a + sizeOf b + sizeOf c using Nat.strongRecOn generalizing a b c with
  | ind n ih =>
    subst hn
    rcases (isSubtype_iff a b).mp hab with ⟨hname, hfits⟩ | ⟨p, hp, hpb⟩
    · rcases hb.isSubtype_cases hbc with ⟨base, hget, hbase⟩ | ⟨hname', hfits'⟩ | ⟨p, hp, hname', hfits', hpc⟩
      · exact ha.isSubtype_of_registered (by rw [hname, hget]) hbase
      · refine isSubtype_of_fits (hname.trans hname') (fits_trans ?_ hfits hfits')
        intro x hx y hy z hz hxy hyz
        have hxlt := sizeOf_generic_lt hx
        have hylt := sizeOf_generic_lt hy
        have hzlt := sizeOf_generic_lt hz
        exact ih _ (by omega) (ha.generic hx) (hb.generic hy) hxy hyz rfl
      · have hap : a.isSubtype p = true := by
          refine isSubtype_of_fits (hname.trans hname') (fits_trans ?_ hfits hfits')
          intro x hx y hy z hz hxy hyz
          -- a generic of the parent is no part of the third type, so the parent pays for it
          have hxlt := sizeOf_generic_lt hx
          have hylt := sizeOf_generic_add_parent_lt hy hp
          have hzlt := sizeOf_generic_lt hz
          exact ih _ (by omega) (ha.generic hx) (hb.generic hy) hxy hyz rfl
        have hplt := sizeOf_parent_lt hp
        exact ih _ (by omega) ha (hb.parent hp) hap hpc rfl
    · have hplt := sizeOf_parent_lt hp
      exact isSubtype_of_parent hp (ih _ (by omega) (ha.parent hp) hb hpb hbc rfl)

theorem Formed.isSubtype_of_beq_of_beq {a' b' : Ty} (ha : Formed r a) (ha' : Formed r a') (hb : Formed r b)
    (haa' : (a == a') = true) (hbb' : (b == b') = true) (h : a.isSubtype b = true) : a'.isSubtype b' = true := by
  have hab : a'.isSubtype b = true := ha'.isSubtype_trans ha (isSubtype_of_beq (beq_symm haa')) h
  exact ha'.isSubtype_trans hb hab (isSubtype_of_beq hbb')

end Ty

namespace Registry

variable {r r' : Registry}

theorem Reached.registerAll {decls : List TypeDecl} (hr : r.Reached) (h : r.registerAll decls = .ok r') :
    r'.Reached := by
  induction decls generalizing r with
  | nil =>
    cases h
    exact hr
  | cons decl decls ih =>
    rw [Registry.registerAll, List.foldlM_cons, bind_eq_ok_iff] at h
    obtain ⟨next, hnext, hrest⟩ := h
    obtain ⟨⟨t, r''⟩, hdecl, h⟩ := bind_eq_ok_iff.mp hnext
    cases h
    exact ih (.register hr hdecl) hrest

/-- **Subtyping is a preorder that respects structural equality.** -/
theorem subtyping_preorder (hr : r.Reached) {a b : Ty} (ha : r.Built a) (hb : r.Built b) :
    a.isSubtype a = true ∧
    (∀ p, a.parent = some p → a.isSubtype p = true) ∧
    (∀ c, a.isSubtype b = true → b.isSubtype c = true → a.isSubtype c = true) ∧
    ((a == b) = true → a.isSubtype b = true) ∧
    ∀ a' b', r.Built a' → r.Built b' → (a == a') = true → (b == b') = true →
      a.isSubtype b = a'.isSubtype b' := by
  refine ⟨Ty.isSubtype_refl a, ?_, ?_, Ty.isSubtype_of_beq, ?_⟩
  · intro p hp
    exact Ty.isSubtype_of_parent hp (Ty.isSubtype_refl p)
  · intro c hab hbc
    exact (ha.formed hr).isSubtype_trans (hb.formed hr) hab hbc
  · intro a' b' ha' hb' haa' hbb'
    rw [Bool.eq_iff_iff]
    constructor
    · intro h
      exact (ha.formed hr).isSubtype_of_beq_of_beq (ha'.formed hr) (hb.formed hr) haa' hbb' h
    · intro h
      have hba := Ty.beq_symm haa'
      have hbb := Ty.beq_symm hbb'
      exact (ha'.formed hr).isSubtype_of_beq_of_beq (ha.formed hr) (hb'.formed hr) hba hbb h

namespace Numeric

/-! Numbers and tuples of them, and two ways to a tuple of one integer. -/

def float : Ty := TypeDecl.toType { name := "Float" } none []

def int : Ty := TypeDecl.toType { name := "Int", parent := some "Float" } (some float) []

def tuple : Ty := TypeDecl.toType { name := "Tuple", arbitraryGenerics := true } none []

def types : Registry := ⟨[float, int, tuple]⟩

theorem reached_types : types.Reached := by
  have h : Registry.empty.registerAll
      [{ name := "Float" }, { name := "Int", parent := some "Float" },
        { name := "Tuple", arbitraryGenerics := true }] = .ok types := rfl
  exact Reached.empty.registerAll h

def ofFloat : Ty := tuple.withGenerics [float]

def ofInt : Ty := tuple.withGenerics [int]

/-- The tuple of one integer, made from the tuple of one float. -/
def ofFloatOfInt : Ty := ofFloat.withGenerics [int]

theorem built_int : types.Built int := by
  have hint : types.resolve "Int" = .ok int := rfl
  exact .resolve hint

theorem built_tuple : types.Built tuple := by
  have htuple : types.resolve "Tuple" = .ok tuple := rfl
  exact .resolve htuple

theorem built_ofFloat : types.Built ofFloat := by
  have hfloat : types.resolve "Float" = .ok float := rfl
  exact .of built_tuple (List.forall_mem_singleton.mpr (.resolve hfloat)) rfl

theorem built_ofInt : types.Built ofInt := .of built_tuple (List.forall_mem_singleton.mpr built_int) rfl

theorem built_ofFloatOfInt : types.Built ofFloatOfInt :=
  .of built_ofFloat (List.forall_mem_singleton.mpr built_int) rfl

/-- The two tuples of one integer are equal with different parents. One of them has the tuple of one float as its
parent, so the other one is below it as well, and the tuple of one float is below neither. -/
theorem subtyping_preorder_tuples :
    types.Reached ∧ types.Built ofInt ∧ types.Built ofFloatOfInt ∧ types.Built ofFloat ∧
    ofInt.parent = some tuple ∧ ofFloatOfInt.parent = some ofFloat ∧ (tuple == ofFloat) = false ∧
    (ofInt == ofFloatOfInt) = true ∧ ofInt.isSubtype ofFloat = true ∧
    ofFloat.isSubtype ofInt = false ∧ ofFloat.isSubtype ofFloatOfInt = false := by
  obtain ⟨-, -, htrans, hequal, -⟩ := subtyping_preorder reached_types built_ofInt built_ofFloatOfInt
  obtain ⟨-, hparent, -⟩ := subtyping_preorder reached_types built_ofFloatOfInt built_ofFloat
  obtain ⟨-, -, -, -, hcongr⟩ := subtyping_preorder reached_types built_ofFloat built_ofInt
  have hbelow : ofInt.isSubtype ofFloat = true := htrans ofFloat (hequal rfl) (hparent ofFloat rfl)
  have hnot : ofFloat.isSubtype ofInt = false := rfl
  have hnot' : ofFloat.isSubtype ofFloatOfInt = false := by
    rw [← hcongr ofFloat ofFloatOfInt built_ofFloat built_ofFloatOfInt rfl rfl, hnot]
  exact ⟨reached_types, built_ofInt, built_ofFloatOfInt, built_ofFloat, rfl, rfl, rfl, rfl, hbelow, hnot, hnot'⟩

end Numeric

end Registry

end BlockGraph
