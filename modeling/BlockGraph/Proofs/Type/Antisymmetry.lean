import BlockGraph.Proofs.Type.Registration

/-!
# Types that are below one another are equal

Names settle most of it: a type is below types of its own name, or of names that were registered earlier, so two types
that are below one another have the same name. Between types of one name the generics fit, also where the way leads
through instances in between. The exception is a type that takes arbitrary generics, whose instances need not fit it;
it is harmless as long as such a type has no slots.

* `Registry.rank_le_of_isSubtype`: going up, names get earlier;
* `Ty.Formed.fits_or_nil_of_isSubtype`: what a subtype of the same name says about generics;
* `Registry.subtyping_antisymmetric`: the result, for the built-in types and whatever is declared after them.
-/

namespace BlockGraph

namespace Registry

variable {r r' : Registry} {decl : TypeDecl} {decls : List TypeDecl} {a b p t : Ty}

/-! ### The order of names -/

/-- The position of a name in the order of registration. -/
def rank (r : Registry) (name : String) : Nat := r.names.idxOf name

theorem rank_lt_of_parent (hr : r.Orderly) (ht : t ∈ r.types) (hp : t.parent = some p) :
    r.rank p.name < r.rank t.name := by
  obtain ⟨before, after, hsplit⟩ := List.append_of_mem ht
  have hbefore : p.name ∈ before.map (·.name) := List.mem_map_of_mem (hr.parent before t after hsplit p hp)
  have hnames : r.names = before.map (·.name) ++ t.name :: after.map (·.name) := by
    rw [names, hsplit, List.map_append, List.map_cons]
  have hnodup := hr.nodup
  rw [hnames, List.nodup_append] at hnodup
  have hnew : t.name ∉ before.map (·.name) := fun hmem => hnodup.2.2 _ hmem _ List.mem_cons_self rfl
  have hlt := List.idxOf_lt_length_iff.mpr hbefore
  rw [rank, rank, hnames, List.idxOf_append_of_mem hbefore, List.idxOf_append_of_notMem hnew, List.idxOf_cons_self]
  omega

theorem rank_parent_le (hr : r.Orderly) (ha : Ty.Formed r a) (hp : a.parent = some p) :
    r.rank p.name ≤ r.rank a.name := by
  cases ha with
  | base hget _ hparent _ _ _ =>
    have hlt := rank_lt_of_parent hr (List.mem_of_find?_eq_some hget) (hparent.symm.trans hp)
    rw [name_of_get? hget] at hlt
    exact Nat.le_of_lt hlt
  | inst hparent hname _ _ _ _ =>
    obtain rfl := Option.some.inj (hparent.symm.trans hp)
    exact Nat.le_of_eq (by rw [hname])

theorem rank_le_of_isSubtype (hr : r.Orderly) (ha : Ty.Formed r a) (h : a.isSubtype b = true) :
    r.rank b.name ≤ r.rank a.name := by
  induction a using Ty.inductionOnParents with
  | step a ih =>
    rcases (Ty.isSubtype_iff a b).mp h with ⟨hname, -⟩ | ⟨p, hp, hpb⟩
    · exact Nat.le_of_eq (by rw [hname])
    · exact Nat.le_trans (ih p hp (ha.parent hp) hpb) (rank_parent_le hr ha hp)

theorem name_eq_of_isSubtype_of_isSubtype (hr : r.Orderly) (ha : Ty.Formed r a) (hb : Ty.Formed r b)
    (hab : a.isSubtype b = true) (hba : b.isSubtype a = true) : a.name = b.name := by
  obtain ⟨base, hget⟩ := ha.registered
  have hrank : r.rank a.name = r.rank b.name :=
    Nat.le_antisymm (rank_le_of_isSubtype hr hb hba) (rank_le_of_isSubtype hr ha hab)
  exact (List.idxOf_inj (mem_names_of_get? hget)).mp hrank

/-! ### Types of arbitrary arity without slots -/

/-- The registered types that take arbitrary generics have no slots. -/
def SlotFree (r : Registry) : Prop :=
  ∀ name b, r.get? name = some b → b.traits.arbitraryGenerics = true → b.generics = []

theorem SlotFree.register (hr : r.SlotFree) (hdecl : decl.arbitraryGenerics = true → decl.generics = [])
    (h : r.register decl = .ok (t, r')) : r'.SlotFree := by
  intro name b hb harbitrary
  rw [get?_register h] at hb
  split at hb
  · cases hb
    obtain ⟨-, parent, generics, -, hgenerics, rfl, -⟩ := register_eq_ok h
    rw [hdecl harbitrary, fromPortables] at hgenerics
    exact (Except.ok.inj hgenerics).symm
  · exact hr name b hb harbitrary

theorem SlotFree.submitAll (hr : r.SlotFree)
    (hdecls : ∀ decl ∈ decls, decl.arbitraryGenerics = true → decl.generics = []) : (r.submitAll decls).SlotFree :=
  submitAll_induction hr fun _ _ decl _ hmem hfree h => hfree.register (hdecls decl hmem) h

theorem slotFree_builtin (h : Registry.builtin = .ok r) : r.SlotFree := by
  have hempty : Registry.empty.SlotFree := fun _ _ hget => nomatch hget
  rw [← submitAll_eq_of_registerAll h]
  refine hempty.submitAll ?_
  simp [Builtin.decls]

end Registry

namespace Ty

variable {r : Registry} {a b : Ty}

/-! ### Types of one name -/

theorem Formed.generics_of_arbitrary {p : Ty} (hfree : r.SlotFree) (hp : Formed r p)
    (harbitrary : p.traits.arbitraryGenerics = true) : p.generics = [] := by
  cases hp with
  | base hget hgenerics _ harity _ _ =>
    rw [hgenerics]
    exact hfree _ _ hget (harity ▸ harbitrary)
  | inst _ _ harity _ _ _ =>
    rw [harity] at harbitrary
    cases harbitrary

theorem eq_nil_of_fits_nil {ts : List Ty} (h : fits [] ts = true) : ts = [] :=
  List.forall₂_nil_left_iff.mp ((fits_iff [] ts).mp h)

theorem Formed.fits_or_nil_of_isSubtype (hr : r.Orderly) (hfree : r.SlotFree) (ha : Formed r a)
    (hname : a.name = b.name) (h : a.isSubtype b = true) :
    fits a.generics b.generics = true ∨ b.generics = [] := by
  induction ha with
  | @base a base hget hgenerics hparent harity hargs habove =>
    rcases (isSubtype_iff a b).mp h with ⟨-, hfits⟩ | ⟨p, hp, hpb⟩
    · exact .inl hfits
    · -- above a registered type all names are earlier than its own
      have hlt := Registry.rank_lt_of_parent hr (List.mem_of_find?_eq_some hget) (hparent.symm.trans hp)
      have hle := Registry.rank_le_of_isSubtype hr (habove p hp) hpb
      rw [Registry.name_of_get? hget, hname] at hlt
      omega
  | @inst a p hparent hname' harity hfits hargs habove ihargs ihabove =>
    rcases (isSubtype_iff a b).mp h with ⟨-, hdirect⟩ | ⟨q, hq, hqb⟩
    · exact .inl hdirect
    · obtain rfl := Option.some.inj (hparent.symm.trans hq)
      rcases ihabove (hname'.symm.trans hname) hqb with hpb | hnil
      · rcases hfits with harbitrary | hfits
        · -- the generics of the instance are free, but those of its parent are none
          rw [habove.generics_of_arbitrary hfree harbitrary] at hpb
          exact .inr (eq_nil_of_fits_nil hpb)
        · refine .inl (fits_trans ?_ hfits hpb)
          intro x hx y hy z _ hxy hyz
          exact (hargs x hx).isSubtype_trans (habove.generic hy) hxy hyz
      · exact .inr hnil

theorem forall₂_beq_of_mutual {as bs : List Ty}
    (hanti : ∀ a ∈ as, ∀ b ∈ bs, a.isSubtype b = true → b.isSubtype a = true → (a == b) = true)
    (hab : fits as bs = true) (hba : fits bs as = true) : List.Forall₂ (fun a b => (a == b) = true) as bs := by
  rw [fits_iff] at hab hba
  induction hab with
  | nil => exact .nil
  | cons hfirst _ ih =>
    cases hba with
    | cons hfirst' hrest =>
      refine .cons (hanti _ List.mem_cons_self _ List.mem_cons_self hfirst hfirst') (ih ?_ hrest)
      intro a ha b hb
      exact hanti a (List.mem_cons_of_mem _ ha) b (List.mem_cons_of_mem _ hb)

theorem Formed.beq_of_isSubtype_of_isSubtype (hr : r.Orderly) (hfree : r.SlotFree) (ha : Formed r a) (hb : Formed r b)
    (hab : a.isSubtype b = true) (hba : b.isSubtype a = true) : (a == b) = true := by
  induction a using inductionOnGenerics generalizing b with
  | step a ih =>
    have hname := Registry.name_eq_of_isSubtype_of_isSubtype hr ha hb hab hba
    refine (beq_iff a b).mpr ⟨hname, ?_⟩
    -- where one side has no generics, the other one has none either
    have hempty : ∀ {ts us : List Ty}, us = [] → fits us ts = true ∨ ts = [] → ts = [] := by
      rintro ts _ rfl (hfits | hnil)
      · exact eq_nil_of_fits_nil hfits
      · exact hnil
    have hfits := ha.fits_or_nil_of_isSubtype hr hfree hname hab
    have hfits' := hb.fits_or_nil_of_isSubtype hr hfree hname.symm hba
    rcases hfits with hfit | hnil
    · rcases hfits' with hfit' | hnil'
      · refine forall₂_beq_of_mutual ?_ hfit hfit'
        intro g hg g' hg' hgg' hg'g
        exact ih g hg (ha.generic hg) (hb.generic hg') hgg' hg'g
      · rw [hnil', hempty hnil' (.inl hfit)]
        exact .nil
    · rw [hnil, hempty hnil hfits']
      exact .nil

end Ty

namespace Registry

/-- **Types that are below one another are equal**, over the built-in types and all that is declared after them, as long
as no declared type takes arbitrary generics and has slots. -/
theorem subtyping_antisymmetric {start : Registry} (hstart : Registry.builtin = .ok start) {decls : List TypeDecl}
    (hdecls : ∀ decl ∈ decls, decl.arbitraryGenerics = true → decl.generics = []) {a b : Ty}
    (ha : (start.submitAll decls).Built a) (hb : (start.submitAll decls).Built b) (hab : a.isSubtype b = true)
    (hba : b.isSubtype a = true) : (a == b) = true := by
  have hr : (start.submitAll decls).Reached := Reached.submitAll (Reached.empty.registerAll hstart) decls
  have hfree : (start.submitAll decls).SlotFree := (slotFree_builtin hstart).submitAll hdecls
  exact (ha.formed hr).beq_of_isSubtype_of_isSubtype hr.orderly hfree (hb.formed hr) hab hba

namespace Numeric

/-- A kind of tuples with two slots. -/
def pairs : List TypeDecl :=
  [{ name := "Pair", parent := some "Tuple", generics := [.named "Float", .named "Float"] }]

/-- Pairs of integers, made in one step and by way of a pair of an integer and a float, are below one another although
their parents differ, and they are equal. -/
theorem subtyping_antisymmetric_pairs :
    ∃ start, Registry.builtin = .ok start ∧ ∃ a b : Ty, (start.submitAll pairs).Built a ∧
      (start.submitAll pairs).Built b ∧ a.parent.map (·.typeText) = some "Pair" ∧
      b.parent.map (·.typeText) = some "(Int, Float)" ∧ a.isSubtype b = true ∧ b.isSubtype a = true ∧
      (a == b) = true := by
  obtain ⟨start, hstart, int, float, pair, hint, hfloat, hpair, ⟨hnarrow, hnarrower, hdirect⟩, ⟨hparent, hparent'⟩,
      hbelow, hbelow'⟩ :
      ∃ start, Registry.builtin = .ok start ∧ ∃ int float pair : Ty,
        (start.submitAll pairs).resolve "Int" = .ok int ∧ (start.submitAll pairs).resolve "Float" = .ok float ∧
        (start.submitAll pairs).resolve "Pair" = .ok pair ∧
        (pair.of [int, float] = .ok (pair.withGenerics [int, float]) ∧
          (pair.withGenerics [int, float]).of [int, int] =
            .ok ((pair.withGenerics [int, float]).withGenerics [int, int]) ∧
          pair.of [int, int] = .ok (pair.withGenerics [int, int])) ∧
        (pair.typeText = "Pair" ∧ (pair.withGenerics [int, float]).typeText = "(Int, Float)") ∧
        (pair.withGenerics [int, int]).isSubtype ((pair.withGenerics [int, float]).withGenerics [int, int]) = true ∧
        ((pair.withGenerics [int, float]).withGenerics [int, int]).isSubtype (pair.withGenerics [int, int]) = true :=
    ⟨_, rfl, _, _, _, rfl, rfl, rfl, ⟨rfl, rfl, rfl⟩, ⟨rfl, rfl⟩, rfl, rfl⟩
  have hints : ∀ g ∈ [int, int], (start.submitAll pairs).Built g := by simp [Built.resolve hint]
  have hmixed : ∀ g ∈ [int, float], (start.submitAll pairs).Built g := by
    simp [Built.resolve hint, Built.resolve hfloat]
  have ha : (start.submitAll pairs).Built (pair.withGenerics [int, int]) := .of (.resolve hpair) hints hdirect
  have hb : (start.submitAll pairs).Built ((pair.withGenerics [int, float]).withGenerics [int, int]) :=
    .of (.of (.resolve hpair) hmixed hnarrow) hints hnarrower
  refine ⟨start, hstart, _, _, ha, hb, congrArg some hparent, congrArg some hparent', hbelow, hbelow', ?_⟩
  exact subtyping_antisymmetric hstart (by simp [pairs]) ha hb hbelow hbelow'

/-- A type of arbitrary arity that has a slot. -/
def bag : Ty := TypeDecl.toType { name := "Bag", arbitraryGenerics := true, generics := [.named "Int"] } none [int]

-- An instance that does not fit such a type is below it as its child, and above it by its generics.
example : (bag.withGenerics [float]).isSubtype bag = true ∧ bag.isSubtype (bag.withGenerics [float]) = true ∧
    (bag.withGenerics [float] == bag) = false := ⟨rfl, rfl, rfl⟩

end Numeric

end Registry

end BlockGraph
