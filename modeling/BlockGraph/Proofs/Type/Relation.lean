import BlockGraph.Type.Subtype
import Mathlib.Data.List.Forall2

/-!
# Equality and subtyping of types

What holds of all types, wherever they come from: `isSubtype_iff` and `beq_iff` say what the two tests compute,
and from them subtyping is reflexive, climbs to the parent and holds between equal types. Transitivity is not
among these facts: it needs the discipline that a registry imposes. The ancestors of a type end in its `root`.
-/

namespace BlockGraph.Ty

variable {a b g p : Ty}

/-! ### Sizes -/

theorem sizeOf_generic_lt (hg : g ∈ a.generics) : sizeOf g < sizeOf a := by
  obtain ⟨name, parent, generics, traits, annotations, isBase⟩ := a
  have hlt : sizeOf g < sizeOf generics := List.sizeOf_lt_of_mem hg
  rw [Ty.mk.sizeOf_spec]
  omega

theorem sizeOf_parent_lt (hp : a.parent = some p) : sizeOf p < sizeOf a := by
  obtain ⟨name, parent, generics, traits, annotations, isBase⟩ := a
  obtain rfl : parent = some p := hp
  rw [Ty.mk.sizeOf_spec, Option.some.sizeOf_spec]
  omega

theorem sizeOf_generic_add_parent_lt (hg : g ∈ a.generics) (hp : a.parent = some p) :
    sizeOf g + sizeOf p < sizeOf a := by
  obtain ⟨name, parent, generics, traits, annotations, isBase⟩ := a
  obtain rfl : parent = some p := hp
  have hlt : sizeOf g < sizeOf generics := List.sizeOf_lt_of_mem hg
  rw [Ty.mk.sizeOf_spec, Option.some.sizeOf_spec]
  omega

/-! ### What the tests compute -/

theorem beqAll_iff (as bs : List Ty) : beqAll as bs = true ↔ List.Forall₂ (fun a b => (a == b) = true) as bs := by
  induction as generalizing bs with
  | nil => cases bs <;> simp [beqAll]
  | cons a as ih =>
    cases bs with
    | nil => simp [beqAll]
    | cons b bs =>
      rw [beqAll, Bool.and_eq_true, List.forall₂_cons, ih]
      rfl

theorem beq_iff (a b : Ty) :
    (a == b) = true ↔ a.name = b.name ∧ List.Forall₂ (fun a b => (a == b) = true) a.generics b.generics := by
  obtain ⟨name, parent, generics, traits, annotations, isBase⟩ := a
  show beq _ b = true ↔ _
  rw [beq, Bool.and_eq_true, beq_iff_eq, beqAll_iff]

theorem fits_iff (ts slots : List Ty) :
    fits ts slots = true ↔ List.Forall₂ (fun t slot => t.isSubtype slot = true) ts slots := by
  induction ts generalizing slots with
  | nil => cases slots <;> simp [fits]
  | cons t ts ih =>
    cases slots with
    | nil => simp [fits]
    | cons slot slots => rw [fits, Bool.and_eq_true, List.forall₂_cons, ih]

theorem isSubtype_iff (a b : Ty) :
    a.isSubtype b = true ↔
      (a.name = b.name ∧ fits a.generics b.generics = true) ∨ ∃ p, a.parent = some p ∧ p.isSubtype b = true := by
  obtain ⟨name, parent, generics, traits, annotations, isBase⟩ := a
  rw [isSubtype, Bool.or_eq_true, Bool.and_eq_true, beq_iff_eq]
  cases parent with
  | none => simp [parentIsSubtype]
  | some q => simp [parentIsSubtype]

theorem isSubtype_congr {a' : Ty} (hname : a.name = a'.name) (hgenerics : a.generics = a'.generics)
    (hparent : a.parent = a'.parent) (b : Ty) : a.isSubtype b = a'.isSubtype b := by
  rw [Bool.eq_iff_iff, isSubtype_iff, isSubtype_iff, hname, hgenerics, hparent]

theorem isSubtype_of_parent (hp : a.parent = some p) (h : p.isSubtype b = true) : a.isSubtype b = true :=
  (isSubtype_iff a b).mpr (.inr ⟨p, hp, h⟩)

theorem isSubtype_of_fits (hname : a.name = b.name) (h : fits a.generics b.generics = true) :
    a.isSubtype b = true :=
  (isSubtype_iff a b).mpr (.inl ⟨hname, h⟩)

/-! ### Laws -/

theorem inductionOnGenerics {motive : Ty → Prop} (t : Ty)
    (step : ∀ t, (∀ g ∈ t.generics, motive g) → motive t) : motive t :=
  step t fun g _ => inductionOnGenerics g step
termination_by sizeOf t
decreasing_by exact sizeOf_generic_lt ‹_›

theorem forall₂_imp_of_mem {R S : Ty → Ty → Prop} {as bs : List Ty} (h : List.Forall₂ R as bs)
    (himp : ∀ a ∈ as, ∀ b ∈ bs, R a b → S a b) : List.Forall₂ S as bs := by
  induction h with
  | nil => exact .nil
  | cons hab _ ih =>
    refine .cons (himp _ List.mem_cons_self _ List.mem_cons_self hab) (ih fun a ha b hb => ?_)
    exact himp a (List.mem_cons_of_mem _ ha) b (List.mem_cons_of_mem _ hb)

theorem forall₂_trans_of_mem {R S T : Ty → Ty → Prop} {as bs cs : List Ty}
    (htrans : ∀ a ∈ as, ∀ b ∈ bs, ∀ c ∈ cs, R a b → S b c → T a c)
    (hab : List.Forall₂ R as bs) (hbc : List.Forall₂ S bs cs) : List.Forall₂ T as cs := by
  induction hab generalizing cs with
  | nil =>
    cases hbc
    exact .nil
  | cons hr _ ih =>
    cases hbc with
    | cons hs hrest =>
      refine .cons (htrans _ List.mem_cons_self _ List.mem_cons_self _ List.mem_cons_self hr hs) (ih ?_ hrest)
      intro a ha b hb c hc
      exact htrans a (List.mem_cons_of_mem _ ha) b (List.mem_cons_of_mem _ hb) c (List.mem_cons_of_mem _ hc)

theorem beq_refl (a : Ty) : (a == a) = true := by
  induction a using inductionOnGenerics with
  | step a ih => exact (beq_iff a a).mpr ⟨rfl, List.forall₂_same.mpr ih⟩

theorem beq_symm (h : (a == b) = true) : (b == a) = true := by
  induction a using inductionOnGenerics generalizing b with
  | step a ih =>
    obtain ⟨hname, hgenerics⟩ := (beq_iff a b).mp h
    refine (beq_iff b a).mpr ⟨hname.symm, List.Forall₂.flip ?_⟩
    exact forall₂_imp_of_mem hgenerics fun g hg g' _ heq => ih g hg heq

theorem beq_trans {c : Ty} (hab : (a == b) = true) (hbc : (b == c) = true) : (a == c) = true := by
  induction a using inductionOnGenerics generalizing b c with
  | step a ih =>
    obtain ⟨hname, hgenerics⟩ := (beq_iff a b).mp hab
    obtain ⟨hname', hgenerics'⟩ := (beq_iff b c).mp hbc
    refine (beq_iff a c).mpr ⟨hname.trans hname', ?_⟩
    refine forall₂_trans_of_mem ?_ hgenerics hgenerics'
    intro g hg _ _ _ _ h h'
    exact ih g hg h h'

theorem isSubtype_of_beq (h : (a == b) = true) : a.isSubtype b = true := by
  induction a using inductionOnGenerics generalizing b with
  | step a ih =>
    obtain ⟨hname, hgenerics⟩ := (beq_iff a b).mp h
    refine isSubtype_of_fits hname ((fits_iff _ _).mpr ?_)
    exact forall₂_imp_of_mem hgenerics fun g hg g' _ heq => ih g hg heq

theorem isSubtype_refl (a : Ty) : a.isSubtype a = true := isSubtype_of_beq (beq_refl a)

/-! ### Ancestors -/

/-- The last of the ancestors of a type, or the type itself if it has no parent. -/
def root (t : Ty) : Ty := t.lineage.getLastD t

theorem inductionOnParents {motive : Ty → Prop} (t : Ty)
    (step : ∀ t, (∀ p, t.parent = some p → motive p) → motive t) : motive t :=
  step t fun p _ => inductionOnParents p step
termination_by sizeOf t
decreasing_by exact sizeOf_parent_lt ‹_›

theorem lineage_of_parent_none (h : a.parent = none) : a.lineage = [] := by
  obtain ⟨name, parent, generics, traits, annotations, isBase⟩ := a
  obtain rfl : parent = none := h
  rw [lineage, lineageOf]

theorem lineage_of_parent (h : a.parent = some p) : a.lineage = p :: p.lineage := by
  obtain ⟨name, parent, generics, traits, annotations, isBase⟩ := a
  obtain rfl : parent = some p := h
  rw [lineage, lineageOf]

theorem mem_lineage_iff : p ∈ a.lineage ↔ ∃ q, a.parent = some q ∧ (p = q ∨ p ∈ q.lineage) := by
  cases hparent : a.parent with
  | none => simp [lineage_of_parent_none hparent]
  | some q => simp [lineage_of_parent hparent]

theorem forall_mem_lineage {motive : Ty → Prop} (hstep : ∀ t p, t.parent = some p → motive t → motive p)
    (ha : motive a) : ∀ p ∈ a.lineage, motive p := by
  induction a using inductionOnParents with
  | step a ih =>
    intro p hp
    obtain ⟨q, hparent, hpq⟩ := mem_lineage_iff.mp hp
    have hq : motive q := hstep a q hparent ha
    rcases hpq with rfl | hpq
    · exact hq
    · exact ih q hparent hq p hpq

theorem root_of_parent_none (h : a.parent = none) : a.root = a := by
  rw [root, lineage_of_parent_none h, List.getLastD_nil]

theorem root_of_parent (h : a.parent = some p) : a.root = p.root := by
  rw [root, lineage_of_parent h, List.getLastD_cons, root]

theorem root_of_mem_lineage (h : p ∈ a.lineage) : p.root = a.root :=
  forall_mem_lineage (motive := fun t => t.root = a.root)
    (fun t q hq ht => by rw [← root_of_parent hq, ht]) rfl p h

theorem root_mem (a : Ty) : a.root ∈ a :: a.lineage := by
  rw [root, List.getLastD_eq_getLast?]
  cases hlast : a.lineage.getLast? with
  | none => exact List.mem_cons_self
  | some t => exact List.mem_cons_of_mem _ (List.mem_of_getLast? hlast)

theorem sizeOf_lt_of_mem_lineage (h : p ∈ a.lineage) : sizeOf p < sizeOf a := by
  induction a using inductionOnParents with
  | step a ih =>
    obtain ⟨q, hparent, hpq⟩ := mem_lineage_iff.mp h
    have hq : sizeOf q < sizeOf a := sizeOf_parent_lt hparent
    rcases hpq with rfl | hpq
    · exact hq
    · exact Nat.lt_trans (ih q hparent hpq) hq

theorem self_not_mem_lineage (a : Ty) : a ∉ a.lineage :=
  fun h => Nat.lt_irrefl _ (sizeOf_lt_of_mem_lineage h)

theorem isSubtype_of_mem_lineage (h : p ∈ a.lineage) (hpb : p.isSubtype b = true) : a.isSubtype b = true := by
  induction a using inductionOnParents with
  | step a ih =>
    obtain ⟨q, hparent, hpq⟩ := mem_lineage_iff.mp h
    rcases hpq with rfl | hpq
    · exact isSubtype_of_parent hparent hpb
    · exact isSubtype_of_parent hparent (ih q hparent hpq)

end BlockGraph.Ty
