import BlockGraph.Proofs.Type.Preorder

/-!
# What two types share

The search for a shared type climbs from the first type through its ancestors. None of them is below the second
type unless the first type is, so the climb can only end at an ancestor that the second type is below, and the
answer is then the second type. In a registry there is such an ancestor just when the two types have the same root.

* `Ty.sharedType_of_not_isSubtype`: what the climb comes to, for all types;
* `Ty.Formed.root_beq_of_isSubtype`: a type has the root of the types that it is below;
* `Registry.sharedType_closed_form`: the answer without the climb.
-/

namespace BlockGraph

namespace Ty

variable {r : Registry} {a b p t : Ty}

/-! ### The climb -/

theorem sharedType_eq (a b : Ty) :
    a.sharedType b =
      if a.isSubtype b then some a else if b.isSubtype a then some b else a.parent.bind (·.sharedType b) := by
  have hequal : (a == b || a.isSubtype b) = a.isSubtype b := by
    cases hab : a == b with
    | false => rw [Bool.false_or]
    | true => rw [isSubtype_of_beq hab, Bool.true_or]
  obtain ⟨name, parent, generics, traits, annotations, isBase⟩ := a
  rw [sharedType, hequal]
  cases parent <;> rfl

/-- Where the first type is not below the second, neither is any of its ancestors, so the climb looks for one that
the second type is below. -/
theorem sharedType_of_not_isSubtype (h : a.isSubtype b = false) :
    a.sharedType b = if (a :: a.lineage).any b.isSubtype then some b else none := by
  induction a using inductionOnParents with
  | step a ih =>
    rw [sharedType_eq, h, List.any_cons]
    cases hba : b.isSubtype a with
    | true => simp
    | false =>
      cases hparent : a.parent with
      | none => simp [lineage_of_parent_none hparent]
      | some p =>
        have hp : p.isSubtype b = false := by
          rw [← Bool.not_eq_true] at h ⊢
          exact fun hpb => h (isSubtype_of_parent hparent hpb)
        rw [lineage_of_parent hparent]
        simpa using ih p hparent hp

theorem not_beq_of_mem_lineage (h : a.isSubtype b = false) (hp : p ∈ a.lineage) : (b == p) = false := by
  rw [← Bool.not_eq_true] at h ⊢
  intro hequal
  exact h (isSubtype_of_mem_lineage hp (isSubtype_of_beq (beq_symm hequal)))

/-! ### Roots -/

namespace Formed

theorem ancestor (ha : Formed r a) (hp : p ∈ a :: a.lineage) : Formed r p := by
  rcases List.mem_cons.mp hp with rfl | hp
  · exact ha
  · exact forall_mem_lineage (fun _ _ hq ht => ht.parent hq) ha p hp

theorem root_beq_registered (ht : Formed r t) (hget : r.get? t.name = some b) : (t.root == b.root) = true := by
  induction ht with
  | @base t base hget' hgenerics hparent _ _ _ _ _ =>
    obtain rfl : b = base := Option.some.inj (hget.symm.trans hget')
    cases hp : t.parent with
    | none =>
      rw [root_of_parent_none hp, root_of_parent_none (hparent ▸ hp), beq_iff, hgenerics]
      exact ⟨(Registry.name_of_get? hget).symm, List.forall₂_same.mpr fun g _ => beq_refl g⟩
    | some p =>
      have hp' : b.parent = some p := by rw [← hparent, hp]
      rw [root_of_parent hp, root_of_parent hp']
      exact beq_refl _
  | inst hparent hname _ _ _ _ _ ih =>
    rw [root_of_parent hparent]
    exact ih (hname ▸ hget)

theorem root_beq_of_isSubtype (ha : Formed r a) (hb : Formed r b) (h : a.isSubtype b = true) :
    (a.root == b.root) = true := by
  induction a using inductionOnParents with
  | step a ih =>
    rcases (isSubtype_iff a b).mp h with ⟨hname, -⟩ | ⟨p, hp, hpb⟩
    · obtain ⟨base, hget⟩ := ha.registered
      exact beq_trans (ha.root_beq_registered hget) (beq_symm (hb.root_beq_registered (hname ▸ hget)))
    · rw [root_of_parent hp]
      exact ih p hp (ha.parent hp) hpb

/-- The second type is below the first or one of its ancestors just when the two have the same root. -/
theorem any_isSubtype_iff (ha : Formed r a) (hb : Formed r b) :
    (a :: a.lineage).any b.isSubtype = (a.root == b.root) := by
  rw [Bool.eq_iff_iff, List.any_eq_true]
  constructor
  · rintro ⟨p, hp, hbp⟩
    have hroot : p.root = a.root := by
      rcases List.mem_cons.mp hp with rfl | hp
      · rfl
      · exact root_of_mem_lineage hp
    rw [← hroot]
    exact beq_symm (hb.root_beq_of_isSubtype (ha.ancestor hp) hbp)
  · intro hroots
    -- the root of the second type is an ancestor of it, and is below the equal root of the first
    have hbelow : b.root.isSubtype a.root = true := isSubtype_of_beq (beq_symm hroots)
    refine ⟨a.root, a.root_mem, ?_⟩
    rcases List.mem_cons.mp b.root_mem with hself | hmem
    · exact hself ▸ hbelow
    · exact isSubtype_of_mem_lineage hmem hbelow

theorem sharedType_eq_root (ha : Formed r a) (hb : Formed r b) :
    a.sharedType b = if a.isSubtype b then some a else if a.root == b.root then some b else none := by
  cases h : a.isSubtype b with
  | true => rw [sharedType_eq, h, if_pos rfl, if_pos rfl]
  | false => rw [sharedType_of_not_isSubtype h, ha.any_isSubtype_iff hb, if_neg Bool.false_ne_true]

theorem sharedType_isSome (ha : Formed r a) (hb : Formed r b) : (a.sharedType b).isSome = (a.root == b.root) := by
  rw [ha.sharedType_eq_root hb]
  cases h : a.isSubtype b with
  | true => simp [ha.root_beq_of_isSubtype hb h]
  | false => cases a.root == b.root <;> rfl

end Formed

end Ty

namespace Registry

variable {r : Registry}

/-- **What two types share is the first of them if it is below the second, and otherwise the second of them if they
have the same root.** No ancestor of the first type comes out of the climb, what comes out is below the second type,
there is an answer in both orders or in neither, and of two types of which just one is below the other it is that one
in both orders. -/
theorem sharedType_closed_form (hr : r.Reached) {a b : Ty} (ha : r.Built a) (hb : r.Built b) :
    (a.sharedType b = if a.isSubtype b then some a else if a.root == b.root then some b else none) ∧
    (∀ t, a.sharedType b = some t →
      t ∉ a.lineage ∧ (t = a ∨ ∀ p ∈ a.lineage, (t == p) = false) ∧ t.isSubtype b = true) ∧
    (a.sharedType b).isSome = (b.sharedType a).isSome ∧
    (a.isSubtype b = true → b.isSubtype a = false → a.sharedType b = some a ∧ b.sharedType a = some a) := by
  have hfa := ha.formed hr
  have hfb := hb.formed hr
  refine ⟨hfa.sharedType_eq_root hfb, ?_, ?_, ?_⟩
  · intro t ht
    rw [hfa.sharedType_eq_root hfb] at ht
    cases hab : a.isSubtype b with
    | true =>
      obtain rfl : a = t := by simpa [hab] using ht
      exact ⟨a.self_not_mem_lineage, .inl rfl, hab⟩
    | false =>
      obtain ⟨-, rfl⟩ : (a.root == b.root) = true ∧ b = t := by simpa [hab] using ht
      have hapart : ∀ p ∈ a.lineage, (b == p) = false := fun p hp => Ty.not_beq_of_mem_lineage hab hp
      refine ⟨fun hmem => ?_, .inr hapart, b.isSubtype_refl⟩
      have hself := hapart b hmem
      rw [b.beq_refl] at hself
      cases hself
  · rw [hfa.sharedType_isSome hfb, hfb.sharedType_isSome hfa, Bool.eq_iff_iff]
    exact ⟨Ty.beq_symm, Ty.beq_symm⟩
  · intro hab hba
    have hroots : (b.root == a.root) = true := Ty.beq_symm (hfa.root_beq_of_isSubtype hfb hab)
    rw [hfa.sharedType_eq_root hfb, hfb.sharedType_eq_root hfa, hab, hba, hroots]
    exact ⟨rfl, rfl⟩

namespace Numeric

/-! Two kinds of numbers, neither of them below the other. -/

def nat : Ty := TypeDecl.toType { name := "Nat", parent := some "Float" } (some float) []

def numbers : Registry := ⟨[float, int, tuple, nat]⟩

theorem reached_numbers : numbers.Reached := by
  have h : types.registerAll [{ name := "Nat", parent := some "Float" }] = .ok numbers := rfl
  exact reached_types.registerAll h

/-- Integers and naturals share whichever is asked for second, and not the floats that both come from. They share
nothing with tuples, and integers and floats share the integers in both orders. -/
theorem sharedType_closed_form_numbers :
    numbers.Reached ∧ numbers.Built int ∧ numbers.Built nat ∧ numbers.Built tuple ∧ numbers.Built float ∧
    int.sharedType nat = some nat ∧ nat.sharedType int = some int ∧ int.sharedType tuple = none ∧
    int.sharedType float = some int ∧ float.sharedType int = some int := by
  have hint : numbers.Built int := .resolve (show numbers.resolve "Int" = .ok int from rfl)
  have hnat : numbers.Built nat := .resolve (show numbers.resolve "Nat" = .ok nat from rfl)
  have htuple : numbers.Built tuple := .resolve (show numbers.resolve "Tuple" = .ok tuple from rfl)
  have hfloat : numbers.Built float := .resolve (show numbers.resolve "Float" = .ok float from rfl)
  obtain ⟨hfirst, -⟩ := sharedType_closed_form reached_numbers hint hnat
  obtain ⟨hsecond, -⟩ := sharedType_closed_form reached_numbers hnat hint
  obtain ⟨hnothing, -⟩ := sharedType_closed_form reached_numbers hint htuple
  obtain ⟨-, -, -, hsmaller⟩ := sharedType_closed_form reached_numbers hint hfloat
  obtain ⟨hbelow, habove⟩ := hsmaller rfl rfl
  exact ⟨reached_numbers, hint, hnat, htuple, hfloat, hfirst, hsecond, hnothing, hbelow, habove⟩

end Numeric

end Registry

end BlockGraph
