import BlockGraph.Proofs.Type.Preorder
import BlockGraph.Value.Control

/-!
# Stored types and values are read back

A type that is built through several instances is stored as a name and generics, and it is read back in one
step, from the registered type of that name. The step is possible because the generics of a formed type fit the
registered type (`Ty.Formed.fits_registered`), which needs transitivity, and so do the generics that were read
back in their place.

* `Ty.of_eq_ok`: an instance whose generics fit has the generics that were asked for;
* `Ty.Formed.fromPortable_portable`: the portable form of a formed type is read back as an equal type;
* `Registry.stored_forms_read_back`: the same for everything that can be stored.
-/

namespace BlockGraph

namespace Ty

variable {r : Registry} {t b p : Ty}

/-! ### Instances in one step -/

theorem fits_of_forall₂_beq {us ts : List Ty} (h : List.Forall₂ (fun u t => (u == t) = true) us ts) :
    fits us ts = true :=
  (fits_iff us ts).mpr (h.imp fun _ _ => isSubtype_of_beq)

-- Asking for no generics gives the type itself, which has none when none fit it.
theorem of_eq_ok {generics : List Ty}
    (h : b.traits.arbitraryGenerics = true ∨ fits generics b.generics = true) :
    ∃ u, b.of generics = .ok u ∧ u.name = b.name ∧
      List.Forall₂ (fun u g => (u == g) = true) u.generics generics := by
  have hself : ∀ ts : List Ty, List.Forall₂ (fun u g => (u == g) = true) ts ts :=
    fun ts => List.forall₂_same.mpr fun g _ => beq_refl g
  unfold of
  by_cases hshort : (!b.traits.arbitraryGenerics && (generics.isEmpty || beqAll generics b.generics)) = true
  · refine ⟨b, if_pos hshort, rfl, ?_⟩
    simp only [Bool.and_eq_true, Bool.not_eq_true', Bool.or_eq_true, List.isEmpty_iff] at hshort
    obtain ⟨hfixed, rfl | hequal⟩ := hshort
    · have hfits : fits [] b.generics = true := h.resolve_left (by simp [hfixed])
      rw [List.forall₂_nil_right_iff]
      exact List.forall₂_nil_left_iff.mp ((fits_iff [] b.generics).mp hfits)
    · exact ((beqAll_iff _ _).mp hequal).flip.imp fun _ _ => beq_symm
  · refine ⟨b.withGenerics generics, ?_, rfl, hself generics⟩
    have hfits : (b.traits.arbitraryGenerics || fits generics b.generics) = true := by simpa using h
    simp only [if_neg hshort, if_pos hfits]

/-! ### Formed types and the registered types of their names -/

namespace Formed

theorem arbitrary_of_registered (hp : Formed r p) (hget : r.get? p.name = some b)
    (harbitrary : p.traits.arbitraryGenerics = true) : b.traits.arbitraryGenerics = true := by
  cases hp with
  | base hget' _ _ harity _ _ =>
    obtain rfl := Option.some.inj (hget'.symm.trans hget)
    rw [← harity, harbitrary]
  | inst _ _ harity _ _ _ =>
    rw [harity] at harbitrary
    cases harbitrary

theorem fits_registered (ht : Formed r t) (hget : r.get? t.name = some b) :
    b.traits.arbitraryGenerics = true ∨ fits t.generics b.generics = true := by
  induction ht with
  | base hget' hgenerics _ _ _ _ =>
    obtain rfl := Option.some.inj (hget'.symm.trans hget)
    right
    rw [hgenerics]
    exact fits_of_forall₂_beq (List.forall₂_same.mpr fun g _ => beq_refl g)
  | @inst t p _ hname _ hfits hargs habove _ ih =>
    rw [hname] at hget
    rcases hfits with harbitrary | hfits
    · exact .inl (habove.arbitrary_of_registered hget harbitrary)
    · refine (ih hget).imp_right fun habove' => ?_
      refine fits_trans ?_ hfits habove'
      intro x hx y hy z _ hxy hyz
      exact (hargs x hx).isSubtype_trans (habove.generic hy) hxy hyz

/-! ### Reading back -/

theorem fromPortables_portables {ts : List Ty}
    (h : ∀ t ∈ ts, ∃ u, r.fromPortable t.portable = .ok u ∧ (u == t) = true) :
    ∃ us, r.fromPortables (portables ts) = .ok us ∧ List.Forall₂ (fun u t => (u == t) = true) us ts := by
  induction ts with
  | nil => exact ⟨[], rfl, .nil⟩
  | cons t ts ih =>
    rw [List.forall_mem_cons] at h
    obtain ⟨u, hread, hequal⟩ := h.1
    obtain ⟨us, hreads, hequals⟩ := ih h.2
    refine ⟨u :: us, ?_, .cons hequal hequals⟩
    rw [portables, Registry.fromPortables, hread, hreads]
    rfl

theorem fromPortable_portable (hr : r.Sound) (ht : Formed r t) :
    ∃ u, r.fromPortable t.portable = .ok u ∧ (u == t) = true := by
  induction t using inductionOnGenerics with
  | step t ih =>
    obtain ⟨b, hget⟩ := ht.registered
    obtain ⟨us, hreads, hequals⟩ := fromPortables_portables fun g hg => ih g hg (ht.generic hg)
    have hformed : ∀ u ∈ us, Formed r u := hr.fromPortables _ _ hreads
    have hfits : b.traits.arbitraryGenerics = true ∨ fits us b.generics = true := by
      refine (ht.fits_registered hget).imp_right fun hfits => ?_
      refine fits_trans ?_ (fits_of_forall₂_beq hequals) hfits
      intro x hx y hy z _ hxy hyz
      exact (hformed x hx).isSubtype_trans (ht.generic hy) hxy hyz
    obtain ⟨u, hof, hname, hgenerics⟩ := of_eq_ok hfits
    refine ⟨u, ?_, ?_⟩
    · have hresolve : r.resolve t.name = .ok b := by rw [Registry.resolve, hget]
      have hportable : t.portable = .mk t.name (portables t.generics) := by cases t; rfl
      rw [hportable, Registry.fromPortable, hresolve]
      show (r.fromPortables (portables t.generics) >>= b.of) = .ok u
      rw [hreads]
      exact hof
    · refine (beq_iff u t).mpr ⟨hname.trans (Registry.name_of_get? hget), ?_⟩
      refine forall₂_trans_of_mem ?_ hgenerics hequals
      intro _ _ _ _ _ _ h h'
      exact beq_trans h h'

end Formed

end Ty

/-! ### Values -/

theorem float_beq_self {x : Float} (h : x.isNaN = false) : (x == x) = true := by
  unfold Float.isNaN Float.Model.isNaN at h
  show Float.Model.UnpackedFloat.beq x.toModel.unpack x.toModel.unpack = true
  generalize x.toModel.unpack = u at h
  unfold Float.Model.UnpackedFloat.beq
  cases u with
  | notANumber => cases h
  | infinity sign => cases sign <;> rfl
  | zero sign => rfl
  | finite sign mantissa exponent hpos =>
    have hsame : (compare exponent exponent).then (compare mantissa mantissa) = .eq := by simp
    cases sign with
    | negative =>
      show (some ((compare exponent exponent).then (compare mantissa mantissa)).swap == some .eq) = true
      rw [hsame]
      rfl
    | positive =>
      show (some ((compare exponent exponent).then (compare mantissa mantissa)) == some .eq) = true
      rw [hsame]
      rfl

/-- The value is no list, its type is built from the registry, and its number is one: what is not a number differs
from itself. -/
def Value.Storable (r : Registry) : Value → Prop
  | .number x => x.isNaN = false
  | .type t => r.Built t
  | .list _ => False
  | .bool _ | .text _ | .node _ => True

namespace Registry

variable {r : Registry}

/-- **What is stored is read back.** The portable form of every type that is built from a registry stands for an
equal type, and every value that can be stored has a stored form that holds an equal value. -/
theorem stored_forms_read_back (hr : r.Reached) :
    (∀ t, r.Built t → ∃ u, r.fromPortable t.portable = .ok u ∧ (u == t) = true) ∧
    ∀ v : Value, v.Storable r →
      ∃ control w, v.toControl? = some control ∧ control.toValue r = .ok w ∧ (w == v) = true := by
  have htypes : ∀ t, r.Built t → ∃ u, r.fromPortable t.portable = .ok u ∧ (u == t) = true :=
    fun t ht => (ht.formed hr).fromPortable_portable hr.sound
  refine ⟨htypes, ?_⟩
  intro v hv
  cases v with
  | bool b => exact ⟨.boolean b, .bool b, rfl, rfl, beq_self_eq_true b⟩
  | number x => exact ⟨.number x, .number x, rfl, rfl, float_beq_self hv⟩
  | text s => exact ⟨.string s, .text s, rfl, rfl, beq_self_eq_true s⟩
  | node id => exact ⟨.node id, .node id, rfl, rfl, beq_self_eq_true id⟩
  | list items => exact hv.elim
  | type t =>
    obtain ⟨u, hread, hequal⟩ := htypes t hv
    refine ⟨.type t.portable, .type u, rfl, ?_, hequal⟩
    rw [Control.toValue, hread]
    rfl

namespace Numeric

/-! A tuple of a box, narrowed twice: the box to one of integers, inside the tuple. -/

def box : Ty := TypeDecl.toType { name := "Box", generics := [.named "Float"] } none [float]

def boxes : Registry := ⟨[float, int, tuple, box]⟩

theorem reached_boxes : boxes.Reached := by
  have h : types.registerAll [{ name := "Box", generics := [.named "Float"] }] = .ok boxes := rfl
  exact reached_types.registerAll h

def boxOfInt : Ty := box.withGenerics [int]

def tupleOfBox : Ty := tuple.withGenerics [box]

def narrowed : Ty := (tupleOfBox.withGenerics [boxOfInt]).renameSlots ["content"]

theorem built_narrowed : boxes.Built narrowed := by
  have hint : boxes.resolve "Int" = .ok int := rfl
  have htuple : boxes.resolve "Tuple" = .ok tuple := rfl
  have hbox : boxes.resolve "Box" = .ok box := rfl
  have hboxOfInt : boxes.Built boxOfInt := .of (.resolve hbox) (List.forall_mem_singleton.mpr (.resolve hint)) rfl
  have htupleOfBox : boxes.Built tupleOfBox :=
    .of (.resolve htuple) (List.forall_mem_singleton.mpr (.resolve hbox)) rfl
  exact .renameSlots _ (.of htupleOfBox (List.forall_mem_singleton.mpr hboxOfInt) rfl)

/-- The narrowed tuple is read back with the registered tuple as its parent. -/
theorem stored_forms_read_back_narrowed :
    boxes.Reached ∧ boxes.Built narrowed ∧ narrowed.parent = some tupleOfBox ∧
    (∃ u, boxes.fromPortable narrowed.portable = .ok u ∧ u.parent = some tuple ∧ (u == narrowed) = true) ∧
    ∃ w, (Control.type narrowed.portable).toValue boxes = .ok w ∧ (w == Value.type narrowed) = true := by
  obtain ⟨htypes, hvalues⟩ := stored_forms_read_back reached_boxes
  refine ⟨reached_boxes, built_narrowed, rfl, ?_, ?_⟩
  · obtain ⟨u, hread, hequal⟩ := htypes narrowed built_narrowed
    refine ⟨u, hread, ?_, hequal⟩
    have hparent : (boxes.fromPortable narrowed.portable).map Ty.parent = .ok (some tuple) := rfl
    rw [hread] at hparent
    exact Except.ok.inj hparent
  · obtain ⟨control, w, hstored, hread, hequal⟩ := hvalues (.type narrowed) built_narrowed
    cases hstored
    exact ⟨w, hread, hequal⟩

end Numeric

end Registry

end BlockGraph
