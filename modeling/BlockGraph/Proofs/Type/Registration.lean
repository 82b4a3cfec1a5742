import BlockGraph.Proofs.Type.RoundTrip
import BlockGraph.Type.Builtin
import Mathlib.Data.List.Nodup

/-!
# Registrations one after the other

A declaration that is refused leaves the registry as it is, and one that is accepted puts one type at the end, whose
parent and generics were there before. So however the declarations come, the registry is `Orderly`: names are not
repeated, and types refer to earlier ones only. Nothing that is looked up or read back changes later.

* `Reached.orderly`: the invariant, by induction over the accepted declarations;
* `Orderly.lineage_subset`: the ancestors of a registered type were registered before it;
* `Ty.Formed.eponym_beq`: the ancestors of a type that have its name end in the registered type of the name;
* `fromPortable_mono`: what a portable form stands for does not change.
-/

namespace BlockGraph

namespace Ty

/-- The first type is the second, or it occurs in a generic or in the parent of the second. -/
inductive OccursIn : Ty → Ty → Prop
  | refl (t : Ty) : OccursIn t t
  | generic {u g t : Ty} (hg : g ∈ t.generics) (h : OccursIn u g) : OccursIn u t
  | parent {u p t : Ty} (hp : t.parent = some p) (h : OccursIn u p) : OccursIn u t

/-- The farthest ancestor of a type that has its name, or the type itself if there is none. -/
def eponym (t : Ty) : Ty := (t.lineage.filter (·.name == t.name)).getLastD t

theorem Formed.of_occursIn {r : Registry} {t u : Ty} (ht : Formed r t) (h : u.OccursIn t) : Formed r u := by
  induction h with
  | refl => exact ht
  | generic hg _ ih => exact ih (ht.generic hg)
  | parent hp _ ih => exact ih (ht.parent hp)

end Ty

namespace Registry

variable {r r' start : Registry} {decl : TypeDecl} {decls : List TypeDecl} {name : String} {t u p : Ty}

def names (r : Registry) : List String := r.types.map (·.name)

theorem mem_names_of_get? (h : r.get? name = some t) : name ∈ r.names :=
  List.mem_map.mpr ⟨t, List.mem_of_find?_eq_some h, name_of_get? h⟩

/-! ### Declarations, accepted or refused -/

/-- The registry after a declaration. It stays as it is when the declaration is refused. -/
def submit (r : Registry) (decl : TypeDecl) : Registry :=
  match r.register decl with
  | .ok (_, r') => r'
  | .error _ => r

def submitAll (r : Registry) (decls : List TypeDecl) : Registry := decls.foldl submit r

/-- The declarations that are accepted when they come one after the other. -/
def accepted (r : Registry) : List TypeDecl → List TypeDecl
  | [] => []
  | decl :: rest =>
    match r.register decl with
    | .ok (_, r') => decl :: r'.accepted rest
    | .error _ => r.accepted rest

theorem submit_eq_of_ok (h : r.register decl = .ok (t, r')) : r.submit decl = r' := by
  rw [submit, h]

theorem submit_eq_of_error {e : Error} (h : r.register decl = .error e) : r.submit decl = r := by
  rw [submit, h]

/-- The refused declarations leave no trace: the accepted ones alone give the same registry. -/
theorem registerAll_accepted (r : Registry) (decls : List TypeDecl) :
    r.registerAll (r.accepted decls) = .ok (r.submitAll decls) := by
  induction decls generalizing r with
  | nil => rfl
  | cons decl rest ih =>
    rw [submitAll, List.foldl_cons, accepted]
    cases h : r.register decl with
    | error e =>
      rw [submit_eq_of_error h]
      exact ih r
    | ok result =>
      obtain ⟨t, r'⟩ := result
      dsimp only
      rw [submit_eq_of_ok h, registerAll, List.foldlM_cons, h]
      exact ih r'

theorem submitAll_eq_of_registerAll (h : r.registerAll decls = .ok r') : r.submitAll decls = r' := by
  induction decls generalizing r with
  | nil => exact Except.ok.inj h
  | cons decl rest ih =>
    rw [registerAll, List.foldlM_cons, bind_eq_ok_iff] at h
    obtain ⟨next, hnext, hrest⟩ := h
    obtain ⟨⟨t, r''⟩, hdecl, h⟩ := bind_eq_ok_iff.mp hnext
    cases h
    rw [submitAll, List.foldl_cons, submit_eq_of_ok hdecl]
    exact ih hrest

theorem names_register (h : r.register decl = .ok (t, r')) : r'.names = r.names ++ [decl.name] := by
  obtain ⟨-, _, _, -, -, ht, rfl⟩ := register_eq_ok h
  rw [names, names, List.map_append, ht]
  rfl

theorem names_submitAll (r : Registry) (decls : List TypeDecl) :
    (r.submitAll decls).names = r.names ++ (r.accepted decls).map (·.name) := by
  induction decls generalizing r with
  | nil => simp [submitAll, accepted]
  | cons decl rest ih =>
    rw [submitAll, List.foldl_cons, accepted]
    cases h : r.register decl with
    | error e =>
      rw [submit_eq_of_error h]
      exact ih r
    | ok result =>
      obtain ⟨t, r'⟩ := result
      have hrest := ih r'
      rw [names_register h, List.append_assoc] at hrest
      rw [submit_eq_of_ok h]
      exact hrest

/-! ### The invariant -/

/-- Names are not repeated, all types are registered ones, and each type refers only to types before it. -/
structure Orderly (r : Registry) : Prop where
  nodup : r.names.Nodup
  base : ∀ t ∈ r.types, t.isBase = true
  parent : ∀ before t after, r.types = before ++ t :: after → ∀ p, t.parent = some p → p ∈ before
  generics : ∀ before t after, r.types = before ++ t :: after →
    ∀ g ∈ t.generics, ∀ u : Ty, u.OccursIn g → u.name ∈ before.map (·.name)

theorem last_or_before {types before after : List Ty} (h : types ++ [u] = before ++ t :: after) :
    (before = types ∧ t = u) ∨ ∃ rest, types = before ++ t :: rest := by
  rcases List.append_eq_append_iff.mp h with ⟨more, rfl, hmore⟩ | ⟨rest, rfl, hrest⟩
  · cases more with
    | nil => exact .inl ⟨List.append_nil types, (List.cons.inj hmore).1.symm⟩
    | cons v more => simp at hmore
  · cases rest with
    | nil => exact .inl ⟨(List.append_nil before).symm, (List.cons.inj hrest).1⟩
    | cons v rest =>
      obtain rfl : t = v := (List.cons.inj hrest).1
      exact .inr ⟨rest, rfl⟩

theorem Reached.orderly (hr : r.Reached) : r.Orderly := by
  induction hr with
  | empty => exact ⟨List.nodup_nil, by simp [Registry.empty], by simp [Registry.empty], by simp [Registry.empty]⟩
  | @register r r' decl t hr h ih =>
    obtain ⟨hget, parent, generics, hparent, hgenerics, ht, rfl⟩ := register_eq_ok h
    have hnew : decl.name ∉ r.names := by
      intro hmem
      obtain ⟨u, hu, hname⟩ := List.mem_map.mp hmem
      exact List.find?_eq_none.mp hget u hu (by simp [hname])
    refine ⟨?_, ?_, ?_, ?_⟩
    · rw [names_register h, List.nodup_append_comm]
      exact List.nodup_cons.mpr ⟨hnew, ih.nodup⟩
    · intro u hu
      rcases List.mem_append.mp hu with hu | hu
      · exact ih.base u hu
      · rw [List.mem_singleton.mp hu, ht]
        rfl
    · intro before u after hsplit p hp
      rcases last_or_before hsplit with ⟨rfl, rfl⟩ | ⟨rest, hsplit⟩
      · rw [ht] at hp
        obtain rfl : parent = some p := hp
        obtain ⟨name, hname⟩ := resolve_of_mapM hparent
        exact List.mem_of_find?_eq_some (resolve_eq_ok_iff.mp hname)
      · exact ih.parent before u rest hsplit p hp
    · intro before u after hsplit g hg v hv
      rcases last_or_before hsplit with ⟨rfl, rfl⟩ | ⟨rest, hsplit⟩
      · -- the generics are made from the registry before, where all that occurs in them is registered
        rw [ht] at hg
        have hformed : Ty.Formed r v := (hr.sound.fromPortables _ _ hgenerics g hg).of_occursIn hv
        obtain ⟨b, hb⟩ := hformed.registered
        exact mem_names_of_get? hb
      · exact ih.generics before u rest hsplit g hg v hv

theorem Orderly.resolve_eq_ok_iff (hr : r.Orderly) : r.resolve name = .ok t ↔ t ∈ r.types ∧ t.name = name := by
  rw [Registry.resolve_eq_ok_iff]
  constructor
  · intro h
    exact ⟨List.mem_of_find?_eq_some h, name_of_get? h⟩
  · rintro ⟨hmem, rfl⟩
    obtain ⟨found, hfound⟩ : ∃ found, r.get? t.name = some found :=
      Option.isSome_iff_exists.mp (List.find?_isSome.mpr ⟨t, hmem, by simp⟩)
    have hsame : found = t :=
      List.inj_on_of_nodup_map hr.nodup (List.mem_of_find?_eq_some hfound) hmem (name_of_get? hfound)
    rw [hfound, hsame]

theorem Orderly.lineage_subset (hr : r.Orderly) {before after : List Ty} (hsplit : r.types = before ++ t :: after) :
    ∀ u ∈ t.lineage, u ∈ before := by
  induction t using Ty.inductionOnParents generalizing before after with
  | step t ih =>
    intro u hu
    obtain ⟨p, hparent, hup⟩ := Ty.mem_lineage_iff.mp hu
    have hp : p ∈ before := hr.parent before t after hsplit p hparent
    rcases hup with rfl | hup
    · exact hp
    · obtain ⟨first, second, rfl⟩ := List.append_of_mem hp
      have hfirst : u ∈ first := ih p hparent (by simpa using hsplit) u hup
      exact List.mem_append_left _ hfirst

theorem Orderly.name_ne_of_mem_lineage (hr : r.Orderly) (ht : t ∈ r.types) (hu : u ∈ t.lineage) : u.name ≠ t.name := by
  obtain ⟨before, after, hsplit⟩ := List.append_of_mem ht
  have hbefore : u ∈ before := hr.lineage_subset hsplit u hu
  have hnodup := hr.nodup
  rw [names, hsplit, List.map_append, List.nodup_append] at hnodup
  exact hnodup.2.2 u.name (List.mem_map_of_mem hbefore) t.name (by simp)

end Registry

/-! ### The registered type of a name -/

theorem Ty.Formed.eponym_beq {r : Registry} {t b : Ty} (hr : r.Orderly) (ht : Formed r t)
    (hget : r.get? t.name = some b) : (t.eponym == b) = true := by
  induction ht with
  | @base t base hget' hgenerics hparent _ _ _ _ _ =>
    obtain rfl : b = base := Option.some.inj (hget.symm.trans hget')
    have hname : b.name = t.name := Registry.name_of_get? hget
    have hlineage : t.lineage = b.lineage := by
      cases hp : t.parent with
      | none => rw [lineage_of_parent_none hp, lineage_of_parent_none (hparent ▸ hp)]
      | some p => rw [lineage_of_parent hp, lineage_of_parent (hparent.symm.trans hp)]
    -- the ancestors of a registered type have other names
    have hnone : t.lineage.filter (·.name == t.name) = [] := by
      rw [hlineage, List.filter_eq_nil_iff, ← hname]
      intro u hu
      simpa using hr.name_ne_of_mem_lineage (List.mem_of_find?_eq_some hget) hu
    rw [eponym, hnone, List.getLastD_nil, beq_iff, hgenerics]
    exact ⟨hname.symm, List.forall₂_same.mpr fun g _ => beq_refl g⟩
  | @inst t p hparent hname _ _ _ _ _ ih =>
    have heponym : t.eponym = p.eponym := by
      rw [eponym, lineage_of_parent hparent, List.filter_cons_of_pos (by simp [hname]), List.getLastD_cons, hname,
        eponym]
    rw [heponym]
    exact ih (hname ▸ hget)

/-! ### What was read stays -/

namespace Registry

variable {r r' start : Registry} {decl : TypeDecl} {decls : List TypeDecl}

mutual

theorem fromPortable_mono (hr : ∀ name b, r.get? name = some b → r'.get? name = some b) :
    ∀ (p : Portable) (t : Ty), r.fromPortable p = .ok t → r'.fromPortable p = .ok t
  | .mk name generics, t, h => by
    rw [fromPortable, bind_eq_ok_iff] at h ⊢
    obtain ⟨base, hbase, h⟩ := h
    obtain ⟨args, hargs, h⟩ := bind_eq_ok_iff.mp h
    refine ⟨base, resolve_eq_ok_iff.mpr (hr name base (resolve_eq_ok_iff.mp hbase)), ?_⟩
    exact bind_eq_ok_iff.mpr ⟨args, fromPortables_mono hr generics args hargs, h⟩

theorem fromPortables_mono (hr : ∀ name b, r.get? name = some b → r'.get? name = some b) :
    ∀ (ps : List Portable) (ts : List Ty), r.fromPortables ps = .ok ts → r'.fromPortables ps = .ok ts
  | [], ts, h => h
  | p :: ps, ts, h => by
    rw [fromPortables, bind_eq_ok_iff] at h ⊢
    obtain ⟨first, hfirst, h⟩ := h
    obtain ⟨rest, hrest, h⟩ := bind_eq_ok_iff.mp h
    refine ⟨first, fromPortable_mono hr p first hfirst, ?_⟩
    exact bind_eq_ok_iff.mpr ⟨rest, fromPortables_mono hr ps rest hrest, h⟩

end

theorem get?_submitAll (r : Registry) (decls : List TypeDecl) (name : String) (b : Ty) (h : r.get? name = some b) :
    (r.submitAll decls).get? name = some b := by
  induction decls generalizing r with
  | nil => exact h
  | cons decl rest ih =>
    rw [submitAll, List.foldl_cons]
    refine ih (r.submit decl) ?_
    cases hregister : r.register decl with
    | error e => rw [submit_eq_of_error hregister, h]
    | ok result =>
      obtain ⟨t, r'⟩ := result
      rw [submit_eq_of_ok hregister]
      exact get?_of_register hregister name b h

theorem submitAll_induction {P : Registry → Prop} (hr : P r)
    (hstep : ∀ r r' decl t, decl ∈ decls → P r → r.register decl = .ok (t, r') → P r') : P (r.submitAll decls) := by
  induction decls generalizing r with
  | nil => exact hr
  | cons decl rest ih =>
    rw [submitAll, List.foldl_cons]
    refine ih ?_ fun r r' decl t hmem => hstep r r' decl t (List.mem_cons_of_mem _ hmem)
    cases h : r.register decl with
    | error e => rwa [submit_eq_of_error h]
    | ok result =>
      rw [submit_eq_of_ok h]
      exact hstep r result.2 decl result.1 List.mem_cons_self hr h

theorem Reached.submitAll (hr : r.Reached) (decls : List TypeDecl) : (r.submitAll decls).Reached :=
  hr.registerAll (r.registerAll_accepted decls)

end Registry

end BlockGraph
