import BlockGraph.Block.Schema
import Mathlib.Data.List.Nodup

/-!
# Keys of blocks are different

A catalog is `Reached` when it comes about by adding declared blocks. Merging a declaration adds a property only
under a key that is not taken (`BlockDecl.nodup_claim`), so the keys of each block of a reached catalog are
different, and each key that a program may read as an argument is found as an input or a control.
-/

namespace BlockGraph

namespace BlockDecl

variable {block : String} {table table' : List Claim}

theorem claim_eq_ok {entry : Descriptor × Option Direction} (h : claim block table entry = .ok table') :
    (∃ p, table.find? (·.2.key == entry.1.decl.key) = some (entry.1.tag, p)) ∧ table' = table ∨
    ∃ direction, entry.2 = some direction ∧ table.find? (·.2.key == entry.1.decl.key) = none ∧
      table' = table ++ [(entry.1.tag, entry.1.decl.settle direction)] := by
  unfold claim at h
  cases hdir : entry.2 with
  | none => simp [hdir] at h
  | some direction =>
    simp only [hdir] at h
    cases hfind : table.find? (·.2.key == entry.1.decl.key) with
    | some found =>
      simp only [hfind] at h
      split at h
      · next htag =>
        cases h
        exact .inl ⟨⟨found.2, by rw [← htag]⟩, rfl⟩
      · cases h
    | none =>
      simp only [hfind] at h
      cases h
      exact .inr ⟨direction, rfl, rfl, rfl⟩

theorem nodup_claim {entry : Descriptor × Option Direction} (hnodup : (table.map (·.2.key)).Nodup)
    (h : claim block table entry = .ok table') : (table'.map (·.2.key)).Nodup := by
  rcases claim_eq_ok h with ⟨-, rfl⟩ | ⟨direction, -, hfind, rfl⟩
  · exact hnodup
  · rw [List.map_append, List.nodup_append]
    refine ⟨hnodup, by simp, ?_⟩
    intro key hkey other hother heq
    obtain ⟨taken, htaken, rfl⟩ := List.mem_map.mp hkey
    have hnew : other = entry.1.decl.key := by simpa [PropDecl.settle] using hother
    have hne := List.find?_eq_none.mp hfind taken htaken
    exact hne (by simp [heq, hnew])

theorem nodup_foldlM_claim {entries : List (Descriptor × Option Direction)}
    (hnodup : (table.map (·.2.key)).Nodup) (h : entries.foldlM (claim block) table = .ok table') :
    (table'.map (·.2.key)).Nodup := by
  induction entries generalizing table with
  | nil =>
    cases h
    exact hnodup
  | cons entry rest ih =>
    rw [List.foldlM_cons, bind_eq_ok_iff] at h
    obtain ⟨next, hclaim, hrest⟩ := h
    exact ih (nodup_claim hnodup hclaim) hrest

theorem nodup_normalize {b : BlockDecl} {s : Schema} (h : b.normalize = .ok s) : (s.props.map (·.key)).Nodup := by
  obtain ⟨table, htable, h⟩ := bind_eq_ok_iff.mp h
  cases h
  have hkeys := nodup_foldlM_claim (by simp) htable
  simpa [List.map_map, Function.comp_def] using hkeys

theorem name_normalize {b : BlockDecl} {s : Schema} (h : b.normalize = .ok s) : s.name = b.name := by
  obtain ⟨table, -, h⟩ := bind_eq_ok_iff.mp h
  cases h
  rfl

end BlockDecl

theorem Schema.prop?_of_mem {s : Schema} {p : Property} (hnodup : (s.props.map (·.key)).Nodup) (hp : p ∈ s.props) :
    s.prop? p.key = some p := by
  obtain ⟨found, hfound⟩ : ∃ found, s.prop? p.key = some found :=
    Option.isSome_iff_exists.mp (List.find?_isSome.mpr ⟨p, hp, by simp⟩)
  have hkey : found.key = p.key := by simpa using List.find?_some hfound
  have hmem : found ∈ s.props := List.mem_of_find?_eq_some hfound
  rw [hfound, List.inj_on_of_nodup_map hnodup hmem hp hkey]

theorem Schema.prop?_eq_some_iff {s : Schema} (hnodup : (s.props.map (·.key)).Nodup) {key : String} {p : Property} :
    s.prop? key = some p ↔ p ∈ s.props ∧ p.key = key := by
  constructor
  · intro h
    exact ⟨List.mem_of_find?_eq_some h, by simpa using List.find?_some h⟩
  · rintro ⟨hp, rfl⟩
    exact prop?_of_mem hnodup hp

theorem Schema.mem_argumentKeys {s : Schema} {key : String} :
    key ∈ s.argumentKeys ↔ ∃ p ∈ s.props, p.isOutput = false ∧ p.key = key := by
  simp [argumentKeys, and_assoc]

namespace Catalog

/-- A catalog that comes about by adding declared blocks. -/
inductive Reached : Catalog → Prop
  | empty : Reached .empty
  | insert {c c' : Catalog} {b : BlockDecl} {s : Schema} (hc : Reached c) (h : c.insert b = .ok (s, c')) : Reached c'

theorem mem_blocks_of_insert {c c' : Catalog} {b : BlockDecl} {s t : Schema} (h : c.insert b = .ok (s, c'))
    (ht : t ∈ c'.blocks) : t ∈ c.blocks ∨ b.normalize = .ok t := by
  unfold Catalog.insert at h
  split at h
  · cases h
  · obtain ⟨s', hs', h⟩ := bind_eq_ok_iff.mp h
    cases h
    rcases List.mem_append.mp ht with ht | ht
    · exact .inl ht
    · rw [List.mem_singleton.mp ht]
      exact .inr hs'

theorem Reached.nodup_keys {c : Catalog} (hc : c.Reached) : ∀ s ∈ c.blocks, (s.props.map (·.key)).Nodup := by
  induction hc with
  | empty => intro s hs; cases hs
  | insert _ h ih =>
    intro t ht
    rcases mem_blocks_of_insert h ht with hold | hnew
    · exact ih t hold
    · exact BlockDecl.nodup_normalize hnew

theorem forall_mem_insertAll {kind : Schema → Prop} {c c' : Catalog} {decls : List BlockDecl}
    (h : c.insertAll decls = .ok c') (hc : ∀ s ∈ c.blocks, kind s)
    (hdecls : ∀ b ∈ decls, ∀ s, b.normalize = .ok s → kind s) : ∀ s ∈ c'.blocks, kind s := by
  induction decls generalizing c with
  | nil =>
    cases h
    exact hc
  | cons b rest ih =>
    rw [insertAll, List.foldlM_cons, bind_eq_ok_iff] at h
    obtain ⟨next, hnext, hrest⟩ := h
    obtain ⟨⟨s, added⟩, hadded, hnext⟩ := bind_eq_ok_iff.mp hnext
    cases hnext
    rw [List.forall_mem_cons] at hdecls
    refine ih hrest (fun u hu => ?_) hdecls.2
    rcases mem_blocks_of_insert hadded hu with hold | hnew
    · exact hc u hold
    · exact hdecls.1 u hnew

theorem insertAll_eq_ok {c : Catalog} {decls : List BlockDecl} {schemas : List Schema}
    (h : List.Forall₂ (fun b s => b.normalize = .ok s) decls schemas)
    (hnames : ((c.blocks ++ schemas).map (·.name)).Nodup) : c.insertAll decls = .ok ⟨c.blocks ++ schemas⟩ := by
  induction h generalizing c with
  | nil => rw [List.append_nil]; rfl
  | @cons b s decls schemas hs _ ih =>
    have hfree : c.contains b.name = false := by
      rw [contains, get?, Option.isSome_eq_false_iff, Option.isNone_iff_eq_none, List.find?_eq_none]
      intro taken htaken heq
      rw [List.map_append, List.nodup_append] at hnames
      refine hnames.2.2 taken.name (List.mem_map_of_mem htaken) s.name (by simp) ?_
      rw [beq_iff_eq.mp heq, BlockDecl.name_normalize hs]
    have hinsert : c.insert b = .ok (s, ⟨c.blocks ++ [s]⟩) := by
      rw [insert, hfree, hs]
      rfl
    have hrest := @ih ⟨c.blocks ++ [s]⟩ (by rwa [List.append_cons] at hnames)
    rw [List.append_cons, insertAll, List.foldlM_cons, hinsert]
    exact hrest

end Catalog

end BlockGraph
