import BlockGraph.Proofs.Block.Merge
import BlockGraph.Proofs.Block.Shapes

/-!
# Positions of properties

A table may keep the position of each key beside its properties, so that a property is found without a search
(`IndexedTable`). The position of a key is the number of properties when it was claimed, and nothing moves them later:
a key has a position just when the property at that position has the key (`IndexedTable.Tracks`). So the table with
positions takes in what the searched one takes in (`agrees_claim`, `agrees_foldlM`), and its positions are in range and
find what a search finds.

`BlockDecl.normalize_exact` says what the merge of a declaration accepts, what it refuses and for which entry, which
properties it lists, and how they are found.
-/

namespace BlockGraph

namespace KeyMap

variable {α β : Type}

def map (f : α → β) (m : KeyMap α) : KeyMap β :=
  ⟨m.entries.map fun e => (e.1, f e.2), by simpa [Function.comp_def] using m.sorted⟩

theorem get?_map {f : α → β} {m : KeyMap α} {key : String} : (m.map f).get? key = (m.get? key).map f := by
  simp [get?, map, List.find?_map, Function.comp_def]

end KeyMap

/-- Properties with a map from their keys to their positions, and to the tags of their descriptors. -/
structure IndexedTable where
  claimed : KeyMap (Nat × Tag)
  props : List Property

namespace IndexedTable

def claim (block : String) (t : IndexedTable) (entry : Descriptor × Option Direction) : Except Error IndexedTable :=
  match entry.2 with
  | none => .error (.undirectedProperty block entry.1.decl.key)
  | some direction =>
    match t.claimed.get? entry.1.decl.key with
    | some (_, tag) => if tag = entry.1.tag then .ok t else .error (.duplicateProperty block entry.1.decl.key)
    | none =>
      .ok { claimed := t.claimed.insert entry.1.decl.key (t.props.length, entry.1.tag)
            props := t.props ++ [entry.1.decl.settle direction] }

variable {block key : String} {t : IndexedTable} {table : List Claim} {entry : Descriptor × Option Direction}
  {entries : List (Descriptor × Option Direction)}

/-- The table with positions holds the same properties, and just the keys of a table have positions. -/
def Tracks (t : IndexedTable) (table : List Claim) : Prop :=
  t.props = table.map (·.2) ∧
  ∀ key i tag, t.claimed.get? key = some (i, tag) ↔ ∃ p, table[i]? = some (tag, p) ∧ p.key = key

/-- Both tables refuse an entry for the same reason, or both take it in. -/
inductive Agrees : Except Error IndexedTable → Except Error (List Claim) → Prop
  | error (e : Error) : Agrees (.error e) (.error e)
  | ok {t : IndexedTable} {table : List Claim} (h : t.Tracks table) : Agrees (.ok t) (.ok table)

theorem tracks_empty : Tracks ⟨.empty, []⟩ [] := by
  simp [Tracks, KeyMap.get?, KeyMap.empty]

theorem Tracks.get?_of_find? {tag : Tag} {p : Property} (h : t.Tracks table)
    (hfind : table.find? (·.2.key == key) = some (tag, p)) : ∃ i, t.claimed.get? key = some (i, tag) := by
  obtain ⟨i, hi⟩ := List.mem_iff_getElem?.mp (List.mem_of_find?_eq_some hfind)
  have hkey : p.key = key := by simpa using List.find?_some hfind
  exact ⟨i, (h.2 key i tag).mpr ⟨p, hi, hkey⟩⟩

theorem Tracks.get?_of_find?_eq_none (h : t.Tracks table) (hfind : table.find? (·.2.key == key) = none) :
    t.claimed.get? key = none := by
  by_contra hsome
  obtain ⟨⟨i, tag⟩, hget⟩ := Option.ne_none_iff_exists'.mp hsome
  obtain ⟨p, hp, hkey⟩ := (h.2 key i tag).mp hget
  exact List.find?_eq_none.mp hfind _ (List.mem_of_getElem? hp) (by simpa using hkey)

theorem Tracks.concat {tag : Tag} {p : Property} (h : t.Tracks table)
    (hfind : table.find? (·.2.key == p.key) = none) :
    Tracks ⟨t.claimed.insert p.key (t.props.length, tag), t.props ++ [p]⟩ (table ++ [(tag, p)]) := by
  have hlength : t.props.length = table.length := by rw [h.1, List.length_map]
  refine ⟨by simp [h.1], fun key i tag' => ?_⟩
  rw [KeyMap.get?_insert]
  by_cases hkey : p.key = key
  · rw [if_pos hkey]
    constructor
    · rintro ⟨⟩
      exact ⟨p, by simp [hlength], hkey⟩
    · rintro ⟨q, hq, hqkey⟩
      -- no earlier property has the key, so the one with the key is the last
      have hlast : ¬ i < table.length := by
        intro hlt
        rw [List.getElem?_append_left hlt] at hq
        exact List.find?_eq_none.mp hfind _ (List.mem_of_getElem? hq) (by simp [hqkey, hkey])
      rw [List.getElem?_append_right (by omega), List.getElem?_singleton] at hq
      split at hq
      · cases hq
        rw [show i = t.props.length by omega]
      · cases hq
  · rw [if_neg hkey, h.2]
    refine exists_congr fun q => and_congr_left fun hqkey => ?_
    by_cases hlt : i < table.length
    · rw [List.getElem?_append_left hlt]
    · rw [List.getElem?_append_right (by omega), List.getElem?_eq_none (by omega), List.getElem?_singleton]
      split
      · refine ⟨nofun, fun heq => absurd ?_ hkey⟩
        cases heq
        exact hqkey
      · rfl

theorem agrees_claim (h : t.Tracks table) : Agrees (t.claim block entry) (BlockDecl.claim block table entry) := by
  rw [claim, BlockDecl.claim]
  cases hdir : entry.2 with
  | none => exact .error _
  | some direction =>
    cases hfind : table.find? (·.2.key == entry.1.decl.key) with
    | some found =>
      obtain ⟨i, hget⟩ := h.get?_of_find? hfind
      simp only [hget]
      split
      · exact .ok h
      · exact .error _
    | none =>
      simp only [h.get?_of_find?_eq_none hfind]
      exact .ok (h.concat hfind)

theorem agrees_foldlM (h : t.Tracks table) :
    Agrees (entries.foldlM (claim block) t) (entries.foldlM (BlockDecl.claim block) table) := by
  induction entries generalizing t table with
  | nil => exact .ok h
  | cons entry rest ih =>
    rw [List.foldlM_cons, List.foldlM_cons]
    have hstep : Agrees (t.claim block entry) (BlockDecl.claim block table entry) := agrees_claim h
    generalize t.claim block entry = step at hstep
    generalize BlockDecl.claim block table entry = step' at hstep
    cases hstep with
    | error e => exact .error e
    | ok hnext => exact ih hnext

end IndexedTable

/-- A schema with a map from its keys to positions. -/
structure IndexedSchema where
  schema : Schema
  index : KeyMap Nat

namespace BlockDecl

/-- The schema of a declaration with the positions of its keys. -/
def indexed (b : BlockDecl) : Except Error IndexedSchema := do
  let t ← b.mergeOrder.foldlM (IndexedTable.claim b.name) ⟨.empty, []⟩
  return { schema := b.schemaOf t.props, index := t.claimed.map (·.1) }

variable {b : BlockDecl} {s : Schema} {entries : List Entry}

theorem agrees_mergeOrder (b : BlockDecl) :
    IndexedTable.Agrees (b.mergeOrder.foldlM (IndexedTable.claim b.name) ⟨.empty, []⟩)
      (b.mergeOrder.foldlM (claim b.name) []) := IndexedTable.agrees_foldlM IndexedTable.tracks_empty

theorem schema_indexed (b : BlockDecl) : b.indexed.map (·.schema) = b.normalize := by
  have hagrees := agrees_mergeOrder b
  rw [normalize_eq, indexed]
  generalize b.mergeOrder.foldlM (IndexedTable.claim b.name) ⟨.empty, []⟩ = run at hagrees ⊢
  generalize b.mergeOrder.foldlM (claim b.name) [] = run' at hagrees ⊢
  cases hagrees with
  | error e => rfl
  | @ok t table htracks =>
    show Except.ok (b.schemaOf t.props) = Except.ok (b.schemaOf (table.map (·.2)))
    rw [htracks.1]

theorem get?_index {index : KeyMap Nat} (h : b.indexed = .ok ⟨s, index⟩) {key : String} {i : Nat} :
    index.get? key = some i ↔ ∃ p, s.props[i]? = some p ∧ p.key = key := by
  have hagrees := agrees_mergeOrder b
  rw [indexed] at h
  generalize b.mergeOrder.foldlM (IndexedTable.claim b.name) ⟨.empty, []⟩ = run at hagrees h
  generalize b.mergeOrder.foldlM (claim b.name) [] = run' at hagrees
  cases hagrees with
  | error e => cases h
  | @ok t table htracks =>
    cases h
    have hprops : (b.schemaOf t.props).props = table.map (·.2) := htracks.1
    rw [KeyMap.get?_map, hprops, List.getElem?_map]
    constructor
    · intro hget
      obtain ⟨⟨j, tag⟩, hclaimed, rfl⟩ := Option.map_eq_some_iff.mp hget
      obtain ⟨p, hp, hkey⟩ := (htracks.2 key j tag).mp hclaimed
      exact ⟨p, by rw [hp]; rfl, hkey⟩
    · rintro ⟨p, hp, hkey⟩
      obtain ⟨⟨tag, q⟩, hq, rfl⟩ := Option.map_eq_some_iff.mp hp
      rw [(htracks.2 key i tag).mpr ⟨q, hq, hkey⟩]
      rfl

theorem exists_indexed (h : b.normalize = .ok s) : ∃ index, b.indexed = .ok ⟨s, index⟩ := by
  have hschema := schema_indexed b
  rw [h] at hschema
  cases hindexed : b.indexed with
  | error e =>
    rw [hindexed] at hschema
    cases hschema
  | ok t =>
    rw [hindexed] at hschema
    cases hschema
    exact ⟨t.index, rfl⟩

/-! ### The merge, exactly -/

theorem prop?_index {index : KeyMap Nat} (hnodup : (s.props.map (·.key)).Nodup) (h : b.indexed = .ok ⟨s, index⟩)
    (key : String) : (index.get? key).bind (s.props[·]?) = s.prop? key := by
  cases hget : index.get? key with
  | some i =>
    obtain ⟨p, hp, hkey⟩ := (get?_index h).mp hget
    rw [(Schema.prop?_eq_some_iff hnodup).mpr ⟨List.mem_of_getElem? hp, hkey⟩]
    exact hp
  | none =>
    symm
    by_contra hsome
    obtain ⟨p, hfound⟩ := Option.ne_none_iff_exists'.mp hsome
    obtain ⟨hmem, hkey⟩ := (Schema.prop?_eq_some_iff hnodup).mp hfound
    obtain ⟨i, hi⟩ := List.mem_iff_getElem?.mp hmem
    rw [(get?_index h).mpr ⟨p, hi, hkey⟩] at hget
    cases hget

def sameTag (d e : Entry) : Bool := d.1.tag = e.1.tag

theorem eraseDupsBy_sameKey (hcoherent : Coherent (entries.map (·.1))) (h : Mergeable entries) :
    entries.eraseDupsBy sameKey = entries.eraseDupsBy sameTag := by
  refine eraseDupsBy_congr fun d hd e he => ?_
  rw [Bool.eq_iff_iff, sameKey, sameTag, beq_iff_eq, decide_eq_true_iff]
  refine ⟨h.2 d hd e he, fun htag => ?_⟩
  rw [hcoherent d.1 (List.mem_map_of_mem hd) e.1 (List.mem_map_of_mem he) htag]

theorem direction?_ne_none_iff {d : PropDecl} : d.direction? ≠ none ↔ d.output ∨ d.input ∨ d.control := by
  rw [PropDecl.direction?]
  split_ifs <;> simp [*]

theorem directed_iff (b : BlockDecl) :
    (∀ e ∈ b.mergeOrder, e.2 ≠ none) ↔
      ∀ props, b.shape = .unified props → ∀ d ∈ props, d.decl.output ∨ d.decl.input ∨ d.decl.control := by
  cases hshape : b.shape with
  | unified props =>
    simp only [mergeOrder, hshape, List.forall_mem_map, direction?_ne_none_iff, Shape.unified.injEq, forall_eq']
  | split inputs outputs controls =>
    constructor
    · intro _ props hprops
      cases hprops
    · intro _ e he
      simp only [mergeOrder, hshape, List.mem_append, List.mem_map] at he
      rcases he with (⟨d, -, rfl⟩ | ⟨d, -, rfl⟩) | ⟨d, -, rfl⟩ <;> simp

/-- **Merging is exact.** A declaration has a schema just when each entry of a single list has a flag and entries with
the same key are occurrences of one descriptor. If not, the error is that of the first entry that has no direction or
whose key belongs to another descriptor before it. If so, the schema lists the first occurrence of each descriptor in
merge order, no two properties have the same key, and each key finds the property with the key and nothing else. The
positions that are kept on the way are in range, and what stands there is the same property. -/
theorem normalize_exact (b : BlockDecl) :
    ((∃ s, b.normalize = .ok s) ↔
      (∀ props, b.shape = .unified props → ∀ d ∈ props, d.decl.output ∨ d.decl.input ∨ d.decl.control) ∧
      ∀ d ∈ b.mergeOrder, ∀ e ∈ b.mergeOrder, d.1.decl.key = e.1.decl.key → d.1.tag = e.1.tag) ∧
    (∀ err, b.normalize = .error err → ∃ before entry after, b.mergeOrder = before ++ entry :: after ∧
      Mergeable before ∧ Refused before entry ∧ err = refusal b.name entry) ∧
    (∀ s, b.normalize = .ok s →
      (Coherent (b.mergeOrder.map (·.1)) → s.props = (b.mergeOrder.eraseDupsBy sameTag).filterMap Entry.property?) ∧
      (s.props.map (·.key)).Nodup ∧
      (∀ key p, s.prop? key = some p ↔ p ∈ s.props ∧ p.key = key) ∧
      ∃ index, b.indexed = .ok ⟨s, index⟩ ∧ (∀ key i, index.get? key = some i → i < s.props.length) ∧
        ∀ key, (index.get? key).bind (s.props[·]?) = s.prop? key) ∧
    b.indexed.map (·.schema) = b.normalize := by
  refine ⟨?_, fun err => normalize_eq_error, fun s hs => ?_, schema_indexed b⟩
  · rw [exists_normalize_iff, Mergeable, directed_iff]
  · have hnodup := nodup_normalize hs
    obtain ⟨index, hindexed⟩ := exists_indexed hs
    refine ⟨fun hcoherent => ?_, hnodup, fun key p => Schema.prop?_eq_some_iff hnodup, index, hindexed, ?_,
      prop?_index hnodup hindexed⟩
    · obtain ⟨hmergeable, rfl⟩ := normalize_eq_ok_iff.mp hs
      rw [← eraseDupsBy_sameKey hcoherent hmergeable, ← map_tableOf]
      rfl
    · intro key i hget
      obtain ⟨p, hp, -⟩ := (get?_index hindexed).mp hget
      exact (List.getElem?_eq_some_iff.mp hp).1

/-- A literal whose value is an output, and a control as well: the same descriptor or another one by its tag. -/
def literalBlock (control : Tag) : BlockDecl :=
  { name := "Literal"
    shape := .split [] [⟨.shared "value", { key := "value", type := ⟨"Any", none, [], {}, .empty, true⟩ }⟩]
      [⟨control, { key := "value", type := ⟨"Any", none, [], {}, .empty, true⟩ }⟩] }

/-- The value is listed once, as an output, if the control is the same descriptor. Else the control is refused. -/
theorem normalize_exact_literal :
    let shared := literalBlock (.shared "value")
    let clashing := literalBlock (.single 1)
    (∃ s, shared.normalize = .ok s ∧ Coherent (shared.mergeOrder.map (·.1)) ∧
      s.props.map (fun p => (p.key, p.direction)) = [("value", .output)]) ∧
    ∃ before entry after, clashing.mergeOrder = before ++ entry :: after ∧ Refused before entry ∧
      clashing.normalize = .error (refusal "Literal" entry) := by
  intro shared clashing
  constructor
  · obtain ⟨s, hs⟩ : ∃ s, shared.normalize = .ok s := ⟨_, rfl⟩
    have hcoherent : Coherent (shared.mergeOrder.map (·.1)) := by
      simp [Coherent, shared, literalBlock, mergeOrder]
    obtain ⟨-, -, hok, -⟩ := normalize_exact shared
    refine ⟨s, hs, hcoherent, ?_⟩
    rw [(hok s hs).1 hcoherent]
    rfl
  · obtain ⟨err, herr⟩ : ∃ err, clashing.normalize = .error err := ⟨_, rfl⟩
    obtain ⟨-, herror, -⟩ := normalize_exact clashing
    obtain ⟨before, entry, after, horder, -, hrefused, rfl⟩ := herror err herr
    exact ⟨before, entry, after, horder, hrefused, herr⟩

end BlockDecl

end BlockGraph
