import BlockGraph.Proofs.Block.Catalog
import Mathlib.Data.List.Induction

/-!
# What a declaration is merged into

Entries are taken in one by one, and each is compared with the table that the entries before it made. Seen from the
declaration there is no table: an entry is `Refused` if it has no direction, or if its key belongs to another descriptor
among the entries before it. The first entry that is refused decides the error (`refusal`), and if there is none, the
table lists the first entry of each key.

* `BlockDecl.foldlM_claim_cases`: this, by induction over the entries from the last one backwards;
* `BlockDecl.normalize_eq_ok_iff` and `BlockDecl.normalize_eq_error`: what it says of schemas.
-/

namespace BlockGraph

/-! ### First occurrences -/

section EraseDups

variable {α : Type} {l : List α} {a : α} {r : α → α → Bool}

theorem eraseDupsBy_loop_cons (kept : List α) :
    List.eraseDupsBy.loop r (a :: l) kept = List.eraseDupsBy.loop r l (if kept.any (r a) then kept else a :: kept) := by
  rw [List.eraseDupsBy.loop]
  cases kept.any (r a) <;> rfl

theorem eraseDupsBy_loop_concat (kept : List α) :
    List.eraseDupsBy.loop r (l ++ [a]) kept =
      if (List.eraseDupsBy.loop r l kept).any (r a) then List.eraseDupsBy.loop r l kept
      else List.eraseDupsBy.loop r l kept ++ [a] := by
  induction l generalizing kept with
  | nil =>
    simp only [List.nil_append, List.eraseDupsBy.loop, List.any_reverse]
    split
    · next h => simp [h]
    · next h => simp [h]
  | cons b rest ih =>
    rw [List.cons_append, eraseDupsBy_loop_cons, eraseDupsBy_loop_cons, ih]

theorem eraseDupsBy_concat :
    (l ++ [a]).eraseDupsBy r = if (l.eraseDupsBy r).any (r a) then l.eraseDupsBy r else l.eraseDupsBy r ++ [a] :=
  eraseDupsBy_loop_concat []

theorem mem_of_mem_eraseDupsBy (h : a ∈ l.eraseDupsBy r) : a ∈ l := by
  induction l using List.reverseRecOn with
  | nil => exact h
  | append_singleton l b ih =>
    rw [eraseDupsBy_concat] at h
    rw [List.mem_append, List.mem_singleton]
    split at h
    · exact .inl (ih h)
    · rw [List.mem_append, List.mem_singleton] at h
      exact h.imp_left ih

theorem exists_mem_eraseDupsBy (hrefl : ∀ a, r a a = true) (h : a ∈ l) : ∃ b ∈ l.eraseDupsBy r, r a b = true := by
  induction l using List.reverseRecOn with
  | nil => cases h
  | append_singleton l b ih =>
    rw [eraseDupsBy_concat]
    rw [List.mem_append, List.mem_singleton] at h
    rcases h with h | rfl
    · obtain ⟨c, hc, hac⟩ := ih h
      split
      · exact ⟨c, hc, hac⟩
      · exact ⟨c, List.mem_append_left _ hc, hac⟩
    · split
      · next hany => exact List.any_eq_true.mp hany
      · exact ⟨a, by simp, hrefl a⟩

theorem eraseDupsBy_congr {r' : α → α → Bool} (h : ∀ a ∈ l, ∀ b ∈ l, r a b = r' a b) :
    l.eraseDupsBy r = l.eraseDupsBy r' := by
  induction l using List.reverseRecOn with
  | nil => rfl
  | append_singleton l b ih =>
    have hl : l.eraseDupsBy r = l.eraseDupsBy r' :=
      ih fun a ha c hc => h a (List.mem_append_left _ ha) c (List.mem_append_left _ hc)
    have hany : (l.eraseDupsBy r').any (r b) = (l.eraseDupsBy r').any (r' b) := by
      rw [Bool.eq_iff_iff, List.any_eq_true, List.any_eq_true]
      refine exists_congr fun c => and_congr_right fun hc => ?_
      rw [h b (by simp) c (List.mem_append_left _ (mem_of_mem_eraseDupsBy hc))]
    rw [eraseDupsBy_concat, eraseDupsBy_concat, hl, hany]

end EraseDups

namespace BlockDecl

/-- An entry in merge order, with its direction. -/
abbrev Entry := Descriptor × Option Direction

variable {block : String} {entries before : List Entry} {entry d e : Entry} {key : String}

/-! ### Entries that are refused -/

/-- The entry has no direction, or its key belongs to another descriptor before it. -/
def Refused (before : List Entry) (entry : Entry) : Prop :=
  entry.2 = none ∨ ∃ e ∈ before, e.1.decl.key = entry.1.decl.key ∧ e.1.tag ≠ entry.1.tag

/-- The error for an entry that is refused. That it has no direction comes first. -/
def refusal (block : String) (entry : Entry) : Error :=
  if entry.2 = none then .undirectedProperty block entry.1.decl.key else .duplicateProperty block entry.1.decl.key

/-- All entries have directions, and entries with the same key are occurrences of one descriptor. -/
def Mergeable (entries : List Entry) : Prop :=
  (∀ e ∈ entries, e.2 ≠ none) ∧ ∀ d ∈ entries, ∀ e ∈ entries, d.1.decl.key = e.1.decl.key → d.1.tag = e.1.tag

theorem mergeable_nil : Mergeable [] := by simp [Mergeable]

theorem mergeable_concat : Mergeable (before ++ [entry]) ↔ Mergeable before ∧ ¬ Refused before entry := by
  constructor
  · rintro ⟨hdir, hsame⟩
    refine ⟨⟨fun e he => hdir e (by simp [he]), fun d hd e he => hsame d (by simp [hd]) e (by simp [he])⟩, ?_⟩
    rintro (hnone | ⟨e, he, hkey, htag⟩)
    · exact hdir entry (by simp) hnone
    · exact htag (hsame e (by simp [he]) entry (by simp) hkey)
  · rintro ⟨⟨hdir, hsame⟩, hnot⟩
    rw [Refused, not_or, not_exists] at hnot
    have hlast : ∀ e ∈ before, e.1.decl.key = entry.1.decl.key → e.1.tag = entry.1.tag := by
      intro e he hkey
      by_contra htag
      exact hnot.2 e ⟨he, hkey, htag⟩
    constructor
    · intro e he
      rcases List.mem_append.mp he with he | he
      · exact hdir e he
      · rw [List.mem_singleton.mp he]
        exact hnot.1
    · intro d hd e he hkey
      rcases List.mem_append.mp hd with hd | hd <;> rcases List.mem_append.mp he with he | he
      · exact hsame d hd e he hkey
      · rw [List.mem_singleton.mp he] at hkey ⊢
        exact hlast d hd hkey
      · rw [List.mem_singleton.mp hd] at hkey ⊢
        exact (hlast e he hkey.symm).symm
      · rw [List.mem_singleton.mp hd, List.mem_singleton.mp he]

theorem Mergeable.of_append {after : List Entry} (h : Mergeable (before ++ after)) : Mergeable before :=
  ⟨fun e he => h.1 e (by simp [he]), fun d hd e he => h.2 d (by simp [hd]) e (by simp [he])⟩

/-! ### The table -/

def sameKey (d e : Entry) : Bool := d.1.decl.key == e.1.decl.key

/-- What an entry puts into a table. -/
def Entry.claim? (entry : Entry) : Option Claim :=
  entry.2.map fun direction => (entry.1.tag, entry.1.decl.settle direction)

/-- The table of the first entries of all keys. -/
def tableOf (entries : List Entry) : List Claim := (entries.eraseDupsBy sameKey).filterMap Entry.claim?

/-- The property of an entry, in the direction of the entry. -/
def Entry.property? (entry : Entry) : Option Property := entry.2.map entry.1.decl.settle

theorem claim?_of_direction {direction : Direction} (h : entry.2 = some direction) :
    entry.claim? = some (entry.1.tag, entry.1.decl.settle direction) := by
  rw [Entry.claim?, h]
  rfl

theorem map_tableOf (entries : List Entry) :
    (tableOf entries).map (·.2) = (entries.eraseDupsBy sameKey).filterMap Entry.property? := by
  rw [tableOf, List.map_filterMap]
  refine List.filterMap_congr fun e _ => ?_
  rw [Entry.claim?, Entry.property?, Option.map_map]
  rfl

theorem find?_tableOf (h : Mergeable entries) (he : e ∈ entries) (hkey : e.1.decl.key = key) :
    ∃ p, (tableOf entries).find? (·.2.key == key) = some (e.1.tag, p) := by
  obtain ⟨first, hfirst, hsame⟩ := exists_mem_eraseDupsBy (r := sameKey) (by simp [sameKey]) he
  obtain ⟨direction, hdir⟩ := Option.ne_none_iff_exists'.mp (h.1 first (mem_of_mem_eraseDupsBy hfirst))
  have hmem : (first.1.tag, first.1.decl.settle direction) ∈ tableOf entries :=
    List.mem_filterMap.mpr ⟨first, hfirst, claim?_of_direction hdir⟩
  have hfound : ((tableOf entries).find? (·.2.key == key)).isSome := by
    refine List.find?_isSome.mpr ⟨_, hmem, ?_⟩
    have hfirstKey : first.1.decl.key = key := by rw [← hkey]; exact (beq_iff_eq.mp hsame).symm
    simpa [PropDecl.settle] using hfirstKey
  obtain ⟨⟨tag, p⟩, hfind⟩ := Option.isSome_iff_exists.mp hfound
  -- whatever was found comes from an entry with the key, and they all have the same tag
  obtain ⟨source, hsource, hclaim⟩ := List.mem_filterMap.mp (List.mem_of_find?_eq_some hfind)
  obtain ⟨direction', hdir'⟩ := Option.ne_none_iff_exists'.mp (h.1 source (mem_of_mem_eraseDupsBy hsource))
  rw [claim?_of_direction hdir'] at hclaim
  have hpkey : p.key = key := by simpa using List.find?_some hfind
  cases hclaim
  have htag := h.2 source (mem_of_mem_eraseDupsBy hsource) e he (hpkey.trans hkey.symm)
  exact ⟨_, by rw [hfind, htag]⟩

theorem find?_tableOf_eq_none (h : ∀ e ∈ entries, e.1.decl.key ≠ key) :
    (tableOf entries).find? (·.2.key == key) = none := by
  rw [List.find?_eq_none]
  intro c hc
  obtain ⟨e, he, hclaim⟩ := List.mem_filterMap.mp hc
  rw [Entry.claim?, Option.map_eq_some_iff] at hclaim
  obtain ⟨direction, -, rfl⟩ := hclaim
  simpa [PropDecl.settle] using h e (mem_of_mem_eraseDupsBy he)

theorem claim_of_refused (h : Mergeable before) (hentry : Refused before entry) :
    claim block (tableOf before) entry = .error (refusal block entry) := by
  rw [claim, refusal]
  cases hdir : entry.2 with
  | none => simp
  | some direction =>
    obtain ⟨e, he, hkey, htag⟩ := hentry.resolve_left (by simp [hdir])
    obtain ⟨p, hfind⟩ := find?_tableOf h he hkey
    simp [hfind, htag]

theorem tableOf_concat_of_taken (he : e ∈ before) (hkey : e.1.decl.key = entry.1.decl.key) :
    tableOf (before ++ [entry]) = tableOf before := by
  obtain ⟨first, hfirst, hsame⟩ := exists_mem_eraseDupsBy (r := sameKey) (by simp [sameKey]) he
  have hany : (before.eraseDupsBy sameKey).any (sameKey entry) = true := by
    refine List.any_eq_true.mpr ⟨first, hfirst, ?_⟩
    rwa [sameKey, ← hkey]
  rw [tableOf, eraseDupsBy_concat, if_pos hany]
  rfl

theorem tableOf_concat_of_free {direction : Direction} (hdir : entry.2 = some direction)
    (hfree : ∀ e ∈ before, e.1.decl.key ≠ entry.1.decl.key) :
    tableOf (before ++ [entry]) = tableOf before ++ [(entry.1.tag, entry.1.decl.settle direction)] := by
  have hany : ¬ (before.eraseDupsBy sameKey).any (sameKey entry) = true := by
    rw [List.any_eq_true]
    rintro ⟨e, he, hsame⟩
    exact hfree e (mem_of_mem_eraseDupsBy he) (beq_iff_eq.mp hsame).symm
  rw [tableOf, eraseDupsBy_concat, if_neg hany, List.filterMap_append]
  simp [tableOf, claim?_of_direction hdir]

theorem claim_of_not_refused (h : Mergeable before) (hentry : ¬ Refused before entry) :
    claim block (tableOf before) entry = .ok (tableOf (before ++ [entry])) := by
  rw [Refused, not_or] at hentry
  obtain ⟨direction, hdir⟩ := Option.ne_none_iff_exists'.mp hentry.1
  by_cases htaken : ∃ e ∈ before, e.1.decl.key = entry.1.decl.key
  · obtain ⟨e, he, hkey⟩ := htaken
    obtain ⟨p, hfind⟩ := find?_tableOf h he hkey
    have htag : e.1.tag = entry.1.tag := by
      by_contra htag
      exact hentry.2 ⟨e, he, hkey, htag⟩
    rw [tableOf_concat_of_taken he hkey]
    simp [claim, hdir, hfind, htag]
  · have hfree : ∀ e ∈ before, e.1.decl.key ≠ entry.1.decl.key := by
      intro e he hkey
      exact htaken ⟨e, he, hkey⟩
    rw [tableOf_concat_of_free hdir hfree]
    simp [claim, hdir, find?_tableOf_eq_none hfree]

/-- **What entries are merged into**: the table of the first entries of all keys, or the error for the first entry that is
refused. -/
theorem foldlM_claim_cases (block : String) (entries : List Entry) :
    (Mergeable entries ∧ entries.foldlM (claim block) [] = .ok (tableOf entries)) ∨
    ∃ before entry after, entries = before ++ entry :: after ∧ Mergeable before ∧ Refused before entry ∧
      entries.foldlM (claim block) [] = .error (refusal block entry) := by
  induction entries using List.reverseRecOn with
  | nil => exact .inl ⟨mergeable_nil, rfl⟩
  | append_singleton before entry ih =>
    rw [List.foldlM_append]
    rcases ih with ⟨hmergeable, htable⟩ | ⟨first, bad, after, rfl, hfirst, hbad, herror⟩
    · rw [htable]
      have hlast : ([entry].foldlM (claim block) (tableOf before)) = claim block (tableOf before) entry := by simp
      by_cases hentry : Refused before entry
      · refine .inr ⟨before, entry, [], rfl, hmergeable, hentry, ?_⟩
        exact hlast.trans (claim_of_refused hmergeable hentry)
      · refine .inl ⟨mergeable_concat.mpr ⟨hmergeable, hentry⟩, ?_⟩
        exact hlast.trans (claim_of_not_refused hmergeable hentry)
    · refine .inr ⟨first, bad, after ++ [entry], by simp, hfirst, hbad, ?_⟩
      rw [herror]
      rfl

theorem foldlM_claim_eq_ok_iff {table : List Claim} :
    entries.foldlM (claim block) [] = .ok table ↔ Mergeable entries ∧ table = tableOf entries := by
  rcases foldlM_claim_cases block entries with ⟨h, hok⟩ | ⟨before, entry, after, rfl, -, hrefused, herror⟩
  · rw [hok, Except.ok.injEq]
    exact ⟨fun heq => ⟨h, heq.symm⟩, fun heq => heq.2.symm⟩
  · rw [herror]
    refine ⟨nofun, fun heq => ?_⟩
    have hprefix : Mergeable ((before ++ [entry]) ++ after) := by simpa using heq.1
    exact absurd hrefused (mergeable_concat.mp hprefix.of_append).2

/-! ### Schemas -/

variable {b : BlockDecl} {s : Schema}

def schemaOf (b : BlockDecl) (props : List Property) : Schema :=
  { name := b.name, category := b.category, isGlobal := b.isGlobal, props }

theorem normalize_eq (b : BlockDecl) :
    b.normalize = (b.mergeOrder.foldlM (claim b.name) []).map fun table => b.schemaOf (table.map (·.2)) := by
  rw [normalize]
  cases b.mergeOrder.foldlM (claim b.name) [] <;> rfl

theorem normalize_eq_ok_iff :
    b.normalize = .ok s ↔ Mergeable b.mergeOrder ∧ s = b.schemaOf ((tableOf b.mergeOrder).map (·.2)) := by
  rw [normalize_eq]
  cases h : b.mergeOrder.foldlM (claim b.name) [] with
  | error e =>
    refine ⟨nofun, fun hs => ?_⟩
    rw [foldlM_claim_eq_ok_iff.mpr ⟨hs.1, rfl⟩] at h
    cases h
  | ok table =>
    obtain ⟨hmergeable, rfl⟩ := foldlM_claim_eq_ok_iff.mp h
    rw [Except.map, Except.ok.injEq]
    exact ⟨fun hs => ⟨hmergeable, hs.symm⟩, fun hs => hs.2.symm⟩

theorem exists_normalize_iff : (∃ s, b.normalize = .ok s) ↔ Mergeable b.mergeOrder := by
  simp [normalize_eq_ok_iff]

theorem normalize_eq_error {err : Error} (h : b.normalize = .error err) :
    ∃ before entry after, b.mergeOrder = before ++ entry :: after ∧ Mergeable before ∧ Refused before entry ∧
      err = refusal b.name entry := by
  rw [normalize_eq] at h
  rcases foldlM_claim_cases b.name b.mergeOrder with ⟨-, hok⟩ | ⟨before, entry, after, hsplit, hbefore, hrefused, herror⟩
  · rw [hok] at h
    cases h
  · rw [herror] at h
    cases h
    exact ⟨before, entry, after, hsplit, hbefore, hrefused, rfl⟩

end BlockDecl

end BlockGraph
