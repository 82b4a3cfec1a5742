/-!
# Maps in key order

A `KeyMap` is a list of entries in strictly increasing key order. Two maps with the same entries are
equal, and its entries come in one order whatever the order of insertion was.
-/

namespace BlockGraph

/-- A map from texts, kept in strictly increasing key order. -/
structure KeyMap (α : Type) where
  entries : List (String × α)
  sorted : (entries.map (·.1)).Pairwise (· < ·)

namespace KeyMap

variable {α : Type}

def empty : KeyMap α := ⟨[], by simp⟩

instance : Inhabited (KeyMap α) := ⟨empty⟩

instance : EmptyCollection (KeyMap α) := ⟨empty⟩

/-- Puts an entry into a list of entries in key order, in place of one with the same key. -/
def insertEntry (key : String) (value : α) : List (String × α) → List (String × α)
  | [] => [(key, value)]
  | (k, v) :: rest =>
    if key < k then (key, value) :: (k, v) :: rest
    else if key = k then (key, value) :: rest
    else (k, v) :: insertEntry key value rest

theorem mem_keys_insertEntry {key k : String} {value : α} {entries : List (String × α)}
    (h : k ∈ (insertEntry key value entries).map (·.1)) : k = key ∨ k ∈ entries.map (·.1) := by
  induction entries with
  | nil => simpa [insertEntry] using h
  | cons e rest ih =>
    obtain ⟨k', v'⟩ := e
    simp only [insertEntry] at h
    split at h
    · simpa using h
    · split at h
      · simp only [List.map_cons, List.mem_cons] at h ⊢
        exact h.imp_right Or.inr
      · simp only [List.map_cons, List.mem_cons] at h ⊢
        rcases h with h | h
        · exact Or.inr (Or.inl h)
        · exact (ih h).imp_right Or.inr

theorem sorted_insertEntry {key : String} {value : α} {entries : List (String × α)}
    (h : (entries.map (·.1)).Pairwise (· < ·)) :
    ((insertEntry key value entries).map (·.1)).Pairwise (· < ·) := by
  induction entries with
  | nil => simp [insertEntry]
  | cons e rest ih =>
    obtain ⟨k', v'⟩ := e
    simp only [List.map_cons, List.pairwise_cons] at h
    simp only [insertEntry]
    split
    · rename_i hlt
      simp only [List.map_cons, List.pairwise_cons, List.mem_cons]
      refine ⟨?_, h.1, h.2⟩
      rintro a (rfl | ha)
      · exact hlt
      · exact String.lt_trans hlt (h.1 a ha)
    · split
      · rename_i heq
        subst heq
        simpa using h
      · rename_i hnlt hne
        have hgt : k' < key := by
          rcases Decidable.em (k' < key) with h' | h'
          · exact h'
          · exact absurd (String.le_antisymm (String.not_lt.1 h') (String.not_lt.1 hnlt)) hne
        simp only [List.map_cons, List.pairwise_cons]
        refine ⟨fun a ha => ?_, ih h.2⟩
        rcases mem_keys_insertEntry ha with rfl | ha
        · exact hgt
        · exact h.1 a ha

theorem find?_insertEntry {key k : String} {value : α} {entries : List (String × α)} :
    (insertEntry key value entries).find? (·.1 == k) =
      if key = k then some (key, value) else entries.find? (·.1 == k) := by
  induction entries with
  | nil => by_cases h : key = k <;> simp [insertEntry, h]
  | cons e rest ih =>
    obtain ⟨k', v'⟩ := e
    simp only [insertEntry]
    split
    · by_cases h : key = k <;> simp [h]
    · split
      · rename_i heq
        by_cases h : key = k
        · simp [h]
        · have hother : ¬ k' = k := heq ▸ h
          simp [h, hother]
      · rename_i hne
        by_cases hk : k' = k
        · have h : ¬ key = k := fun h => hne (h.trans hk.symm)
          simp [hk, h]
        · rw [List.find?_cons_of_neg (by simpa using hk), List.find?_cons_of_neg (by simpa using hk)]
          exact ih

/-- The map with the entry put in, in place of one with the same key. -/
def insert (m : KeyMap α) (key : String) (value : α) : KeyMap α :=
  ⟨insertEntry key value m.entries, sorted_insertEntry m.sorted⟩

def get? (m : KeyMap α) (key : String) : Option α :=
  (m.entries.find? (·.1 == key)).map (·.2)

theorem get?_insert {m : KeyMap α} {key k : String} {value : α} :
    (m.insert key value).get? k = if key = k then some value else m.get? k := by
  rw [get?, insert, find?_insertEntry]
  split <;> rfl

/-- The map with all entries of a list put in, later ones over earlier ones. -/
def insertAll (m : KeyMap α) (entries : List (String × α)) : KeyMap α :=
  entries.foldl (fun m (key, value) => m.insert key value) m

/-- The map of a list of entries, later ones over earlier ones. -/
def ofList (entries : List (String × α)) : KeyMap α := empty.insertAll entries

/-- The keys in increasing order. -/
def keys (m : KeyMap α) : List String := m.entries.map (·.1)

end KeyMap

end BlockGraph
