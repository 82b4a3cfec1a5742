import BlockGraph.Graph.Document
import BlockGraph.Proofs.Json.Written

/-!
# Documents of graphs are read back

A reader takes the document of a value to that value, as long as it may open the brackets in it. The readers are
followed part by part, from the portable types in controls up to the graph, over the document `Json.toDoc` that is met
in the text.

* `Portable.read_toDoc`: a type opens two brackets for each level of generics;
* `Control.Storable.read_toDoc`: a control is read back when its number is, and its type nests within the limit;
* `Graph.read_toDoc`: so a graph is read back when its controls are.
-/

namespace BlockGraph

/-! ### Maps from their entries -/

namespace KeyMap

variable {α : Type}

theorem insertEntry_last {key : String} {value : α} {entries : List (String × α)} (h : ∀ e ∈ entries, e.1 < key) :
    insertEntry key value entries = entries ++ [(key, value)] := by
  induction entries with
  | nil => rfl
  | cons e rest ih =>
    obtain ⟨k, v⟩ := e
    have hk : k < key := h (k, v) List.mem_cons_self
    rw [insertEntry, if_neg (String.lt_asymm hk), if_neg (String.ne_of_lt hk).symm,
      ih fun e he => h e (List.mem_cons_of_mem _ he)]
    rfl

theorem entries_insertAll {m : KeyMap α} {entries : List (String × α)}
    (h : ((m.entries ++ entries).map (·.1)).Pairwise (· < ·)) :
    (m.insertAll entries).entries = m.entries ++ entries := by
  induction entries generalizing m with
  | nil => rw [List.append_nil]; rfl
  | cons e rest ih =>
    obtain ⟨key, value⟩ := e
    have hlast : (m.insert key value).entries = m.entries ++ [(key, value)] := by
      refine insertEntry_last fun e he => ?_
      rw [List.map_append, List.pairwise_append] at h
      exact h.2.2 e.1 (List.mem_map_of_mem he) key (by simp)
    have hrest : ((m.insert key value).insertAll rest).entries = (m.insert key value).entries ++ rest := by
      apply ih
      rw [hlast]
      simpa using h
    rw [insertAll, List.foldl_cons, ← insertAll, hrest, hlast]
    simp

theorem ofList_entries (m : KeyMap α) : ofList m.entries = m := by
  have hentries : (ofList m.entries).entries = m.entries := entries_insertAll (m := empty) m.sorted
  rwa [KeyMap.mk.injEq]

end KeyMap

/-! ### Lists and entries -/

namespace Json

variable {α : Type} {read : Nat → Doc → Result α} {write : α → Json} {budget : Nat}

theorem mapM_toDocs {xs : List α} (h : ∀ x ∈ xs, read budget (write x).toDoc = .ok x) :
    (toDocs (xs.map write)).mapM (read budget) = .ok xs := by
  induction xs with
  | nil => rfl
  | cons x xs ih =>
    rw [List.map_cons, toDocs, List.mapM_cons, h x List.mem_cons_self, ih fun y hy => h y (List.mem_cons_of_mem _ hy)]
    rfl

theorem readList_toDoc {xs : List α} (h : ∀ x ∈ xs, read budget (write x).toDoc = .ok x) :
    readList read (budget + 1) (Json.array (xs.map write)).toDoc = .ok xs := by
  rw [toDoc, readList, mapM_toDocs h]
  rfl

theorem readEntries_toDoc {entries : List (String × α)} (h : ∀ e ∈ entries, read budget (write e.2).toDoc = .ok e.2) :
    readEntries read (budget + 1) (Json.object (entries.map fun e => (e.1, write e.2))).toDoc = .ok entries := by
  rw [toDoc, readEntries]
  refine bind_eq_ok_iff.mpr ⟨entries, ?_, rfl⟩
  induction entries with
  | nil => rfl
  | cons e entries ih =>
    rw [List.map_cons, toDocMembers, List.mapM_cons, ih fun e' he' => h e' (List.mem_cons_of_mem _ he')]
    dsimp only [readKey]
    rw [h e List.mem_cons_self]
    rfl

/-! ### Records -/

section Records

variable {σ : Type} {fields : List (Field σ)} {field : Field σ} {s s' final start : σ} {key name : String} {v : Json}
  {members : List (String × Json)}

theorem read_member (hfind : fields.find? (·.name == key) = some field) (hgiven : field.given s = false)
    (hread : field.read budget v.toDoc s = .ok s')
    (hrest : (toDocMembers members).foldlM (readMember fields budget) s' = .ok final) :
    (toDocMembers ((key, v) :: members)).foldlM (readMember fields budget) s = .ok final := by
  have hmember : readMember fields budget s (⟨.ok key, none⟩, v.toDoc) = .ok s' := by
    refine bind_eq_ok_iff.mpr ⟨key, rfl, ?_⟩
    rw [hfind]
    dsimp only
    rw [hgiven]
    exact hread
  rw [toDocMembers, List.foldlM_cons, hmember]
  exact hrest

theorem readRecord_toDoc (hmembers : (toDocMembers members).foldlM (readMember fields budget) start = .ok final)
    (hgiven : (fields.find? fun field => !field.optional && !field.given final) = none) :
    readRecord name fields start (budget + 1) (Json.object members).toDoc = .ok final := by
  rw [toDoc, readRecord]
  refine bind_eq_ok_iff.mpr ⟨final, hmembers, ?_⟩
  rw [hgiven]
  rfl

end Records

theorem readVariant_toDoc {known : List String} {readKind : String → Nat → Doc → Result α} {kind : String} {v : Json}
    {x : α} (hknown : kind ∈ known) (hread : readKind kind budget v.toDoc = .ok x) :
    readVariant known readKind (budget + 1) (Json.object [(kind, v)]).toDoc = .ok x := by
  refine bind_eq_ok_iff.mpr ⟨kind, rfl, ?_⟩
  dsimp only
  rw [if_neg fun h => h hknown]
  exact bind_eq_ok_iff.mpr ⟨x, hread, rfl⟩

end Json

/-! ### Portable types -/

namespace Portable

mutual

/-- How deep the generics of a type nest, the type included. -/
def nesting : Portable → Nat
  | .mk _ generics => nestingAll generics + 1

def nestingAll : List Portable → Nat
  | [] => 0
  | p :: rest => max p.nesting (nestingAll rest)

end

mutual

theorem legible_toJson : ∀ p : Portable, p.toJson.Legible
  | .mk _ generics => ⟨trivial, legible_toJsons generics, trivial⟩

theorem legible_toJsons : ∀ ps : List Portable, Json.LegibleItems (toJsons ps)
  | [] => trivial
  | p :: rest => ⟨legible_toJson p, legible_toJsons rest⟩

end

mutual

/-- A type is read back: each level of generics opens two brackets. -/
theorem read_toDoc : ∀ (p : Portable) (budget : Nat), 2 * p.nesting ≤ budget → read budget p.toJson.toDoc = .ok p
  | .mk name generics, budget, hbudget => by
    rw [nesting] at hbudget
    obtain ⟨budget, rfl⟩ : ∃ b, budget = b + 2 := ⟨budget - 2, by omega⟩
    have hgenerics : Json.readList (fun _ => read budget) (budget + 1) (.array (Json.toDocs (toJsons generics)) none) =
        .ok generics := by
      rw [Json.readList, mapM_toDocs generics budget (by omega)]
      rfl
    rw [read, toJson]
    refine bind_eq_ok_iff.mpr ⟨{ name := some name, generics := some generics }, ?_, rfl⟩
    refine Json.readRecord_toDoc (Json.read_member rfl rfl rfl (Json.read_member rfl rfl ?_ rfl)) rfl
    exact bind_eq_ok_iff.mpr ⟨generics, hgenerics, rfl⟩

theorem mapM_toDocs : ∀ (ps : List Portable) (budget : Nat), 2 * nestingAll ps ≤ budget →
    (Json.toDocs (toJsons ps)).mapM (read budget) = .ok ps
  | [], _, _ => rfl
  | p :: rest, budget, hbudget => by
    rw [nestingAll] at hbudget
    rw [toJsons, Json.toDocs, List.mapM_cons, read_toDoc p budget (by omega), mapM_toDocs rest budget (by omega)]
    rfl

end

end Portable

/-! ### Controls, nodes and graphs -/

namespace Control

/-- The control can be stored: its number is read back from its text, and its type nests within the limit, where five
brackets are open around a control of a graph. -/
def Storable : Control → Prop
  | .number x => Json.ReadsBack x
  | .type p => 2 * p.nesting + 5 ≤ Json.maxDepth
  | _ => True

theorem Storable.legible {c : Control} (h : c.Storable) : c.toJson.Legible := by
  cases c with
  | number x =>
    obtain ⟨n, hparse, -⟩ := Json.ReadsBack.legible h
    exact ⟨⟨n, hparse⟩, trivial⟩
  | type p => exact ⟨p.legible_toJson, trivial⟩
  | _ => exact ⟨trivial, trivial⟩

theorem Storable.read_toDoc {c : Control} (h : c.Storable) : read (Json.maxDepth - 4) c.toJson.toDoc = .ok c := by
  cases c with
  | number x =>
    obtain ⟨n, hparse, hn⟩ := Json.ReadsBack.legible h
    have hread : Json.readFloat (Json.ofFloat x).toDoc = .ok x := by
      rw [Json.ofFloat, Json.toDoc, hparse, ← hn]
      rfl
    exact Json.readVariant_toDoc (by decide) (bind_eq_ok_iff.mpr ⟨x, hread, rfl⟩)
  | type p =>
    have hread : Portable.read (Json.maxDepth - 5) p.toJson.toDoc = .ok p := p.read_toDoc _ (Nat.le_sub_of_add_le h)
    exact Json.readVariant_toDoc (by decide) (bind_eq_ok_iff.mpr ⟨p, hread, rfl⟩)
  | _ => rfl

end Control

theorem Connection.read_toDoc (c : Connection) (budget : Nat) : read (budget + 1) c.toJson.toDoc = .ok c := rfl

theorem Node.read_toDoc {n : Node} (h : ∀ e ∈ n.controls.entries, e.2.Storable) :
    read (Json.maxDepth - 2) n.toJson.toDoc = .ok n := by
  have hcontrols : Json.readEntries Control.read (Json.maxDepth - 3)
      (Json.object (n.controls.entries.map fun e => (e.1, e.2.toJson))).toDoc = .ok n.controls.entries :=
    Json.readEntries_toDoc fun e he => (h e he).read_toDoc
  refine bind_eq_ok_iff.mpr ⟨⟨some n.id, some n.block, some n.controls⟩, ?_, rfl⟩
  refine Json.readRecord_toDoc (Json.read_member rfl rfl rfl (Json.read_member rfl rfl rfl
    (Json.read_member rfl rfl ?_ rfl))) rfl
  refine bind_eq_ok_iff.mpr ⟨n.controls.entries, hcontrols, ?_⟩
  rw [KeyMap.ofList_entries]
  rfl

namespace Graph

theorem read_toDoc {g : Graph} (h : ∀ n ∈ g.nodes, ∀ e ∈ n.controls.entries, e.2.Storable) :
    read Json.maxDepth g.toDocument.toDoc = .ok g := by
  have hnodes : Json.readList Node.read (Json.maxDepth - 1)
      (Json.array (g.nodes.map Node.toJson)).toDoc = .ok g.nodes :=
    Json.readList_toDoc fun n hn => Node.read_toDoc (h n hn)
  have hconnections : Json.readList Connection.read (Json.maxDepth - 1)
      (Json.array (g.connections.map Connection.toJson)).toDoc = .ok g.connections :=
    Json.readList_toDoc fun c _ => c.read_toDoc _
  refine bind_eq_ok_iff.mpr ⟨⟨some g.nodes, some g.connections, some g.metadata⟩, ?_, rfl⟩
  refine Json.readRecord_toDoc (Json.read_member rfl rfl (bind_eq_ok_iff.mpr ⟨_, hnodes, rfl⟩)
    (Json.read_member rfl rfl (bind_eq_ok_iff.mpr ⟨_, hconnections, rfl⟩) (Json.read_member rfl rfl rfl rfl))) rfl

theorem legible_toDocument {g : Graph} (h : ∀ n ∈ g.nodes, ∀ e ∈ n.controls.entries, e.2.Storable) :
    g.toDocument.Legible := by
  have hnodes : Json.LegibleItems (g.nodes.map Node.toJson) := by
    rw [Json.legibleItems_iff]
    intro v hv
    obtain ⟨n, hn, rfl⟩ := List.mem_map.mp hv
    refine ⟨trivial, trivial, Json.legibleMembers_iff.mpr fun m hm => ?_, trivial⟩
    obtain ⟨e, he, rfl⟩ := List.mem_map.mp hm
    exact (h n hn e he).legible
  have hconnections : Json.LegibleItems (g.connections.map Connection.toJson) := by
    rw [Json.legibleItems_iff]
    intro v hv
    obtain ⟨c, -, rfl⟩ := List.mem_map.mp hv
    exact ⟨trivial, trivial, trivial, trivial, trivial⟩
  exact ⟨hnodes, hconnections, ⟨trivial, trivial, trivial, trivial⟩, trivial⟩

/-- **A graph is read back from its text**, with its nodes, their controls, its connections and its metadata as they
were and in their order. Ids may be used twice, connections may lead nowhere, and texts may hold any characters. The
numbers in controls have to be read back from their own texts, and the types in them to nest within the limit of the
reader. -/
theorem fromJson_toJson (g : Graph)
    (hnumbers : ∀ n ∈ g.nodes, ∀ key x, (key, .number x) ∈ n.controls.entries → Json.ReadsBack x)
    (htypes : ∀ n ∈ g.nodes, ∀ key p, (key, .type p) ∈ n.controls.entries → 2 * p.nesting + 5 ≤ Json.maxDepth) :
    fromJson g.toJson = .ok g := by
  have hstorable : ∀ n ∈ g.nodes, ∀ e ∈ n.controls.entries, e.2.Storable := by
    rintro n hn ⟨key, control⟩ he
    cases control with
    | number x => exact hnumbers n hn key x he
    | type p => exact htypes n hn key p he
    | _ => trivial
  have hread : Json.readWhole read g.toJson = .ok g := by
    rw [Json.readWhole, toJson, Json.parse_pretty (legible_toDocument hstorable)]
    exact bind_eq_ok_iff.mpr ⟨g, read_toDoc hstorable, rfl⟩
  rw [fromJson, hread]
  rfl

/-! ### A sketch -/

/-- Two nodes of one id, with controls of all kinds, and a connection to a node that is not there. -/
def sketch : Graph where
  nodes :=
    [ ⟨"a", "First \"block\"",
        ⟨[("flag", .boolean true), ("ratio", .number 1.5e-7), ("word", .string "back\\slash, \x01 and 😀\n")], by decide⟩⟩,
      ⟨"a", "Second",
        ⟨[("kind", .type (.mk "Map" [.named "Text", .mk "Array" [.named "Int"]])), ("peer", .node "b")], by decide⟩⟩ ]
  connections := [⟨"a", "out", "nowhere", "in"⟩, ⟨"a", "out", "a", "in"⟩]
  metadata := { name := "café", description := "", version := "1.0.0" }

theorem scale_ratio : Decimal.scale 15 (-8) = some 1.5e-7 := by
  have hdown : Decimal.scaleDown (UInt64.ofNat 15).toFloat 8 = 1.5e-7 := by
    rw [Decimal.scaleDown]
    decide +kernel
  show some (Decimal.scaleDown (UInt64.ofNat 15).toFloat 8) = _
  rw [hdown]

theorem readsBack_ratio : Json.ReadsBack 1.5e-7 := by
  have htext : (Json.ofFloat 1.5e-7).compact.toList = ['1', '.', '5', 'e', '-', '7'] := by decide +kernel
  let numeral : Decimal.Numeral := ⟨false, [1], some [5], some (true, [7])⟩
  have hnumeral : numeral.read = some (.float 1.5e-7) := by
    show (Decimal.scale 15 (-8)).map _ = _
    rw [scale_ratio]
    rfl
  have hparse : Json.Doc.parse ['1', '.', '5', 'e', '-', '7'] = (.number (.ok (.float 1.5e-7)) none, some []) := by
    show (Json.Doc.number (numeral.read.elim _ _) none, some []) = _
    rw [hnumeral]
    rfl
  rw [Json.ReadsBack, Json.readWhole, htext, hparse]
  rfl

theorem fromJson_toJson_sketch :
    (∀ n ∈ sketch.nodes, ∀ key x, (key, .number x) ∈ n.controls.entries → Json.ReadsBack x) ∧
    (∀ n ∈ sketch.nodes, ∀ key p, (key, .type p) ∈ n.controls.entries → 2 * p.nesting + 5 ≤ Json.maxDepth) ∧
    fromJson sketch.toJson = .ok sketch := by
  have hnumbers : ∀ n ∈ sketch.nodes, ∀ key x, (key, .number x) ∈ n.controls.entries → Json.ReadsBack x := by
    intro n hn key x hx
    simp only [sketch, List.mem_cons, List.not_mem_nil, or_false] at hn
    rcases hn with rfl | rfl
    · obtain ⟨-, rfl⟩ : key = "ratio" ∧ x = 1.5e-7 := by simpa using hx
      exact readsBack_ratio
    · simp at hx
  have htypes : ∀ n ∈ sketch.nodes, ∀ key p, (key, .type p) ∈ n.controls.entries →
      2 * p.nesting + 5 ≤ Json.maxDepth := by
    intro n hn key p hp
    simp only [sketch, List.mem_cons, List.not_mem_nil, or_false] at hn
    rcases hn with rfl | rfl
    · simp at hp
    · obtain ⟨-, rfl⟩ : key = "kind" ∧ p = .mk "Map" [.named "Text", .mk "Array" [.named "Int"]] := by simpa using hp
      decide
  exact ⟨hnumbers, htypes, fromJson_toJson sketch hnumbers htypes⟩

end Graph

end BlockGraph
