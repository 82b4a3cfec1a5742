import BlockGraph.Proofs.Block.Merge
import Mathlib.Data.List.Pairwise

/-!
# Declarations that are added to

A declaration is begun with one list or with three, and properties without flags are added to it one by one
(`BlockDecl.addAll`). In one list each of them is given a flag, which makes it a descriptor of its own, so no key may
come twice. In three lists a shared descriptor stays what it is, and its key may come again with the same descriptor.

So the two shapes give the same properties to the same keys as long as no key comes twice, and both are refused if a key
comes with two descriptors. They differ where keys are repeated and all repetitions are of one shared descriptor: three
lists take this, and one list refuses it (`BlockDecl.shapes_agree_iff`).
-/

namespace BlockGraph

namespace BlockDecl

/-- A property that is added in a direction. A label marks an occurrence of a shared descriptor. -/
structure Addition where
  direction : Direction
  decl : PropDecl
  label : Option String := none

def addAll (b : BlockDecl) (calls : List Addition) : BlockDecl :=
  calls.foldl (fun b c => b.push c.direction c.decl c.label) b

variable {b : BlockDecl} {calls : List Addition} {c d : Addition} {direction : Direction}

/-! ### Entries of additions -/

namespace Addition

/-- Both additions are of one shared descriptor. -/
def SameObject (c d : Addition) : Prop := c.label ≠ none ∧ c.label = d.label

theorem SameObject.symm (h : c.SameObject d) : d.SameObject c := ⟨h.2 ▸ h.1, h.2.symm⟩

/-- The entry of an addition in one list, by the number of additions before it. -/
def flagged (c : Addition × Nat) : Entry := (⟨.single c.2, c.1.decl.directed c.1.direction⟩, some c.1.direction)

/-- The entry of an addition in the list of its direction. -/
def listed (c : Addition × Nat) : Entry :=
  (⟨(c.1.label.map .shared).getD (.single c.2), c.1.decl⟩, some c.1.direction)

/-- The descriptors that are added in a direction. -/
def listedIn (calls : List Addition) (direction : Direction) : List Descriptor :=
  (calls.zipIdx.filter (·.1.direction = direction)).map fun c => (listed c).1

theorem listedIn_concat :
    listedIn (calls ++ [c]) direction =
      listedIn calls direction ++ if c.direction = direction then [(listed (c, calls.length)).1] else [] := by
  by_cases h : c.direction = direction <;> simp [listedIn, List.zipIdx_append, h]

theorem mem_map_listedIn {e : Entry} :
    e ∈ (listedIn calls direction).map (·, some direction) ↔
      ∃ c ∈ calls.zipIdx, c.1.direction = direction ∧ listed c = e := by
  simp only [listedIn, List.mem_map, List.mem_filter, decide_eq_true_eq]
  constructor
  · rintro ⟨_, ⟨c, ⟨hc, rfl⟩, rfl⟩, rfl⟩
    exact ⟨c, hc, rfl, rfl⟩
  · rintro ⟨c, hc, rfl, rfl⟩
    exact ⟨_, ⟨c, ⟨hc, rfl⟩, rfl⟩, rfl⟩

theorem tag_listed_eq_iff {c d : Addition × Nat} (h : c.2 = d.2 → c.1 = d.1) :
    (listed c).1.tag = (listed d).1.tag ↔ c.2 = d.2 ∨ c.1.SameObject d.1 := by
  by_cases hplace : c.2 = d.2
  · simp [listed, hplace, h hplace]
  · cases hc : c.1.label <;> cases hd : d.1.label <;> simp [listed, SameObject, hc, hd, hplace]

end Addition

/-! ### Adding one by one -/

theorem addAll_concat : b.addAll (calls ++ [c]) = (b.addAll calls).push c.direction c.decl c.label := by
  simp [addAll]

section Push

variable {decl : PropDecl} {label : Option String}

theorem name_push : (b.push direction decl label).name = b.name := by
  rw [push]
  cases b.shape <;> cases direction <;> rfl

theorem size_push : (b.push direction decl label).shape.size = b.shape.size + 1 := by
  cases hshape : b.shape with
  | unified props => simp [push, hshape, Shape.size]
  | split inputs outputs controls =>
    cases direction <;> simp only [push, hshape, Shape.size, List.length_append, List.length_singleton] <;> omega

theorem push_unified {props : List Descriptor} (hshape : b.shape = .unified props) (hdir : decl.direction? = none) :
    (b.push direction decl label).shape = .unified (props ++ [⟨.single b.shape.size, decl.directed direction⟩]) := by
  simp [push, hshape, hdir]

theorem push_split {inputs outputs controls : List Descriptor} (hshape : b.shape = .split inputs outputs controls) :
    (b.push direction decl label).shape =
      let entry : Descriptor := ⟨(label.map .shared).getD (.single b.shape.size), decl⟩
      .split (inputs ++ if direction = .input then [entry] else [])
        (outputs ++ if direction = .output then [entry] else [])
        (controls ++ if direction = .control then [entry] else []) := by
  cases direction <;> simp [push, hshape]

end Push

theorem name_addAll : (b.addAll calls).name = b.name := by
  induction calls using List.reverseRecOn with
  | nil => rfl
  | append_singleton calls c ih => rw [addAll_concat, name_push, ih]

theorem size_addAll : (b.addAll calls).shape.size = b.shape.size + calls.length := by
  induction calls using List.reverseRecOn with
  | nil => rfl
  | append_singleton calls c ih =>
    rw [addAll_concat, size_push, ih, List.length_append]
    rfl

theorem shape_addAll_unified (h : ∀ c ∈ calls, c.decl.direction? = none) :
    (addAll { b with shape := .unified [] } calls).shape =
      .unified (calls.zipIdx.map fun c => (Addition.flagged c).1) := by
  induction calls using List.reverseRecOn with
  | nil => rfl
  | append_singleton calls c ih =>
    rw [addAll_concat, push_unified (ih fun d hd => h d (by simp [hd])) (h c (by simp)), size_addAll]
    simp [List.zipIdx_append, Addition.flagged, Shape.size]

theorem shape_addAll_split :
    (addAll { b with shape := .split [] [] [] } calls).shape =
      .split (Addition.listedIn calls .input) (Addition.listedIn calls .output)
        (Addition.listedIn calls .control) := by
  induction calls using List.reverseRecOn with
  | nil => rfl
  | append_singleton calls c ih =>
    rw [addAll_concat, push_split ih, size_addAll]
    simp [Addition.listedIn_concat, Addition.listed, Shape.size]

theorem direction?_directed {decl : PropDecl} (h : decl.direction? = none) :
    (decl.directed direction).direction? = some direction := by
  rw [PropDecl.direction?] at h
  split_ifs at h with hout hin hcontrol
  cases direction <;> simp [PropDecl.directed, PropDecl.direction?, hout, hin]

theorem mem_mergeOrder_unified (h : ∀ c ∈ calls, c.decl.direction? = none) (e : Entry) :
    e ∈ (addAll { b with shape := .unified [] } calls).mergeOrder ↔ ∃ c ∈ calls.zipIdx, Addition.flagged c = e := by
  simp only [mergeOrder, shape_addAll_unified h, List.map_map, List.mem_map, Function.comp_apply]
  refine exists_congr fun c => and_congr_right fun hc => ?_
  rw [Addition.flagged, direction?_directed (h c.1 (List.fst_mem_of_mem_zipIdx hc))]

theorem mem_mergeOrder_split (e : Entry) :
    e ∈ (addAll { b with shape := .split [] [] [] } calls).mergeOrder ↔
      ∃ c ∈ calls.zipIdx, Addition.listed c = e := by
  simp only [mergeOrder, shape_addAll_split, List.mem_append, Addition.mem_map_listedIn]
  constructor
  · rintro ((⟨c, hc, -, he⟩ | ⟨c, hc, -, he⟩) | ⟨c, hc, -, he⟩) <;> exact ⟨c, hc, he⟩
  · rintro ⟨c, hc, he⟩
    cases hdir : c.1.direction with
    | output => exact .inl (.inl ⟨c, hc, hdir, he⟩)
    | input => exact .inl (.inr ⟨c, hc, hdir, he⟩)
    | control => exact .inr ⟨c, hc, hdir, he⟩

/-! ### Both shapes -/

theorem eq_of_mem_zipIdx {α : Type} {l : List α} {a b : α × Nat} (ha : a ∈ l.zipIdx) (hb : b ∈ l.zipIdx)
    (h : a.2 = b.2) : a.1 = b.1 := by
  rw [List.mem_zipIdx_iff_getElem?] at ha hb
  rw [h, hb] at ha
  exact Option.some.inj ha.symm

theorem pairwise_iff_zipIdx {α : Type} {l : List α} {R : α → α → Prop} (hsymm : ∀ a b, R a b → R b a) :
    l.Pairwise R ↔ ∀ a ∈ l.zipIdx, ∀ b ∈ l.zipIdx, a.2 ≠ b.2 → R a.1 b.1 := by
  rw [List.pairwise_iff_getElem]
  constructor
  · intro h a ha b hb hne
    rw [List.mem_zipIdx_iff_getElem?, List.getElem?_eq_some_iff] at ha hb
    obtain ⟨hi, ha⟩ := ha
    obtain ⟨hj, hb⟩ := hb
    rw [← ha, ← hb]
    rcases Nat.lt_or_gt_of_ne hne with hlt | hgt
    · exact h _ _ hi hj hlt
    · exact hsymm _ _ (h _ _ hj hi hgt)
  · intro h i j hi hj hlt
    exact h (l[i], i) (by simp [List.mem_zipIdx_iff_getElem?]) (l[j], j) (by simp [List.mem_zipIdx_iff_getElem?])
      (Nat.ne_of_lt hlt)

/-- Entries that stand for additions in some order. They have the same tag at the same place, or as told otherwise. -/
structure StandsFor (entries : List Entry) (calls : List Addition) (entry : Addition × Nat → Entry)
    (same : Addition → Addition → Prop) : Prop where
  mem_iff : ∀ e, e ∈ entries ↔ ∃ c ∈ calls.zipIdx, entry c = e
  settled : ∀ c, (entry c).property? = some (c.1.decl.settle c.1.direction)
  tag_eq_iff : ∀ c ∈ calls.zipIdx, ∀ d ∈ calls.zipIdx,
    (entry c).1.tag = (entry d).1.tag ↔ c.2 = d.2 ∨ same c.1 d.1
  symm : ∀ c d, same c d → same d c

namespace StandsFor

variable {entries : List Entry} {entry : Addition × Nat → Entry} {same : Addition → Addition → Prop}
  {s : Schema} {p : Property}

theorem unified (b : BlockDecl) (h : ∀ c ∈ calls, c.decl.direction? = none) :
    StandsFor (addAll { b with shape := .unified [] } calls).mergeOrder calls Addition.flagged fun _ _ => False where
  mem_iff := mem_mergeOrder_unified h
  settled c := by
    cases hdir : c.1.direction <;>
      simp [Entry.property?, Addition.flagged, PropDecl.settle, PropDecl.directed, hdir]
  tag_eq_iff c _ d _ := by simp [Addition.flagged]
  symm _ _ := id

theorem split (b : BlockDecl) (calls : List Addition) :
    StandsFor (addAll { b with shape := .split [] [] [] } calls).mergeOrder calls Addition.listed
      Addition.SameObject where
  mem_iff := mem_mergeOrder_split
  settled _ := rfl
  tag_eq_iff _ hc _ hd := Addition.tag_listed_eq_iff (eq_of_mem_zipIdx hc hd)
  symm _ _ := Addition.SameObject.symm

theorem directed (h : StandsFor entries calls entry same) (c : Addition × Nat) : (entry c).2 ≠ none := by
  intro hnone
  have hsettled := h.settled c
  rw [Entry.property?, hnone] at hsettled
  cases hsettled

theorem key (h : StandsFor entries calls entry same) (c : Addition × Nat) :
    (entry c).1.decl.key = c.1.decl.key := by
  obtain ⟨direction, -, hsettled⟩ := Option.map_eq_some_iff.mp (h.settled c)
  exact congrArg Property.key hsettled

theorem mergeable_iff (h : StandsFor entries calls entry same) :
    Mergeable entries ↔ calls.Pairwise fun c d => c.decl.key = d.decl.key → same c d := by
  have hsymm : ∀ c d : Addition, (c.decl.key = d.decl.key → same c d) → d.decl.key = c.decl.key → same d c :=
    fun c d hcd hkey => h.symm _ _ (hcd hkey.symm)
  rw [pairwise_iff_zipIdx hsymm]
  constructor
  · rintro ⟨-, hsame⟩ c hc d hd hne hkey
    have htag := hsame _ ((h.mem_iff _).mpr ⟨c, hc, rfl⟩) _ ((h.mem_iff _).mpr ⟨d, hd, rfl⟩) (by rwa [h.key, h.key])
    exact ((h.tag_eq_iff c hc d hd).mp htag).resolve_left hne
  · intro hpairs
    refine ⟨fun e he => ?_, fun e he f hf hkey => ?_⟩
    · obtain ⟨c, -, rfl⟩ := (h.mem_iff e).mp he
      exact h.directed c
    · obtain ⟨c, hc, rfl⟩ := (h.mem_iff e).mp he
      obtain ⟨d, hd, rfl⟩ := (h.mem_iff f).mp hf
      rw [h.key, h.key] at hkey
      rw [h.tag_eq_iff c hc d hd, or_iff_not_imp_left]
      exact fun hne => hpairs c hc d hd hne hkey

theorem mem_props_iff {x : BlockDecl} (h : StandsFor x.mergeOrder calls entry same)
    (hkeys : (calls.map (·.decl.key)).Nodup) (hs : x.normalize = .ok s) :
    p ∈ s.props ↔ ∃ c ∈ calls, c.decl.settle c.direction = p := by
  obtain ⟨-, rfl⟩ := normalize_eq_ok_iff.mp hs
  rw [schemaOf, map_tableOf, List.mem_filterMap]
  constructor
  · rintro ⟨e, he, hp⟩
    obtain ⟨c, hc, rfl⟩ := (h.mem_iff e).mp (mem_of_mem_eraseDupsBy he)
    rw [h.settled] at hp
    exact ⟨c.1, List.fst_mem_of_mem_zipIdx hc, Option.some.inj hp⟩
  · rintro ⟨c, hc, rfl⟩
    obtain ⟨i, hi⟩ := List.mem_iff_getElem?.mp hc
    have hplace : (c, i) ∈ calls.zipIdx := List.mk_mem_zipIdx_iff_getElem?.mpr hi
    obtain ⟨first, hfirst, hsame⟩ :=
      exists_mem_eraseDupsBy (r := sameKey) (by simp [sameKey]) ((h.mem_iff _).mpr ⟨(c, i), hplace, rfl⟩)
    obtain ⟨d, hd, rfl⟩ := (h.mem_iff first).mp (mem_of_mem_eraseDupsBy hfirst)
    have hkey : c.decl.key = d.1.decl.key := by
      rw [← h.key d, ← h.key (c, i)]
      exact beq_iff_eq.mp hsame
    have hsingle : c = d.1 := List.inj_on_of_nodup_map hkeys hc (List.fst_mem_of_mem_zipIdx hd) hkey
    exact ⟨entry d, hfirst, by rw [h.settled, hsingle]⟩

theorem prop?_eq_some_iff {x : BlockDecl} (h : StandsFor x.mergeOrder calls entry same)
    (hkeys : (calls.map (·.decl.key)).Nodup) (hs : x.normalize = .ok s) {key : String} :
    s.prop? key = some p ↔ ∃ c ∈ calls, c.decl.settle c.direction = p ∧ c.decl.key = key := by
  rw [Schema.prop?_eq_some_iff (nodup_normalize hs), h.mem_props_iff hkeys hs]
  constructor
  · rintro ⟨⟨c, hc, rfl⟩, hkey⟩
    exact ⟨c, hc, rfl, hkey⟩
  · rintro ⟨c, hc, rfl, hkey⟩
    exact ⟨⟨c, hc, rfl⟩, hkey⟩

theorem error_eq {x : BlockDecl} {err : Error} (h : StandsFor x.mergeOrder calls entry same)
    (herr : x.normalize = .error err) : ∃ c ∈ calls, err = .duplicateProperty x.name c.decl.key := by
  obtain ⟨before, e, after, horder, -, -, rfl⟩ := normalize_eq_error herr
  obtain ⟨c, hc, rfl⟩ := (h.mem_iff e).mp (by simp [horder])
  refine ⟨c.1, List.fst_mem_of_mem_zipIdx hc, ?_⟩
  rw [refusal, if_neg (h.directed c), h.key]

end StandsFor

/-- Both are refused, or both give the same properties to the same keys. -/
def SameTable (x y : Except Error Schema) : Prop :=
  (∃ e e', x = .error e ∧ y = .error e') ∨ ∃ s s', x = .ok s ∧ y = .ok s' ∧ ∀ key, s.prop? key = s'.prop? key

theorem exists_error_of_not_ok {x : Except Error Schema} (h : ¬ ∃ s, x = .ok s) : ∃ e, x = .error e := by
  cases x with
  | error e => exact ⟨e, rfl⟩
  | ok s => exact absurd ⟨s, rfl⟩ h

/-- **Where the two shapes agree.** Properties without flags are added to a declaration with one list and to one with
three. With one list there is a schema just when all keys are different. With three lists there is one just when a key
that is repeated always comes with the same shared descriptor. So they agree, in being refused or in their tables, just
when no key is repeated, or some key is repeated with another descriptor. If a shape is refused, it is for the key of an
addition. -/
theorem shapes_agree_iff (b : BlockDecl) (calls : List Addition) (h : ∀ c ∈ calls, c.decl.direction? = none) :
    let unified := addAll { b with shape := .unified [] } calls
    let split := addAll { b with shape := .split [] [] [] } calls
    ((∃ s, unified.normalize = .ok s) ↔ (calls.map (·.decl.key)).Nodup) ∧
    ((∃ s, split.normalize = .ok s) ↔ calls.Pairwise fun c d => c.decl.key = d.decl.key → c.SameObject d) ∧
    (SameTable unified.normalize split.normalize ↔
      (calls.map (·.decl.key)).Nodup ∨ ¬ calls.Pairwise fun c d => c.decl.key = d.decl.key → c.SameObject d) ∧
    ∀ err, unified.normalize = .error err ∨ split.normalize = .error err →
      ∃ c ∈ calls, err = .duplicateProperty b.name c.decl.key := by
  intro unified split
  have hunified := StandsFor.unified b h
  have hsplit := StandsFor.split b calls
  have hok : (∃ s, unified.normalize = .ok s) ↔ (calls.map (·.decl.key)).Nodup := by
    rw [exists_normalize_iff, hunified.mergeable_iff, List.Nodup, List.pairwise_map]
  have hok' : (∃ s, split.normalize = .ok s) ↔
      calls.Pairwise fun c d => c.decl.key = d.decl.key → c.SameObject d := by
    rw [exists_normalize_iff, hsplit.mergeable_iff]
  have hweaker : (calls.map (·.decl.key)).Nodup →
      calls.Pairwise fun c d => c.decl.key = d.decl.key → c.SameObject d := by
    intro hnodup
    rw [List.Nodup, List.pairwise_map] at hnodup
    exact hnodup.imp fun hne hkey => absurd hkey hne
  refine ⟨hok, hok', ⟨?_, ?_⟩, ?_⟩
  · rintro (⟨e, e', -, herr⟩ | ⟨s, s', hs, -⟩)
    · refine .inr fun hpairs => ?_
      obtain ⟨s, hs⟩ := hok'.mpr hpairs
      rw [hs] at herr
      cases herr
    · exact .inl (hok.mp ⟨s, hs⟩)
  · rintro (hnodup | hclash)
    · obtain ⟨s, hs⟩ := hok.mpr hnodup
      obtain ⟨s', hs'⟩ := hok'.mpr (hweaker hnodup)
      refine .inr ⟨s, s', hs, hs', fun key => Option.ext fun p => ?_⟩
      rw [hunified.prop?_eq_some_iff hnodup hs, hsplit.prop?_eq_some_iff hnodup hs']
    · obtain ⟨e, he⟩ := exists_error_of_not_ok fun hs => hclash (hweaker (hok.mp hs))
      obtain ⟨e', he'⟩ := exists_error_of_not_ok fun hs => hclash (hok'.mp hs)
      exact .inl ⟨e, e', he, he'⟩
  · rintro err (herr | herr)
    · obtain ⟨c, hc, rfl⟩ := hunified.error_eq herr
      exact ⟨c, hc, by rw [name_addAll]⟩
    · obtain ⟨c, hc, rfl⟩ := hsplit.error_eq herr
      exact ⟨c, hc, by rw [name_addAll]⟩

def valueDecl : PropDecl := { key := "value", type := ⟨"Any", none, [], {}, .empty, true⟩ }

/-- A control and an output under different keys give the same table in both shapes. -/
theorem shapes_agree_iff_distinct :
    let calls : List Addition := [⟨.control, valueDecl, none⟩, ⟨.output, { valueDecl with key := "result" }, none⟩]
    (∀ c ∈ calls, c.decl.direction? = none) ∧
    SameTable (addAll { name := "Literal", shape := .unified [] } calls).normalize
      (addAll { name := "Literal", shape := .split [] [] [] } calls).normalize := by
  intro calls
  have hflags : ∀ c ∈ calls, c.decl.direction? = none := by simp [calls, valueDecl, PropDecl.direction?]
  obtain ⟨-, -, hagree, -⟩ := shapes_agree_iff { name := "Literal", shape := .unified [] } calls hflags
  exact ⟨hflags, hagree.mpr (.inl (by simp [calls, valueDecl]))⟩

/-- A shared descriptor that is added as a control and as an output is an output with three lists. With one list it is
refused as if it were two. -/
theorem shared_twice_differs :
    let calls : List Addition := [⟨.control, valueDecl, some "value"⟩, ⟨.output, valueDecl, some "value"⟩]
    (∀ c ∈ calls, c.decl.direction? = none) ∧
    (∃ s, (addAll { name := "Literal", shape := .split [] [] [] } calls).normalize = .ok s ∧
      s.props.map (fun p => (p.key, p.direction)) = [("value", .output)]) ∧
    (addAll { name := "Literal", shape := .unified [] } calls).normalize =
      .error (.duplicateProperty "Literal" "value") := by
  intro calls
  exact ⟨by simp [calls, valueDecl, PropDecl.direction?], ⟨_, rfl, rfl⟩, rfl⟩

end BlockDecl

end BlockGraph
