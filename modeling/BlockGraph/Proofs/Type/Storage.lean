import BlockGraph.Proofs.Type.Rendering
import BlockGraph.Proofs.Type.Rereading

/-!
# What a stored type looks like when it is read back

Texts and abstractness of a type depend on its traits, and on whether it is a registered one, so they can change when a
type is stored and read back. Over the built-in lattice reading changes two types, which take arbitrary generics. The
registered `Tuple` is written by its name and its instances are not, and this shows in every text around it, because
the built-in notations are legible. `Object` looks the same, but is abstract only as the registered type.

* `Ty.ShownBy.around`: a difference between generics shows in the texts around them;
* `Registry.Assembled.read_written`: but for the registered `Tuple`, a type is read back as one that is written alike;
* `Registry.rereading_keeps_text_iff`: the types over the built-in lattice that look the same when they are read back.
-/

namespace BlockGraph

namespace Ty

variable {t u : Ty} {name : String}

/-! ### Parts of types -/

/-- The registered type of the name is the type itself or one of its generics at any depth. -/
def Mentions (t : Ty) (name : String) : Prop := ∃ v : Ty, v.PartOf t ∧ v.isBase = true ∧ v.name = name

theorem mentions_iff : t.Mentions name ↔ (t.isBase = true ∧ t.name = name) ∨ ∃ g ∈ t.generics, g.Mentions name := by
  constructor
  · rintro ⟨v, hpart, hv⟩
    rcases hpart.eq_or_generic with rfl | ⟨g, hg, hpart⟩
    · exact .inl hv
    · exact .inr ⟨g, hg, v, hpart, hv⟩
  · rintro (ht | ⟨g, hg, v, hpart, hv⟩)
    · exact ⟨t, .refl t, ht⟩
    · exact ⟨v, .generic hg hpart, hv⟩

theorem exists_mem_iff_of_forall₂ {R : Ty → Ty → Prop} {P Q : Ty → Prop} {ts us : List Ty} (h : List.Forall₂ R ts us)
    (hiff : ∀ t ∈ ts, ∀ u, R t u → (Q u ↔ P t)) : (∃ u ∈ us, Q u) ↔ ∃ t ∈ ts, P t := by
  induction h with
  | nil => simp
  | cons hread _ ih =>
    rw [List.forall_mem_cons] at hiff
    rw [List.exists_mem_cons_iff, List.exists_mem_cons_iff, hiff.1 _ hread, ih hiff.2]

theorem anyAbstract_eq_any (ts : List Ty) : anyAbstract ts = ts.any isAbstract := by
  induction ts with
  | nil => rfl
  | cons t ts ih => rw [anyAbstract, ih, List.any_cons]

theorem isAbstract_iff : t.isAbstract = true ↔ ∃ v : Ty, v.PartOf t ∧ v.traits.isAbstract = true := by
  induction t using inductionOnGenerics with
  | step t ih =>
    have hunfold : t.isAbstract = (t.traits.isAbstract || t.generics.any isAbstract) := by
      cases t
      rw [isAbstract, anyAbstract_eq_any]
    rw [hunfold, Bool.or_eq_true, List.any_eq_true]
    constructor
    · rintro (hown | ⟨g, hg, habstract⟩)
      · exact ⟨t, .refl t, hown⟩
      · obtain ⟨v, hpart, hv⟩ := (ih g hg).mp habstract
        exact ⟨v, .generic hg hpart, hv⟩
    · rintro ⟨v, hpart, hv⟩
      rcases hpart.eq_or_generic with rfl | ⟨g, hg, hpart⟩
      · exact .inl hv
      · exact .inr ⟨g, hg, (ih g hg).mpr ⟨v, hpart, hv⟩⟩

/-! ### Texts around texts -/

/-- Two types are written the same if the first does not mention the name, and differently if it does. -/
def ShownBy (text : Ty → String) (name : String) (t u : Ty) : Prop :=
  (¬ t.Mentions name → text t = text u) ∧ (t.Mentions name → Apart (text t) (text u))

theorem shownBy_generics {R : Ty → Ty → Prop} {text : Ty → String} {ts us : List Ty} (h : List.Forall₂ R ts us)
    (hshown : ∀ t ∈ ts, ∀ u, R t u → ShownBy text name t u) :
    ((∀ t ∈ ts, ¬ t.Mentions name) → ts.map text = us.map text) ∧
      ((∃ t ∈ ts, t.Mentions name) → PartWays (ts.map text) (us.map text)) := by
  induction h with
  | nil => simp
  | @cons t u ts us hread _ ih =>
    rw [List.forall_mem_cons] at hshown
    obtain ⟨hsame, hapart⟩ := hshown.1 u hread
    obtain ⟨hrest, hparts⟩ := ih hshown.2
    constructor
    · intro hnone
      rw [List.forall_mem_cons] at hnone
      rw [List.map_cons, List.map_cons, hsame hnone.1, hrest hnone.2]
    · intro hsome
      rw [List.exists_mem_cons_iff] at hsome
      by_cases hfirst : t.Mentions name
      · exact .here (hapart hfirst)
      · rw [List.map_cons, List.map_cons, hsame hfirst]
        exact .later (hparts (hsome.resolve_left hfirst))

theorem ShownBy.around {R : Ty → Ty → Prop} {text : Ty → String} {write : List String → String}
    (ht : text t = write (t.generics.map text)) (hu : text u = write (u.generics.map text))
    (hlegible : ∀ xs ys, xs.length = t.generics.length → PartWays xs ys → Apart (write xs) (write ys))
    (hother : ¬ (t.isBase = true ∧ t.name = name)) (hreads : List.Forall₂ R t.generics u.generics)
    (hshown : ∀ g ∈ t.generics, ∀ g', R g g' → ShownBy text name g g') : ShownBy text name t u := by
  obtain ⟨hsame, hparts⟩ := shownBy_generics hreads hshown
  rw [ShownBy, mentions_iff, ht, hu]
  constructor
  · intro hnone
    rw [hsame fun g hg hmentions => hnone (.inr ⟨g, hg, hmentions⟩)]
  · intro hsome
    exact hlegible _ _ (List.length_map _) (hparts (hsome.resolve_left hother))

theorem ShownBy.eq_iff {text : Ty → String} (h : ShownBy text name t u) : text u = text t ↔ ¬ t.Mentions name :=
  ⟨fun heq hmentions => (h.2 hmentions).ne heq.symm, fun hnone => (h.1 hnone).symm⟩

theorem written_congr (hname : u.name = t.name) (hbase : u.isBase = t.isBase) (htraits : u.traits = t.traits) :
    u.written = t.written := by
  funext texts
  simp only [written, view, hname, hbase, htraits]

theorem writtenFor_congr (hname : u.name = t.name) (hbase : u.isBase = t.isBase) (htraits : u.traits = t.traits)
    (key : String) : u.writtenFor key = t.writtenFor key := by
  funext texts
  simp only [writtenFor, written, view, hname, hbase, htraits]

end Ty

/-! ### The built-in types -/

namespace Registry

open Builtin

variable {r : Registry} {t u b v : Ty}

theorem flags_builtin :
    Registry.builtin.map (fun r => r.types.map fun b => (b.name, b.traits.isAbstract, b.traits.arbitraryGenerics)) =
      .ok (decls.map fun decl => (decl.name, decl.isAbstract, decl.arbitraryGenerics)) := by
  rfl

theorem exists_decl (hstart : Registry.builtin = .ok r) (hget : r.get? b.name = some b) :
    ∃ decl ∈ decls, decl.name = b.name ∧ decl.isAbstract = b.traits.isAbstract ∧
      decl.arbitraryGenerics = b.traits.arbitraryGenerics := by
  have hflags := flags_builtin
  rw [hstart] at hflags
  have hmem := List.mem_map_of_mem (f := fun b : Ty => (b.name, b.traits.isAbstract, b.traits.arbitraryGenerics))
    (List.mem_of_find?_eq_some hget)
  rw [show r.types.map _ = _ from Except.ok.inj hflags] at hmem
  simpa using hmem

namespace Assembled

theorem bare_iff (hstart : Registry.builtin = .ok r) (ht : r.Assembled t) :
    t.Bare ↔ t.isBase = true ∧ (t.name = "Tuple" ∨ t.name = "Object") := by
  obtain ⟨b, hb⟩ := ht.stems (Reached.empty.registerAll hstart)
  rw [Ty.Bare]
  refine and_congr_right fun hbase => ?_
  obtain rfl := hb.base hbase
  obtain ⟨decl, hdecl, hname, -, harity⟩ := exists_decl hstart hb.get
  have hdecls : ∀ decl ∈ decls, decl.arbitraryGenerics = true ↔ decl.name = "Tuple" ∨ decl.name = "Object" := by
    simp [decls]
  rw [← harity, ← hname]
  exact hdecls decl hdecl

theorem isAbstract_iff (hstart : Registry.builtin = .ok r) (ht : r.Assembled t) :
    t.traits.isAbstract = true ↔
      t.isBase = true ∧ (t.name = "Value" ∨ t.name = "Tuple" ∨ t.name = "Object") := by
  obtain ⟨b, hb⟩ := ht.stems (Reached.empty.registerAll hstart)
  cases hbase : t.isBase with
  | false =>
    rw [hb.traits hbase]
    simp [Traits.inherited]
  | true =>
    obtain rfl := hb.base hbase
    obtain ⟨decl, hdecl, hname, habstract, -⟩ := exists_decl hstart hb.get
    have hdecls : ∀ decl ∈ decls,
        decl.isAbstract = true ↔ decl.name = "Value" ∨ decl.name = "Tuple" ∨ decl.name = "Object" := by
      simp [decls]
    rw [← habstract, ← hname, hdecls decl hdecl]
    simp

/-- But for the registered `Tuple`, a type is read back as one that is written alike. -/
theorem read_written (hstart : Registry.builtin = .ok r) (ht : r.Assembled t) (h : r.Reads t u) :
    (t.isBase = true ∧ t.name = "Tuple" ∧ t.generics = [] ∧ u = t.withGenerics []) ∨
    (¬ (t.isBase = true ∧ t.name = "Tuple") ∧ u.written = t.written ∧
      (∀ key, u.writtenFor key = t.writtenFor key ∧ (u.HasRenderer key ↔ t.HasRenderer key)) ∧
      List.Forall₂ r.Reads t.generics u.generics) := by
  rcases ht.read_cases (Reached.empty.registerAll hstart) (slotFree_builtin hstart) h with
    ⟨hbare, hnil, rfl⟩ | ⟨hbare, hname, hbase, htraits, hreads⟩
  · obtain ⟨hbase, hname⟩ := (ht.bare_iff hstart).mp hbare
    rcases hname with hname | hname
    · exact .inl ⟨hbase, hname, hnil, rfl⟩
    · -- records are written alike whether they are registered or not
      obtain ⟨e, he, hstyle, hstyled⟩ := ht.built.styled hstart
      have hobject : ∀ e ∈ styles, e.1 = "Object" → e.2.2 = .object := by decide
      rw [hobject e he (hstyle.symm.trans hname)] at hstyled
      have htext : t.traits.typeText = some objectText := hstyled.typeText
      have htext' : (t.withGenerics []).traits.typeText = some objectText := htext
      have hwritten : (t.withGenerics []).written = t.written := by
        rw [Ty.written_of_some htext, Ty.written_of_some htext']
        rfl
      refine .inr ⟨by simp [hname], hwritten, fun key => ⟨?_, Iff.rfl⟩, by rw [hnil]; exact .nil⟩
      have hrenderers : (t.withGenerics []).traits.renderers.get? key = t.traits.renderers.get? key := rfl
      rw [hstyled.motoko] at hrenderers
      funext texts
      rw [Ty.writtenFor, Ty.writtenFor, hrenderers, hstyled.motoko, hwritten]
      by_cases hkey : key = motokoKey
      · rw [if_pos hkey]
        rfl
      · rw [if_neg hkey]
  · refine .inr ⟨?_, Ty.written_congr hname hbase htraits, fun key => ⟨?_, ?_⟩, hreads⟩
    · rintro ⟨hregistered, htuple⟩
      exact hbare ((ht.bare_iff hstart).mpr ⟨hregistered, .inl htuple⟩)
    · exact Ty.writtenFor_congr hname hbase htraits key
    · rw [Ty.HasRenderer, Ty.HasRenderer, htraits]

theorem texts_of_tuple (hstart : Registry.builtin = .ok r) (ht : r.Assembled t) (hbase : t.isBase = true)
    (hname : t.name = "Tuple") (hnil : t.generics = []) :
    t.typeText = "Tuple" ∧ (t.withGenerics []).typeText = "()" ∧
      ∀ key, ¬ t.HasRenderer key ∧ ¬ (t.withGenerics []).HasRenderer key := by
  obtain ⟨e, he, hstyle, hstyled⟩ := ht.built.styled hstart
  have htuple : ∀ e ∈ styles, e.1 = "Tuple" → e.2.2 = .tuple := by decide
  rw [htuple e he (hstyle.symm.trans hname)] at hstyled
  have htext : t.traits.typeText = some tupleText := hstyled.typeText
  have htext' : (t.withGenerics []).traits.typeText = some tupleText := htext
  refine ⟨?_, ?_, fun key => ?_⟩
  · rw [Ty.typeText_eq, Ty.written_of_some htext, hnil, ← hname]
    simp [tupleText, Ty.view, hbase]
  · rw [Ty.typeText_eq, Ty.written_of_some htext']
    rfl
  · have hnone : ¬ t.HasRenderer key := by simp [hstyled.hasRenderer_iff, Style.motoko]
    exact ⟨hnone, hnone⟩

theorem legible (hstart : Registry.builtin = .ok r) (ht : r.Assembled t) : t.Legible motokoKey effectMark := by
  obtain ⟨e, -, -, hstyled⟩ := ht.built.styled hstart
  exact hstyled.legible

theorem shownBy_typeText (hstart : Registry.builtin = .ok r) (ht : r.Assembled t) (h : r.Reads t u) :
    Ty.ShownBy Ty.typeText "Tuple" t u := by
  have hr : r.Reached := Reached.empty.registerAll hstart
  induction t using Ty.inductionOnGenerics generalizing u with
  | step t ih =>
    rcases ht.read_written hstart h with ⟨hbase, hname, hnil, rfl⟩ | ⟨hother, hwritten, -, hreads⟩
    · have hmentions : t.Mentions "Tuple" := ⟨t, .refl t, hbase, hname⟩
      obtain ⟨htext, htext', -⟩ := ht.texts_of_tuple hstart hbase hname hnil
      refine ⟨fun hnone => absurd hmentions hnone, fun _ => ?_⟩
      rw [htext, htext']
      decide
    · refine .around (Ty.typeText_eq t) ?_ (ht.legible hstart).plain hother hreads ?_
      · rw [← hwritten, ← Ty.typeText_eq]
      · intro g hg g' hread
        exact ih g hg (ht.generic hr hg) hread

theorem shownBy_renderFor (hstart : Registry.builtin = .ok r) (ht : r.Assembled t) (h : r.Reads t u) (key : String) :
    Ty.ShownBy (Ty.renderFor key) "Tuple" t u := by
  have hr : r.Reached := Reached.empty.registerAll hstart
  induction t using Ty.inductionOnGenerics generalizing u with
  | step t ih =>
    have hplain := ht.shownBy_typeText hstart h
    by_cases hown : t.HasRenderer key
    · rcases ht.read_written hstart h with ⟨hbase, hname, hnil, rfl⟩ | ⟨hother, -, hkeyed, hreads⟩
      · exact absurd hown ((ht.texts_of_tuple hstart hbase hname hnil).2.2 key).1
      · obtain ⟨hwritten, hrenderer⟩ := hkeyed key
        obtain rfl : key = motokoKey := ((ht.built.hasRenderer_iff hstart key).mp hown).1
        refine .around (Ty.renderFor_of_hasRenderer hown) ?_ (ht.legible hstart).keyed hother hreads ?_
        · rw [← hwritten]
          exact Ty.renderFor_of_hasRenderer (hrenderer.mpr hown)
        · intro g hg g' hread
          exact ih g hg (ht.generic hr hg) hread
    · have hown' : ¬ u.HasRenderer key := by
        rcases ht.read_written hstart h with ⟨hbase, hname, hnil, rfl⟩ | ⟨-, -, hkeyed, -⟩
        · exact ((ht.texts_of_tuple hstart hbase hname hnil).2.2 key).2
        · rwa [(hkeyed key).2]
      rwa [Ty.ShownBy, Ty.renderFor_of_not_hasRenderer hown, Ty.renderFor_of_not_hasRenderer hown']

/-! ### Abstractness -/

theorem of_partOf (hr : r.Reached) (ht : r.Assembled t) (h : u.PartOf t) : r.Assembled u := by
  induction h with
  | refl => exact ht
  | generic hg _ ih => exact ih (ht.generic hr hg)

theorem abstract_iff_mentions (hstart : Registry.builtin = .ok r) (ht : r.Assembled t) :
    t.isAbstract = true ↔ t.Mentions "Value" ∨ t.Mentions "Tuple" ∨ t.Mentions "Object" := by
  have hpart : ∀ v : Ty, v.PartOf t → (v.traits.isAbstract = true ↔
      v.isBase = true ∧ (v.name = "Value" ∨ v.name = "Tuple" ∨ v.name = "Object")) :=
    fun v hv => (ht.of_partOf (Reached.empty.registerAll hstart) hv).isAbstract_iff hstart
  rw [Ty.isAbstract_iff]
  constructor
  · rintro ⟨v, hv, habstract⟩
    obtain ⟨hbase, hname | hname | hname⟩ := (hpart v hv).mp habstract
    · exact .inl ⟨v, hv, hbase, hname⟩
    · exact .inr (.inl ⟨v, hv, hbase, hname⟩)
    · exact .inr (.inr ⟨v, hv, hbase, hname⟩)
  · rintro (⟨v, hv, hbase, hname⟩ | ⟨v, hv, hbase, hname⟩ | ⟨v, hv, hbase, hname⟩)
    · exact ⟨v, hv, (hpart v hv).mpr ⟨hbase, .inl hname⟩⟩
    · exact ⟨v, hv, (hpart v hv).mpr ⟨hbase, .inr (.inl hname)⟩⟩
    · exact ⟨v, hv, (hpart v hv).mpr ⟨hbase, .inr (.inr hname)⟩⟩

theorem mentions_of_reads (hstart : Registry.builtin = .ok r) (ht : r.Assembled t) (h : r.Reads t u) (name : String) :
    u.Mentions name ↔ t.Mentions name ∧ ¬ (name = "Tuple" ∨ name = "Object") := by
  have hr : r.Reached := Reached.empty.registerAll hstart
  induction t using Ty.inductionOnGenerics generalizing u with
  | step t ih =>
    rw [Ty.mentions_iff, Ty.mentions_iff]
    rcases ht.read_cases hr (slotFree_builtin hstart) h with ⟨hbare, hnil, rfl⟩ | ⟨hbare, hname, hbase, -, hreads⟩
    · obtain ⟨hbase, hnames⟩ := (ht.bare_iff hstart).mp hbare
      have hnone : (t.withGenerics []).isBase = false ∧ (t.withGenerics []).generics = [] := ⟨rfl, rfl⟩
      rw [hnone.1, hnone.2, hnil]
      simp only [Bool.false_eq_true, false_and, List.not_mem_nil, exists_false, or_false, false_iff, not_and, not_not]
      rintro ⟨-, rfl⟩
      exact hnames
    · rw [ht.bare_iff hstart] at hbare
      have hgenerics : (∃ g' ∈ u.generics, g'.Mentions name) ↔
          ∃ g ∈ t.generics, g.Mentions name ∧ ¬ (name = "Tuple" ∨ name = "Object") :=
        Ty.exists_mem_iff_of_forall₂ hreads fun g hg g' hread => ih g hg (ht.generic hr hg) hread
      rw [hgenerics, hname, hbase]
      have hown : t.isBase = true ∧ t.name = name → ¬ (name = "Tuple" ∨ name = "Object") := by
        rintro ⟨hregistered, rfl⟩ hnames
        exact hbare ⟨hregistered, hnames⟩
      constructor
      · rintro (hregistered | ⟨g, hg, hmentions, hnames⟩)
        · exact ⟨.inl hregistered, hown hregistered⟩
        · exact ⟨.inr ⟨g, hg, hmentions⟩, hnames⟩
      · rintro ⟨hregistered | ⟨g, hg, hmentions⟩, hnames⟩
        · exact .inl hregistered
        · exact .inr ⟨g, hg, hmentions, hnames⟩

end Assembled

/-- **Which types over the built-in lattice look the same when they are read back.** The stored form of every type that
is made by resolving names and by instantiation is read back. The text, and the text under every compile key, stays the
same just when the type does not mention the registered `Tuple`, which is read back as the unit type. Whether the type
is abstract stays the same just when it mentions neither the registered `Tuple` nor `Object`, or is abstract anyway
because it mentions `Value`. -/
theorem rereading_keeps_text_iff (hstart : Registry.builtin = .ok r) (ht : r.Assembled t) :
    ∃ u, r.fromPortable t.portable = .ok u ∧
      (u.typeText = t.typeText ↔ ¬ t.Mentions "Tuple") ∧
      (∀ key, u.renderFor key = t.renderFor key ↔ ¬ t.Mentions "Tuple") ∧
      (u.isAbstract = t.isAbstract ↔ t.Mentions "Value" ∨ ¬ t.Mentions "Tuple" ∧ ¬ t.Mentions "Object") := by
  obtain ⟨u, hu⟩ := ht.exists_reads (Reached.empty.registerAll hstart)
  refine ⟨u, hu, (ht.shownBy_typeText hstart hu).eq_iff, fun key => (ht.shownBy_renderFor hstart hu key).eq_iff, ?_⟩
  have hvalue : u.isAbstract = true ↔ t.Mentions "Value" := by
    rw [(assembled_of_fromPortable hu).abstract_iff_mentions hstart, ht.mentions_of_reads hstart hu,
      ht.mentions_of_reads hstart hu, ht.mentions_of_reads hstart hu]
    simp
  rw [Bool.eq_iff_iff, hvalue, ht.abstract_iff_mentions hstart]
  tauto

/-- An option of a pair of an integer and the registered `Object` keeps its texts, but is not abstract any more. -/
theorem rereading_keeps_text_iff_record :
    ∃ r, Registry.builtin = .ok r ∧ ∃ t u : Ty, r.Assembled t ∧ r.fromPortable t.portable = .ok u ∧
      t.renderFor motokoKey = "?(Int, ())" ∧ u.renderFor motokoKey = "?(Int, ())" ∧ ¬ t.Mentions "Tuple" ∧
      t.isAbstract = true ∧ u.isAbstract = false ∧ t.Mentions "Object" := by
  obtain ⟨r, hstart, int, object, tuple, optional, hint, hobject, htuple, hoptional, pair, hpair, t, ht, u, hu, htext,
      htext', habstract, habstract'⟩ : ∃ r, Registry.builtin = .ok r ∧ ∃ int object tuple optional : Ty,
      r.resolve "Int" = .ok int ∧ r.resolve "Object" = .ok object ∧ r.resolve "Tuple" = .ok tuple ∧
      r.resolve "Optional" = .ok optional ∧ ∃ pair, tuple.of [int, object] = .ok pair ∧
      ∃ t, optional.of [pair] = .ok t ∧ ∃ u, r.fromPortable t.portable = .ok u ∧
      t.renderFor motokoKey = "?(Int, ())" ∧ u.renderFor motokoKey = "?(Int, ())" ∧ t.isAbstract = true ∧
      u.isAbstract = false := ⟨_, rfl, _, _, _, _, rfl, rfl, rfl, rfl, _, rfl, _, rfl, _, rfl, rfl, rfl, rfl, rfl⟩
  have hargs : ∀ g ∈ [int, object], r.Assembled g := by simp [Assembled.resolve hint, Assembled.resolve hobject]
  have hassembled : r.Assembled t :=
    .of (.resolve hoptional) (List.forall_mem_singleton.mpr (.of (.resolve htuple) hargs hpair)) ht
  obtain ⟨u', hu', -, hkeyed, hkept⟩ := rereading_keeps_text_iff hstart hassembled
  obtain rfl : u = u' := Except.ok.inj (hu.symm.trans hu')
  have hnone : ¬ t.Mentions "Tuple" := (hkeyed motokoKey).mp (htext'.trans htext.symm)
  refine ⟨r, hstart, t, u, hassembled, hu, htext, htext', hnone, habstract, habstract', ?_⟩
  by_contra hobject'
  rw [habstract, habstract'] at hkept
  exact absurd (hkept.mpr (.inr ⟨hnone, hobject'⟩)) (by simp)

/-- The registered `Tuple` is read back as the unit type. -/
theorem registered_tuple_read_as_unit :
    ∃ r t u, Registry.builtin = .ok r ∧ r.resolve "Tuple" = .ok t ∧ r.fromPortable t.portable = .ok u ∧
      t.typeText = "Tuple" ∧ u.typeText = "()" ∧ t.renderFor motokoKey = "Tuple" ∧ u.renderFor motokoKey = "()" ∧
      t.isAbstract = true ∧ u.isAbstract = false :=
  ⟨_, _, _, rfl, rfl, rfl, rfl, rfl, rfl, rfl, rfl, rfl⟩

end Registry

end BlockGraph
