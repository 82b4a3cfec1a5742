import BlockGraph.Proofs.Type.Inheritance
import BlockGraph.Proofs.Type.RoundTrip
import BlockGraph.Type.Builtin

/-!
# Texts of types inside texts of types

A type that has a renderer for the compile key is written around the texts of its generics under that key. A type that
has none is written around the texts that its generics have without a key, so from there on no renderer for the key is
asked any more. `Ty.composed` is the text in which every generic at every depth is written under the key. The two agree
when no type without a renderer stands around one with a renderer (`Ty.Layered`), for any types. For the built-in types
they agree only then: texts of generics that differ at a place that both have (`Apart`) make the texts around them
differ in the same way.

* `Ty.renderFor_of_layered`: layered types are composed;
* `Ty.apart_of_not_layered`: types of `Legible` notations that are not layered are not composed;
* `Registry.Built.styled` and `Ty.Styled.legible`: the notations of the built-in types, which are legible;
* `Registry.rendering_composed_iff_layered`: which types over the built-in lattice are composed.
-/

namespace BlockGraph

/-! ### Texts that differ at a place that both have -/

/-- There is a place in both texts at which they differ. -/
def Apart (s t : String) : Prop := ∃ i < min s.toList.length t.toList.length, s.toList[i]? ≠ t.toList[i]?

instance (s t : String) : Decidable (Apart s t) :=
  inferInstanceAs (Decidable (∃ i < min s.toList.length t.toList.length, s.toList[i]? ≠ t.toList[i]?))

namespace Apart

variable {s t : String}

theorem ne (h : Apart s t) : s ≠ t := by
  rintro rfl
  obtain ⟨i, -, hi⟩ := h
  exact hi rfl

theorem append_right (h : Apart s t) (u v : String) : Apart (s ++ u) (t ++ v) := by
  obtain ⟨i, hlt, hi⟩ := h
  refine ⟨i, ?_, ?_⟩
  · simp only [String.toList_append, List.length_append]
    omega
  · rw [String.toList_append, String.toList_append, List.getElem?_append_left (by omega),
      List.getElem?_append_left (by omega)]
    exact hi

theorem append_left (h : Apart s t) (u : String) : Apart (u ++ s) (u ++ t) := by
  obtain ⟨i, hlt, hi⟩ := h
  refine ⟨u.toList.length + i, ?_, ?_⟩
  · simp only [String.toList_append, List.length_append]
    omega
  · rw [String.toList_append, String.toList_append, List.getElem?_append_right (by omega),
      List.getElem?_append_right (by omega), Nat.add_sub_cancel_left]
    exact hi

theorem extend (h : Apart s t) (u : String) : Apart (s ++ u) t := by
  have hboth := h.append_right u ""
  rwa [String.append_empty] at hboth

theorem extend_right (h : Apart s t) (v : String) : Apart s (t ++ v) := by
  have hboth := h.append_right "" v
  rwa [String.append_empty] at hboth

end Apart

/-- Two lists of texts agree up to texts that are apart. -/
inductive PartWays : List String → List String → Prop
  | here {x y : String} {xs ys : List String} (h : Apart x y) : PartWays (x :: xs) (y :: ys)
  | later {x : String} {xs ys : List String} (h : PartWays xs ys) : PartWays (x :: xs) (x :: ys)

namespace PartWays

variable {xs ys : List String}

theorem ne_nil (h : PartWays xs ys) : xs ≠ [] ∧ ys ≠ [] := by
  cases h <;> simp

theorem of_map {α : Type} {f g : α → String} {items : List α} {a : α}
    (h : ∀ b ∈ items, f b = g b ∨ Apart (f b) (g b)) (ha : a ∈ items) (hapart : Apart (f a) (g a)) :
    PartWays (items.map f) (items.map g) := by
  induction items with
  | nil => cases ha
  | cons b rest ih =>
    rw [List.forall_mem_cons] at h
    rw [List.map_cons, List.map_cons]
    rcases h.1 with heq | hb
    · rw [heq]
      refine .later (ih h.2 ?_)
      rcases List.mem_cons.mp ha with rfl | ha
      · exact absurd heq hapart.ne
      · exact ha
    · exact .here hb

end PartWays

theorem exists_intercalate_cons (sep x : String) (xs : List String) :
    ∃ rest, sep.intercalate (x :: xs) = x ++ rest := by
  cases xs with
  | nil => exact ⟨"", by simp⟩
  | cons y ys => exact ⟨sep ++ sep.intercalate (y :: ys), by rw [String.intercalate_cons_cons, String.append_assoc]⟩

theorem PartWays.intercalate {xs ys : List String} (h : PartWays xs ys) (sep : String) :
    Apart (sep.intercalate xs) (sep.intercalate ys) := by
  induction h with
  | @here x y xs ys h =>
    obtain ⟨rest, hxs⟩ := exists_intercalate_cons sep x xs
    obtain ⟨rest', hys⟩ := exists_intercalate_cons sep y ys
    rw [hxs, hys]
    exact h.append_right rest rest'
  | later h ih =>
    rw [String.intercalate_cons_of_ne_nil h.ne_nil.1, String.intercalate_cons_of_ne_nil h.ne_nil.2]
    exact ih.append_left _

theorem PartWays.labelled {xs ys : List String} (h : PartWays xs ys) (label : Nat → String) (k : Nat) :
    PartWays ((xs.zipIdx k).map fun p => label p.2 ++ p.1) ((ys.zipIdx k).map fun p => label p.2 ++ p.1) := by
  induction h generalizing k with
  | here h => exact .here (h.append_left (label k))
  | later h ih => exact .later (ih (k + 1))

theorem PartWays.head {xs ys : List String} (h : PartWays xs ys) (hlength : xs.length = 1) :
    Apart (xs.headD "") (ys.headD "") := by
  cases h with
  | here h => exact h
  | later h => exact absurd (List.length_eq_zero_iff.mp (Nat.succ.inj hlength)) h.ne_nil.1

/-! ### Composed texts -/

namespace Ty

variable {key : String} {t u v g : Ty}

/-- The text of a type around the texts of its generics. -/
def written (t : Ty) (texts : List String) : String :=
  match t.traits.typeText with
  | some render => render (t.view texts)
  | none => bracketed t.name texts

/-- The text of a type under a compile key around the texts of its generics. -/
def writtenFor (key : String) (t : Ty) (texts : List String) : String :=
  match t.traits.renderers.get? key with
  | some render => render (t.view texts)
  | none => t.written texts

mutual

/-- The text of a type under a compile key, with every generic at every depth written under that key. -/
def composed (key : String) : Ty → String
  | ⟨name, parent, generics, traits, annotations, isBase⟩ =>
    writtenFor key ⟨name, parent, generics, traits, annotations, isBase⟩ (composedAll key generics)

def composedAll (key : String) : List Ty → List String
  | [] => []
  | t :: rest => composed key t :: composedAll key rest

end

def HasRenderer (key : String) (t : Ty) : Prop := (t.traits.renderers.get? key).isSome = true

/-- The first type is the second or one of its generics at any depth. -/
inductive PartOf : Ty → Ty → Prop
  | refl (t : Ty) : PartOf t t
  | generic {u g t : Ty} (hg : g ∈ t.generics) (h : PartOf u g) : PartOf u t

/-- What has a renderer for the key stands only inside types that have one too. -/
def Layered (key : String) (t : Ty) : Prop :=
  ∀ u v : Ty, u.PartOf t → v.PartOf u → v.HasRenderer key → u.HasRenderer key

theorem typeTexts_eq_map (ts : List Ty) : typeTexts ts = ts.map typeText := by
  induction ts with
  | nil => rfl
  | cons t ts ih => rw [typeTexts, ih, List.map_cons]

theorem renderAllFor_eq_map (key : String) (ts : List Ty) : renderAllFor key ts = ts.map (renderFor key) := by
  induction ts with
  | nil => rfl
  | cons t ts ih => rw [renderAllFor, ih, List.map_cons]

theorem composedAll_eq_map (key : String) (ts : List Ty) : composedAll key ts = ts.map (composed key) := by
  induction ts with
  | nil => rfl
  | cons t ts ih => rw [composedAll, ih, List.map_cons]

theorem typeText_eq (t : Ty) : t.typeText = t.written (t.generics.map typeText) := by
  cases t
  rw [typeText, typeTexts_eq_map]
  rfl

theorem composed_eq (key : String) (t : Ty) : t.composed key = t.writtenFor key (t.generics.map (composed key)) := by
  cases t
  rw [composed, composedAll_eq_map]

theorem writtenFor_of_not_hasRenderer (h : ¬ t.HasRenderer key) : t.writtenFor key = t.written := by
  have hnone : t.traits.renderers.get? key = none := by simpa [HasRenderer] using h
  funext texts
  rw [writtenFor, hnone]

theorem renderFor_of_hasRenderer (h : t.HasRenderer key) :
    t.renderFor key = t.writtenFor key (t.generics.map (renderFor key)) := by
  obtain ⟨render, hsome⟩ := Option.isSome_iff_exists.mp h
  obtain ⟨name, parent, generics, traits, annotations, isBase⟩ := t
  rw [renderFor, writtenFor, renderAllFor_eq_map, hsome]

theorem renderFor_of_not_hasRenderer (h : ¬ t.HasRenderer key) : t.renderFor key = t.typeText := by
  have hnone : t.traits.renderers.get? key = none := by simpa [HasRenderer] using h
  obtain ⟨name, parent, generics, traits, annotations, isBase⟩ := t
  rw [renderFor, hnone]

theorem PartOf.trans (huv : u.PartOf v) (hvt : v.PartOf t) : u.PartOf t := by
  induction hvt with
  | refl => exact huv
  | generic hg _ ih => exact .generic hg ih

theorem PartOf.eq_or_generic (h : u.PartOf t) : u = t ∨ ∃ g ∈ t.generics, u.PartOf g := by
  cases h with
  | refl => exact .inl rfl
  | generic hg h => exact .inr ⟨_, hg, h⟩

theorem Layered.generic (h : t.Layered key) (hg : g ∈ t.generics) : g.Layered key :=
  fun u v hu hv => h u v (.generic hg hu) hv

theorem composed_eq_typeText (h : ∀ v : Ty, v.PartOf t → ¬ v.HasRenderer key) : t.composed key = t.typeText := by
  induction t using inductionOnGenerics with
  | step t ih =>
    have hgenerics : t.generics.map (composed key) = t.generics.map typeText :=
      List.map_congr_left fun g hg => ih g hg fun v hv => h v (.generic hg hv)
    rw [composed_eq, writtenFor_of_not_hasRenderer (h t (.refl t)), hgenerics, typeText_eq]

theorem renderFor_of_layered (h : t.Layered key) : t.renderFor key = t.composed key := by
  induction t using inductionOnGenerics with
  | step t ih =>
    by_cases hown : t.HasRenderer key
    · have hgenerics : t.generics.map (renderFor key) = t.generics.map (composed key) :=
        List.map_congr_left fun g hg => ih g hg (h.generic hg)
      rw [renderFor_of_hasRenderer hown, hgenerics, composed_eq]
    · rw [renderFor_of_not_hasRenderer hown]
      exact (composed_eq_typeText fun v hv hrenderer => hown (h t v (.refl t) hv hrenderer)).symm

/-! ### Legible notations -/

/-- What a type is written like, with and without the key, shows where the texts of its generics differ. If it has a
renderer for the key, then it shows too which of the two ways was taken, as long as the texts of the generics under the
key do not begin like `mark`, and with such generics the text does not begin so either. -/
structure Legible (key mark : String) (t : Ty) : Prop where
  plain : ∀ xs ys, xs.length = t.generics.length → PartWays xs ys → Apart (t.written xs) (t.written ys)
  keyed : ∀ xs ys, xs.length = t.generics.length → PartWays xs ys → Apart (t.writtenFor key xs) (t.writtenFor key ys)
  own : t.HasRenderer key → ∀ xs ys, xs.length = t.generics.length → ys.length = t.generics.length →
    (∀ y ∈ ys, Apart mark y) → Apart (t.written xs) (t.writtenFor key ys)
  outer : ∀ ys, ys.length = t.generics.length → (∀ y ∈ ys, Apart mark y) → Apart mark (t.writtenFor key ys)

section Legible

variable {mark : String}

theorem apart_composed (h : ∀ u : Ty, u.PartOf t → u.Legible key mark) : Apart mark (t.composed key) := by
  induction t using inductionOnGenerics with
  | step t ih =>
    rw [composed_eq]
    refine (h t (.refl t)).outer _ (List.length_map _) ?_
    intro y hy
    obtain ⟨g, hg, rfl⟩ := List.mem_map.mp hy
    exact ih g hg fun u hu => h u (.generic hg hu)

/-- A renderer for the key that is not asked is missed in the text. -/
theorem apart_of_hasRenderer (h : ∀ u : Ty, u.PartOf t → u.Legible key mark) (hv : v.PartOf t)
    (hrenderer : v.HasRenderer key) : Apart t.typeText (t.composed key) := by
  induction t using inductionOnGenerics generalizing v with
  | step t ih =>
    have hpart : ∀ g ∈ t.generics, ∀ u : Ty, u.PartOf g → u.Legible key mark :=
      fun g hg u hu => h u (.generic hg hu)
    rw [typeText_eq, composed_eq]
    by_cases hown : t.HasRenderer key
    · refine (h t (.refl t)).own hown _ _ (List.length_map _) (List.length_map _) ?_
      intro y hy
      obtain ⟨g, hg, rfl⟩ := List.mem_map.mp hy
      exact apart_composed (hpart g hg)
    · rw [writtenFor_of_not_hasRenderer hown]
      refine (h t (.refl t)).plain _ _ (List.length_map _) ?_
      rcases hv.eq_or_generic with rfl | ⟨g, hg, hv⟩
      · exact absurd hrenderer hown
      · refine PartWays.of_map ?_ hg (ih g hg (hpart g hg) hv hrenderer)
        intro c hc
        by_cases hnone : ∀ w : Ty, w.PartOf c → ¬ w.HasRenderer key
        · exact .inl (composed_eq_typeText hnone).symm
        · push Not at hnone
          obtain ⟨w, hw, hsome⟩ := hnone
          exact .inr (ih c hc (hpart c hc) hw hsome)

theorem apart_of_not_layered (h : ∀ u : Ty, u.PartOf t → u.Legible key mark) (ht : ¬ t.Layered key) :
    Apart (t.renderFor key) (t.composed key) := by
  induction t using inductionOnGenerics with
  | step t ih =>
    rw [Layered] at ht
    push Not at ht
    obtain ⟨u, v, hu, hv, hrenderer, hnone⟩ := ht
    by_cases hown : t.HasRenderer key
    · rw [renderFor_of_hasRenderer hown, composed_eq]
      refine (h t (.refl t)).keyed _ _ (List.length_map _) ?_
      rcases hu.eq_or_generic with rfl | ⟨g, hg, hu⟩
      · exact absurd hown hnone
      · have hpart : ∀ g ∈ t.generics, ∀ u : Ty, u.PartOf g → u.Legible key mark :=
          fun g hg u hu => h u (.generic hg hu)
        have hbroken : ¬ g.Layered key := fun hlayered => hnone (hlayered u v hu hv hrenderer)
        refine PartWays.of_map ?_ hg (ih g hg (hpart g hg) hbroken)
        intro c hc
        by_cases hlayered : c.Layered key
        · exact .inl (renderFor_of_layered hlayered)
        · exact .inr (ih c hc (hpart c hc) hlayered)
    · rw [renderFor_of_not_hasRenderer hown]
      exact apart_of_hasRenderer h (hv.trans hu) hrenderer

end Legible

theorem written_of_none (h : t.traits.typeText = none) : t.written = bracketed t.name := by
  funext texts
  rw [written, h]

theorem written_of_some {render : Renderer} (h : t.traits.typeText = some render) :
    t.written = fun texts => render (t.view texts) := by
  funext texts
  rw [written, h]

theorem writtenFor_of_some {render : Renderer} (h : t.traits.renderers.get? key = some render) :
    t.writtenFor key = fun texts => render (t.view texts) := by
  funext texts
  rw [writtenFor, h]

theorem exists_bracketed (name : String) (texts : List String) : ∃ rest, bracketed name texts = name ++ rest := by
  rw [bracketed]
  split
  · exact ⟨"", by simp⟩
  · exact ⟨"<" ++ ", ".intercalate texts ++ ">", by simp only [String.append_assoc]⟩

theorem apart_bracketed {xs ys : List String} (h : PartWays xs ys) (name : String) :
    Apart (bracketed name xs) (bracketed name ys) := by
  rw [bracketed, bracketed, if_neg (by simpa using h.ne_nil.1), if_neg (by simpa using h.ne_nil.2)]
  exact ((h.intercalate ", ").append_left (name ++ "<")).append_right ">" ">"

end Ty

/-! ### The built-in notations -/

namespace Builtin

/-- How a built-in type is written. -/
inductive Style where
  | plain
  | tuple
  | object
  | function
  | effect
  | optional
  | future
  deriving DecidableEq

def Style.typeText : Style → Option Renderer
  | .tuple => some tupleText
  | .object => some objectText
  | .function => some functionText
  | _ => none

def Style.motoko : Style → Option Renderer
  | .object => some objectMotoko
  | .effect => some firstGeneric
  | .optional => some fun v => "?" ++ firstGeneric v
  | .future => some fun v => "async " ++ firstGeneric v
  | _ => none

/-- Whether types of this style take any number of generics. -/
def Style.free (s : Style) : Bool := s == .tuple || s == .object

/-- The built-in types with the numbers of their generics. -/
def styles : List (String × Nat × Style) :=
  [ ("Any", 0, .plain), ("AnyReversed", 0, .plain), ("Type", 1, .plain), ("Node", 0, .plain), ("Value", 0, .plain),
    ("Identifier", 0, .plain), ("Effect", 1, .effect), ("Member", 0, .plain), ("Actor", 0, .plain),
    ("Module", 0, .plain), ("Param", 0, .plain), ("Bool", 0, .plain), ("Char", 0, .plain), ("Text", 0, .plain),
    ("Float", 0, .plain), ("Int", 0, .plain), ("Nat", 0, .plain), ("Blob", 0, .plain), ("Principal", 0, .plain),
    ("Error", 0, .plain), ("Tuple", 0, .tuple), ("Object", 0, .object), ("Function", 2, .function),
    ("Optional", 1, .optional), ("Async", 1, .future) ]

/-- What the notation of a registered type depends on. -/
def outline (b : Ty) : String × Nat × Bool × Option Renderer × List (String × Renderer) :=
  (b.name, b.generics.length, b.traits.arbitraryGenerics, b.traits.typeText, b.traits.renderers.entries)

theorem outline_builtin :
    Registry.builtin.map (fun r => r.types.map outline) = .ok (styles.map fun e =>
      (e.1, e.2.1, e.2.2.free, e.2.2.typeText, e.2.2.motoko.toList.map fun render => (motokoKey, render))) := by
  rfl

/-- What an effect begins with when it is written without the key. -/
def effectMark : String := "Effect<"

/-- What the legibility of a style rests on: names that cannot be taken for the beginnings of other texts, and how many
texts of generics there are. -/
def Style.Suits (name : String) (arity : Nat) : Style → Prop
  | .plain => Apart effectMark name
  | .tuple => arity = 0 ∧ Apart effectMark name
  | .object => True
  | .function => 0 < arity
  | .effect => arity = 1 ∧ name ++ "<" = effectMark
  | .optional => arity = 1 ∧ Apart name "?"
  | .future => arity = 1 ∧ Apart name "async "

instance (name : String) (arity : Nat) : (s : Style) → Decidable (s.Suits name arity)
  | .plain => inferInstanceAs (Decidable (Apart _ _))
  | .tuple => inferInstanceAs (Decidable (_ ∧ _))
  | .object => inferInstanceAs (Decidable True)
  | .function => inferInstanceAs (Decidable (_ < _))
  | .effect => inferInstanceAs (Decidable (_ ∧ _))
  | .optional => inferInstanceAs (Decidable (_ ∧ _))
  | .future => inferInstanceAs (Decidable (_ ∧ _))

theorem styles_suit : ∀ e ∈ styles, e.2.2.Suits e.1 e.2.1 := by decide

end Builtin

open Builtin

/-- The type is written in the style. -/
structure Ty.Styled (t : Ty) (arity : Nat) (s : Style) : Prop where
  suits : s.Suits t.name arity
  typeText : t.traits.typeText = s.typeText
  motoko : ∀ key, t.traits.renderers.get? key = if key = motokoKey then s.motoko else none
  base : t.isBase = true → t.generics.length = arity
  fixed : s.free = false → t.generics.length = arity

theorem KeyMap.get?_of_entries {α : Type} {m : KeyMap α} {key : String} {value : Option α}
    (h : m.entries = value.toList.map fun a => (key, a)) (k : String) :
    m.get? k = if k = key then value else none := by
  rw [KeyMap.get?, h]
  cases value with
  | none => simp
  | some a =>
    by_cases heq : k = key
    · simp [heq]
    · simp [heq, Ne.symm heq]

theorem Registry.Built.styled {r : Registry} {t : Ty} (hstart : Registry.builtin = .ok r) (ht : r.Built t) :
    ∃ e ∈ styles, t.name = e.1 ∧ t.Styled e.2.1 e.2.2 := by
  have hr : r.Reached := Reached.empty.registerAll hstart
  obtain ⟨b, hget, hheir⟩ := ht.heir hr
  have hb : outline b ∈ r.types.map outline := List.mem_map_of_mem (List.mem_of_find?_eq_some hget)
  have htable := outline_builtin
  rw [hstart] at htable
  rw [show r.types.map outline = _ from Except.ok.inj htable] at hb
  obtain ⟨e, he, hentry⟩ := List.mem_map.mp hb
  simp only [outline, Prod.mk.injEq] at hentry
  obtain ⟨hname, harity, hfree, htext, hrenderers⟩ := hentry
  have hsame : t.name = e.1 := (name_of_get? hget).symm.trans hname.symm
  refine ⟨e, he, hsame, ?_, ?_, ?_, ?_, ?_⟩
  · rw [hsame]
    exact styles_suit e he
  · rw [hheir.typeText, htext]
  · rw [hheir.renderers]
    exact KeyMap.get?_of_entries hrenderers.symm
  · intro hbase
    rw [hheir.generics hbase, harity]
  · intro hfixed
    rw [hfixed] at hfree
    have hfits := ((ht.formed hr).fits_registered hget).resolve_left (by simp [← hfree])
    rw [((Ty.fits_iff _ _).mp hfits).length_eq, harity]

/-! ### They are legible -/

namespace Ty

variable {key mark : String} {t : Ty} {arity : Nat}

theorem Legible.of_not_hasRenderer (hnone : ¬ t.HasRenderer key)
    (hplain : ∀ xs ys, xs.length = t.generics.length → PartWays xs ys → Apart (t.written xs) (t.written ys))
    (houter : ∀ ys, ys.length = t.generics.length → (∀ y ∈ ys, Apart mark y) → Apart mark (t.written ys)) :
    t.Legible key mark := by
  rw [← writtenFor_of_not_hasRenderer hnone] at houter
  refine ⟨hplain, ?_, fun hown => absurd hown hnone, houter⟩
  rw [writtenFor_of_not_hasRenderer hnone]
  exact hplain

theorem Legible.of_first (before : String) (htext : t.traits.typeText = none)
    (hrenderer : ∀ texts, t.writtenFor key texts = before ++ texts.headD "") (harity : t.generics.length = 1)
    (hown : ∀ x y, Apart mark y → Apart (bracketed t.name [x]) (before ++ y))
    (houter : ∀ y, Apart mark y → Apart mark (before ++ y)) : t.Legible key mark := by
  have hsingle : ∀ xs : List String, xs.length = t.generics.length → ∃ x, xs = [x] :=
    fun xs hlength => List.length_eq_one_iff.mp (hlength.trans harity)
  refine ⟨?_, ?_, ?_, ?_⟩
  · intro xs ys _ h
    rw [written_of_none htext]
    exact apart_bracketed h t.name
  · intro xs ys hlength h
    rw [hrenderer, hrenderer]
    exact (h.head (hlength.trans harity)).append_left before
  · intro _ xs ys hxs hys hmark
    obtain ⟨x, rfl⟩ := hsingle xs hxs
    obtain ⟨y, rfl⟩ := hsingle ys hys
    rw [written_of_none htext, hrenderer]
    exact hown x y (hmark y List.mem_cons_self)
  · intro ys hys hmark
    obtain ⟨y, rfl⟩ := hsingle ys hys
    rw [hrenderer]
    exact houter y (hmark y List.mem_cons_self)

theorem namedGenerics_eq (v : TypeView) (colon : String) :
    (namedGenerics v).map (fun p => p.1 ++ colon ++ p.2) =
      v.generics.zipIdx.map fun p => (v.slotNames[p.2]?).getD ("_" ++ toString p.2) ++ colon ++ p.1 := by
  rw [namedGenerics, List.map_map]
  rfl

theorem apart_components {xs ys : List String} (h : PartWays xs ys) (t : Ty) (before colon sep after : String) :
    Apart (before ++ sep.intercalate ((namedGenerics (t.view xs)).map fun p => p.1 ++ colon ++ p.2) ++ after)
      (before ++ sep.intercalate ((namedGenerics (t.view ys)).map fun p => p.1 ++ colon ++ p.2) ++ after) := by
  rw [namedGenerics_eq, namedGenerics_eq]
  have hlabelled := h.labelled (fun i => (t.traits.slotNames[i]?).getD ("_" ++ toString i) ++ colon) 0
  exact ((hlabelled.intercalate sep).append_left before).append_right after after

namespace Styled

theorem hasRenderer_iff {s : Style} (h : t.Styled arity s) :
    t.HasRenderer key ↔ key = motokoKey ∧ s.motoko.isSome = true := by
  rw [HasRenderer, h.motoko]
  by_cases heq : key = motokoKey
  · simp [heq]
  · simp [heq]

theorem legible_plain (h : t.Styled arity .plain) : t.Legible motokoKey effectMark := by
  have hnone : ¬ t.HasRenderer motokoKey := by simp [h.hasRenderer_iff, Style.motoko]
  refine .of_not_hasRenderer hnone ?_ ?_
  · intro xs ys _ hparts
    rw [written_of_none h.typeText]
    exact apart_bracketed hparts t.name
  · intro ys _ _
    obtain ⟨rest, hrest⟩ := exists_bracketed t.name ys
    rw [written_of_none h.typeText, hrest]
    exact Apart.extend_right h.suits rest

theorem legible_tuple (h : t.Styled arity .tuple) : t.Legible motokoKey effectMark := by
  have hnone : ¬ t.HasRenderer motokoKey := by simp [h.hasRenderer_iff, Style.motoko]
  have hwritten : ∀ texts, t.written texts = tupleText (t.view texts) :=
    fun texts => congrFun (written_of_some h.typeText) texts
  obtain ⟨harity, hname⟩ := h.suits
  by_cases hb : t.isBase = true
  · -- the registered tuple has no generics, and its text is its name
    have hlengths : t.generics.length = 0 := (h.base hb).trans harity
    refine .of_not_hasRenderer hnone ?_ ?_
    · intro xs ys hlength hparts
      exact absurd (List.length_eq_zero_iff.mp (hlength.trans hlengths)) hparts.ne_nil.1
    · intro ys _ _
      rw [hwritten, tupleText, if_pos (show (t.view ys).isBase = true from hb)]
      exact hname
  · have hinstance : ∀ texts, t.written texts = "(" ++ ", ".intercalate texts ++ ")" := by
      intro texts
      rw [hwritten, tupleText, if_neg (show ¬ (t.view texts).isBase = true from hb)]
      rfl
    refine .of_not_hasRenderer hnone ?_ ?_
    · intro xs ys _ hparts
      rw [hinstance, hinstance]
      exact ((hparts.intercalate ", ").append_left "(").append_right ")" ")"
    · intro ys _ _
      rw [hinstance, String.append_assoc]
      exact Apart.extend_right (by decide) _

theorem legible_object (h : t.Styled arity .object) : t.Legible motokoKey effectMark := by
  have hmotoko : t.traits.renderers.get? motokoKey = some objectMotoko := by rw [h.motoko, if_pos rfl]; rfl
  refine ⟨?_, ?_, ?_, ?_⟩
  · intro xs ys _ hparts
    rw [written_of_some h.typeText]
    exact apart_components hparts t "(" ": " ", " ")"
  · intro xs ys _ hparts
    rw [writtenFor_of_some hmotoko]
    exact apart_components hparts t "\x7b " " : " "; " " \x7d"
  · intro _ xs ys _ _ _
    rw [written_of_some h.typeText, writtenFor_of_some hmotoko]
    simp only [objectText, objectMotoko, String.append_assoc]
    exact Apart.append_right (by decide) _ _
  · intro ys _ _
    rw [writtenFor_of_some hmotoko]
    simp only [objectMotoko, String.append_assoc]
    exact Apart.extend_right (by decide) _

theorem legible_function (h : t.Styled arity .function) : t.Legible motokoKey effectMark := by
  have hnone : ¬ t.HasRenderer motokoKey := by simp [h.hasRenderer_iff, Style.motoko]
  have harity : t.generics.length = arity := h.fixed rfl
  have hpos : 0 < arity := h.suits
  refine .of_not_hasRenderer hnone ?_ ?_
  · intro xs ys _ hparts
    rw [written_of_some h.typeText]
    exact hparts.intercalate " -> "
  · intro ys hlength hmark
    rw [written_of_some h.typeText]
    cases ys with
    | nil =>
      have hzero : 0 = t.generics.length := hlength
      omega
    | cons y ys =>
      -- the arrow stands after the first generic, which is what the text begins with
      obtain ⟨rest, hrest⟩ := exists_intercalate_cons " -> " y ys
      show Apart effectMark (" -> ".intercalate (y :: ys))
      rw [hrest]
      exact (hmark y List.mem_cons_self).extend_right rest

theorem legible_effect (h : t.Styled arity .effect) : t.Legible motokoKey effectMark := by
  have hmotoko : t.traits.renderers.get? motokoKey = some firstGeneric := by rw [h.motoko, if_pos rfl]; rfl
  obtain ⟨harity, hname⟩ := h.suits
  refine .of_first "" h.typeText ?_ ((h.fixed rfl).trans harity) ?_ ?_
  · intro texts
    rw [writtenFor_of_some hmotoko, String.empty_append]
    rfl
  · -- under the key only the generic is written, and that does not look like an effect
    intro x y hy
    rw [bracketed, if_neg (by simp), hname, String.append_assoc, String.empty_append]
    exact hy.extend _
  · intro y hy
    rwa [String.empty_append]

theorem legible_first {s : Style} (h : t.Styled arity s) (before : String) (hs : s.free = false)
    (htext : s.typeText = none) (hmotoko : s.motoko = some fun v => before ++ firstGeneric v) (harity : arity = 1)
    (hname : Apart t.name before) (hbefore : Apart effectMark before) : t.Legible motokoKey effectMark := by
  refine .of_first before (h.typeText.trans htext) ?_ ((h.fixed hs).trans harity) ?_ ?_
  · intro texts
    rw [writtenFor_of_some (by rw [h.motoko, if_pos rfl, hmotoko])]
    rfl
  · intro x y _
    obtain ⟨rest, hrest⟩ := exists_bracketed t.name [x]
    rw [hrest]
    exact hname.append_right rest y
  · intro y _
    exact hbefore.extend_right y

theorem legible {s : Style} (h : t.Styled arity s) : t.Legible motokoKey effectMark := by
  cases s with
  | plain => exact h.legible_plain
  | tuple => exact h.legible_tuple
  | object => exact h.legible_object
  | function => exact h.legible_function
  | effect => exact h.legible_effect
  | optional => exact h.legible_first "?" rfl rfl rfl h.suits.1 h.suits.2 (by decide)
  | future => exact h.legible_first "async " rfl rfl rfl h.suits.1 h.suits.2 (by decide)

end Styled

end Ty

namespace Registry

variable {r : Registry} {t u : Ty}

theorem Built.of_partOf (ht : r.Built t) (h : u.PartOf t) : r.Built u := by
  induction h with
  | refl => exact ht
  | generic hg _ ih => exact ih (ht.generic hg)

/-- The names of the built-in types that have a renderer for Motoko. -/
def motokoNames : List String := ["Effect", "Object", "Optional", "Async"]

theorem Built.hasRenderer_iff (hstart : Registry.builtin = .ok r) (ht : r.Built t) (key : String) :
    t.HasRenderer key ↔ key = motokoKey ∧ t.name ∈ motokoNames := by
  obtain ⟨e, he, hname, hstyled⟩ := ht.styled hstart
  have hnames : ∀ e ∈ styles, e.2.2.motoko.isSome = true ↔ e.1 ∈ motokoNames := by decide
  rw [hstyled.hasRenderer_iff, hname, hnames e he]

/-- **Which types over the built-in lattice are composed of the texts of their generics.** Under every compile key and
for every type, the text is composed just when the type is layered: no tuple, function or other type without a renderer
for the key stands, at any depth, around an effect, a record, an option or a future under the key of Motoko. Under all
other keys every type is composed, because no built-in type has a renderer for them. -/
theorem rendering_composed_iff_layered (hstart : Registry.builtin = .ok r) (ht : r.Built t) (key : String) :
    (t.renderFor key = t.composed key ↔ t.Layered key) ∧
    (key ≠ motokoKey → t.renderFor key = t.composed key) ∧
    ∀ u : Ty, u.PartOf t → (u.HasRenderer key ↔ key = motokoKey ∧ u.name ∈ motokoNames) := by
  have hrenderers : ∀ u : Ty, u.PartOf t → (u.HasRenderer key ↔ key = motokoKey ∧ u.name ∈ motokoNames) :=
    fun u hu => (ht.of_partOf hu).hasRenderer_iff hstart key
  have hother : key ≠ motokoKey → t.Layered key := by
    intro hkey u v hu hv hv'
    exact absurd ((hrenderers v (hv.trans hu)).mp hv').1 hkey
  refine ⟨⟨?_, Ty.renderFor_of_layered⟩, fun hkey => Ty.renderFor_of_layered (hother hkey), hrenderers⟩
  intro heq
  by_contra hbroken
  obtain rfl : key = motokoKey := by
    by_contra hkey
    exact hbroken (hother hkey)
  have hlegible : ∀ u : Ty, u.PartOf t → u.Legible motokoKey effectMark := by
    intro u hu
    obtain ⟨e, -, -, hstyled⟩ := (ht.of_partOf hu).styled hstart
    exact hstyled.legible
  exact (Ty.apart_of_not_layered hlegible hbroken).ne heq

/-- A future of an option of a tuple is layered. A tuple of an option is not. -/
theorem rendering_composed_iff_layered_options :
    ∃ r t u, Registry.builtin = .ok r ∧
      r.fromPortable (.mk "Async" [.mk "Optional" [.mk "Tuple" [.named "Int", .named "Text"]]]) = .ok t ∧
      r.fromPortable (.mk "Tuple" [.mk "Optional" [.named "Int"]]) = .ok u ∧
      t.renderFor motokoKey = "async ?(Int, Text)" ∧ t.Layered motokoKey ∧ ¬ u.Layered motokoKey := by
  obtain ⟨r, hr, t, ht, u, hu, htext, htext', hu'⟩ : ∃ r, Registry.builtin = .ok r ∧
      ∃ t, r.fromPortable (.mk "Async" [.mk "Optional" [.mk "Tuple" [.named "Int", .named "Text"]]]) = .ok t ∧
      ∃ u, r.fromPortable (.mk "Tuple" [.mk "Optional" [.named "Int"]]) = .ok u ∧
      t.renderFor motokoKey = "async ?(Int, Text)" ∧ t.composed motokoKey = "async ?(Int, Text)" ∧
      u.renderFor motokoKey ≠ u.composed motokoKey := ⟨_, rfl, _, rfl, _, rfl, rfl, rfl, by decide⟩
  have hlayered := (rendering_composed_iff_layered hr (.fromPortable ht) motokoKey).1
  have hbroken := (rendering_composed_iff_layered hr (.fromPortable hu) motokoKey).1
  exact ⟨r, t, u, hr, ht, hu, htext, hlayered.mp (htext.trans htext'.symm), fun h => hu' (hbroken.mpr h)⟩

/-- A tuple writes an option inside it without the key. -/
theorem tuple_renders_option_without_key :
    ∃ r t, Registry.builtin = .ok r ∧ r.fromPortable (.mk "Tuple" [.mk "Optional" [.named "Int"]]) = .ok t ∧
      t.renderFor motokoKey = "(Optional<Int>)" ∧ t.composed motokoKey = "(?Int)" :=
  ⟨_, _, rfl, rfl, rfl, rfl⟩

end Registry

end BlockGraph
