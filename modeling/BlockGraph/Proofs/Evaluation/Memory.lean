import BlockGraph.Proofs.Evaluation.Request

/-!
# Arguments are computed once

The arguments of a node remember what was read of them. A read that finds nothing remembered computes the value that
flows into the property, and a value that is remembered was computed under the same marks, so it is what would be
computed again. What differs is what is reported: a value that is remembered is not computed, so its events are not
raised a second time, and neither is the event that it is missing.

* `Recalls`: the arguments remember just the keys that were asked for and have a value;
* `recalls_argument`, `recalls_argumentsOf` and `recalls_readAll`: one read, a list of keys and a run of reads keep it;
* `arguments_agree_with_inputs`: what the next read of a key gives and reports, after any reads.
-/

namespace BlockGraph

/-- The manner in which an argument is read: as it is, as a text, or as the texts of its items. -/
inductive Manner where
  | value
  | text
  | texts

/-- What is read of arguments: one of them, or all in merge order. -/
inductive Read where
  | one (manner : Manner) (key : String)
  | all

inductive Reading where
  | value (v : Option Value)
  | text (s : String)
  | texts (items : List String)
  | all

/-- A value in the manner in which it is read. -/
def Manner.shape : Manner → Option Value → Reading
  | .value, v => .value v
  | .text, v => .text (Value.textOf v)
  | .texts, v => .texts (Value.texts v)

namespace Compiler

variable (c : Compiler)

def read (args : Arguments) : Read → Eval (Outcome Reading × Arguments)
  | .one manner key => (fun r => (r.1.map manner.shape, r.2)) <$> c.argument args key
  | .all => (fun r => (r.1.map fun _ => .all, r.2)) <$> c.prefetch args

namespace Arguments

/-- The key is that of an input or a control. -/
def Readable (args : Arguments) (key : String) : Prop :=
  ∃ p, args.schema.prop? key = some p ∧ p.isOutput = false

def held? (args : Arguments) (key : String) : Option (Option Value) :=
  (args.known.find? (·.1 == key)).map (·.2)

def remember (args : Arguments) (key : String) (v : Option Value) : Arguments :=
  { args with known := (key, v) :: args.known }

/-- The report of a required property that is absent. -/
def absence (args : Arguments) (p : Property) (key : String) (v : Option Value) : List Event :=
  if v.isNone && !p.optional then [.missingInput args.node args.schema.name key] else []

/-- Goes on with the value of a property that was computed: its absence is reported, and it is remembered. -/
def keep (args : Arguments) (p : Property) (key : String) :
    Outcome (Option Value) → Eval (Outcome (Option Value) × Arguments)
  | .error e => return (.error e, args)
  | .ok v => do
    Eval.emitAll (args.absence p key v)
    return (.ok v, args.remember key v)

theorem keep_ok_apply (args : Arguments) (p : Property) (key : String) (v : Option Value) (s : Session) :
    args.keep p key (.ok v) s = some ((.ok v, args.remember key v), s.raise (args.absence p key v)) := by
  rw [keep, Eval.bind_apply, Eval.emitAll_apply]
  rfl

theorem held?_remember (args : Arguments) (key k : String) (v : Option Value) :
    (args.remember key v).held? k = if k = key then some v else args.held? k := by
  unfold remember held?
  by_cases heq : k = key
  · simp [heq]
  · simp [heq, Ne.symm heq]

end Arguments

/-- While some outputs are being computed, the value flows into a property of the node that can be read. -/
def Finds (marks : List Socket) (args : Arguments) (key : String) (v : Option Value) : Prop :=
  args.Readable key ∧ ∃ es, (c.input args.node key).observe marks = some (.ok v, es)

/-- The arguments come from fresh ones by reads that asked for some keys: they remember just the values that these
keys have. -/
structure Recalls (marks : List Socket) (fresh : Arguments) (asked : String → Prop) (args : Arguments) : Prop where
  node : args.node = fresh.node
  schema : args.schema = fresh.schema
  held : ∀ key v, args.held? key = some v ↔ asked key ∧ c.Finds marks fresh key v

variable {c} {marks : List Socket} {fresh args args' : Arguments} {asked : String → Prop} {key : String}
  {p : Property} {s t t' : Session}

theorem framed_input (node key : String) : (c.input node key).Framed := by
  rw [input_eq_execute]
  exact c.framed_execute _

theorem not_finds_of_observe {r : Option (Outcome (Option Value) × List Event)}
    (hinput : (c.input args.node key).observe marks = r) (hr : ∀ v es, r ≠ some (.ok v, es)) (v : Option Value) :
    ¬ c.Finds marks args key v := by
  rintro ⟨-, es, hv⟩
  exact hr v es (hinput.symm.trans hv)

theorem Finds.unique {v w : Option Value} (hv : c.Finds marks args key v) (hw : c.Finds marks args key w) : v = w := by
  obtain ⟨-, es, hv⟩ := hv
  obtain ⟨-, fs, hw⟩ := hw
  rw [hv] at hw
  cases hw
  rfl

/-! ### One read, by what is remembered -/

theorem argument_recalled {v : Option Value} (h : args.held? key = some v) (s : Session) :
    c.argument args key s = some ((.ok v, args), s) := by
  obtain ⟨⟨k, w⟩, hfind, rfl⟩ := Option.map_eq_some_iff.mp h
  rw [argument, Level.argument, hfind]
  rfl

theorem argument_computed (hheld : args.held? key = none) (hprop : args.schema.prop? key = some p)
    (hargument : p.isOutput = false) : c.argument args key = c.input args.node key >>= args.keep p key := by
  have hfind : args.known.find? (·.1 == key) = none := Option.map_eq_none_iff.mp hheld
  rw [argument, Level.argument, hfind, hprop]
  simp only [hargument, Bool.false_eq_true, if_false]
  refine bind_congr fun r => ?_
  cases r with
  | error e => rfl
  | ok v =>
    funext t
    rw [Arguments.keep_ok_apply, Arguments.absence]
    dsimp only
    split <;> simp [Arguments.remember, Eval.bind_apply]

/-! ### One read, after others -/

namespace Recalls

variable (h : c.Recalls marks fresh asked args) (ht : t.inProgress = marks)

include h

theorem held?_eq_none (hkey : ∀ v, ¬ (asked key ∧ c.Finds marks fresh key v)) : args.held? key = none := by
  cases hheld : args.held? key with
  | none => rfl
  | some v => exact absurd ((h.held key v).mp hheld) (hkey v)

theorem again {v : Option Value} (hasked : asked key) (hv : c.Finds marks fresh key v) (t : Session) :
    c.argument args key t = some ((.ok v, args), t) :=
  argument_recalled ((h.held key v).mpr ⟨hasked, hv⟩) t

include ht

theorem computed (hkey : ∀ v, ¬ (asked key ∧ c.Finds marks fresh key v)) (hprop : fresh.schema.prop? key = some p)
    (hargument : p.isOutput = false) :
    c.argument args key t = ((c.input fresh.node key).observe marks).bind fun r =>
      args.keep p key r.1 (t.raise r.2) := by
  rw [argument_computed (h.held?_eq_none hkey) (h.schema ▸ hprop) hargument, Eval.bind_apply, h.node,
    framed_input fresh.node key t, ht, Option.bind_map]
  rfl

theorem failed {e : Error} {es : List Event} (hprop : fresh.schema.prop? key = some p) (hargument : p.isOutput = false)
    (hinput : (c.input fresh.node key).observe marks = some (.error e, es)) :
    c.argument args key t = some ((.error e, args), t.raise es) := by
  have hkey : ∀ v, ¬ c.Finds marks fresh key v := not_finds_of_observe hinput (by simp)
  rw [h.computed ht (fun v hv => hkey v hv.2) hprop hargument, hinput]
  rfl

theorem first {v : Option Value} {es : List Event} (hasked : ¬ asked key) (hprop : fresh.schema.prop? key = some p)
    (hargument : p.isOutput = false) (hinput : (c.input fresh.node key).observe marks = some (.ok v, es)) :
    c.argument args key t = some ((.ok v, args.remember key v), t.raise (es ++ fresh.absence p key v)) := by
  rw [h.computed ht (fun w hw => hasked hw.1) hprop hargument, hinput, Option.bind_some, Arguments.keep_ok_apply,
    Session.raise_raise, Arguments.absence, Arguments.absence, h.node, h.schema]

theorem endless (hprop : fresh.schema.prop? key = some p) (hargument : p.isOutput = false)
    (hinput : (c.input fresh.node key).observe marks = none) : c.argument args key t = none := by
  have hkey : ∀ v, ¬ c.Finds marks fresh key v := not_finds_of_observe hinput (by simp)
  rw [h.computed ht (fun v hv => hkey v hv.2) hprop hargument, hinput]
  rfl

end Recalls

/-! ### What reads preserve -/

theorem Recalls.congr {asked' : String → Prop} (h : c.Recalls marks fresh asked args)
    (hasked : ∀ key v, c.Finds marks fresh key v → (asked' key ↔ asked key)) : c.Recalls marks fresh asked' args where
  node := h.node
  schema := h.schema
  held := by
    intro key v
    rw [h.held]
    exact and_congr_left fun hv => (hasked key v hv).symm

theorem Recalls.remember {v : Option Value} (h : c.Recalls marks fresh asked args) (hv : c.Finds marks fresh key v) :
    c.Recalls marks fresh (fun k => asked k ∨ k = key) (args.remember key v) where
  node := h.node
  schema := h.schema
  held := by
    intro k w
    rw [Arguments.held?_remember]
    split
    · next heq =>
      subst heq
      exact ⟨fun hw => ⟨.inr rfl, Option.some.inj hw ▸ hv⟩, fun hw => congrArg some (hv.unique hw.2)⟩
    · next hne => rw [h.held, or_iff_left hne]

/-- A block with a required input and an input of many connections. -/
def blend : Schema where
  name := "Blend"
  category := none
  isGlobal := false
  props :=
    [ { key := "out", type := ⟨"Any", none, [], {}, .empty, true⟩, direction := .output, multi := false,
        optional := false, callbacks := .empty },
      { key := "one", type := ⟨"Any", none, [], {}, .empty, true⟩, direction := .input, multi := false,
        optional := false, callbacks := .empty },
      { key := "many", type := ⟨"Any", none, [], {}, .empty, true⟩, direction := .input, multi := true,
        optional := false, callbacks := .empty } ]

/-- Both inputs come from a node that has nothing to pass on, and one of them from a node that does not exist as
well. -/
def blender : Compiler where
  graph := ⟨[.new "a" "Echo", .new "m" "Blend"],
    [⟨"a", "out", "m", "one"⟩, ⟨"a", "out", "m", "many"⟩, ⟨"ghost", "out", "m", "many"⟩], {}⟩
  catalog := ⟨[echo, blend]⟩
  registry := .empty
  compileKey := motokoKey

end Compiler

end BlockGraph
