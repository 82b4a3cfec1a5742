import BlockGraph.Proofs.Block.Catalog
import BlockGraph.Proofs.Evaluation.Plain
import BlockGraph.Proofs.Evaluation.Wording

/-!
# Cycles are detected exactly

An output is met again while it is being computed only if it depends on itself: each marked output reaches the one
that is being computed along dependencies (`cyclesAt_traceAt`). Repeated reads and diamonds set no mark that stays.

The other way round, suppose that computing an output meets no cycle, and that the programs on the way read all
arguments first (`Program.Prefetches`, which `Program.prefetch` sees to). Then each output that it depends on was
computed under its mark, without meeting a cycle either (`silent_of_dependsOn`). Along any path of dependencies the
marks grow (`silent_of_reaches`), so that a path which comes back to where it started would have met its own mark.
-/

namespace BlockGraph

/-- The notices tell of cycles at outputs of one kind only. -/
def CyclesAt (kind : Socket → Prop) (ns : List Notice) : Prop := ∀ y block, Notice.cycle y block ∈ ns → kind y

variable {kind : Socket → Prop} {ns ms : List Notice}

theorem cyclesAt_append : CyclesAt kind (ns ++ ms) ↔ CyclesAt kind ns ∧ CyclesAt kind ms := by
  simp only [CyclesAt, List.mem_append]
  constructor
  · intro h
    exact ⟨fun y block hy => h y block (.inl hy), fun y block hy => h y block (.inr hy)⟩
  · rintro ⟨hns, hms⟩ y block (hy | hy)
    · exact hns y block hy
    · exact hms y block hy

theorem cyclesAt_nil : CyclesAt kind [] := fun _ _ h => absurd h List.not_mem_nil

/-! ### Soundness -/

theorem Steps.Within.cyclesAt_trace {α : Type} {computes : Socket → Prop} {ends : α → Prop} {t : Steps α}
    {outputs : Socket → Traced (Outcome (Option Value))} {types : String → String → Traced (Outcome (Option Ty))}
    {a : α} (h : t.Within computes ends)
    (hcomputes : ∀ socket, computes socket → ∀ r ms, outputs socket = some (r, ms) → CyclesAt kind ms)
    (htrace : t.trace outputs types = some (a, ns)) : CyclesAt kind ns := by
  induction t generalizing ns with
  | done b =>
    cases htrace
    exact cyclesAt_nil
  | report e next ih =>
    obtain ⟨_, _, ns₂, hreport, hnext, rfl⟩ := Traced.andThen_eq_some.mp htrace
    cases hreport
    refine cyclesAt_append.mpr ⟨?_, ih h hnext⟩
    intro y block hy
    cases List.mem_singleton.mp hy
  | compute socket next ih =>
    obtain ⟨r, ns₁, ns₂, hsocket, hnext, rfl⟩ := Traced.andThen_eq_some.mp htrace
    exact cyclesAt_append.mpr ⟨hcomputes socket h.1 r ns₁ hsocket, ih r (h.2 r) hnext⟩
  | infer node key next ih => exact h.elim

namespace Compiler

variable {c : Compiler} {x y : Socket} {r : Outcome (Option Value)} {marks : List Socket}

theorem cyclesAt_traceAt (hc : c.ReadsOwnArguments) (n : Nat)
    (hmarks : ∀ m ∈ marks, Relation.TransGen c.DependsOn m x) (h : traceAt n c marks x = some (r, ns)) :
    CyclesAt (fun y => Relation.ReflTransGen c.DependsOn x y ∧ Relation.TransGen c.DependsOn y y) ns := by
  induction n generalizing marks x r ns with
  | zero => cases h
  | succ n ih =>
    rw [traceAt] at h
    cases hprop : c.property x.node x.key with
    | error e =>
      rw [hprop] at h
      cases h
      exact cyclesAt_nil
    | ok found =>
      obtain ⟨schema, p⟩ := found
      rw [hprop] at h
      dsimp only at h
      by_cases hmark : x ∈ marks
      · rw [if_pos hmark] at h
        cases h
        intro y block hy
        cases List.mem_singleton.mp hy
        exact ⟨.refl, hmarks x hmark⟩
      · rw [if_neg hmark, Option.map_eq_some_iff] at h
        obtain ⟨⟨v, ms⟩, htrace, hr⟩ := h
        cases hr
        refine (c.within_outputSteps_of_arguments hc hprop).cyclesAt_trace ?_ htrace
        intro y hxy r' ms' hy z block hz
        have hmarks' : ∀ m ∈ x :: marks, Relation.TransGen c.DependsOn m y := by
          intro m hm
          rcases List.mem_cons.mp hm with rfl | hm
          · exact .single hxy
          · exact .tail (hmarks m hm) hxy
        obtain ⟨hyz, hcycle⟩ := ih hmarks' hy z block hz
        exact ⟨.head hxy hyz, hcycle⟩

/-! ### Completeness -/

end Compiler

/-- The program starts by reading the arguments of the keys, in their order, as long as none of them fails. -/
def Program.Prefetches : List String → Program → Prop
  | [], _ => True
  | key :: rest, .ask (.argument k) next => k = key ∧ ∀ v, (next (.ok v)).Prefetches rest
  | _ :: _, _ => False

namespace Compiler

variable {c : Compiler} {x y : Socket} {marks : List Socket}

variable (c) in
/-- Whatever can be reached from an output resolves, with all stored controls, has a program under the compile key,
and this program reads all arguments first. -/
structure Thorough (x : Socket) : Prop where
  resolves : ∀ y, Relation.ReflTransGen c.DependsOn x y → ∃ found, c.property y.node y.key = .ok found
  controls : ∀ y, Relation.ReflTransGen c.DependsOn x y → ∀ key, ∃ v, c.storedControl y.node key = .ok v
  prefetches : ∀ y schema p, Relation.ReflTransGen c.DependsOn x y → c.property y.node y.key = .ok (schema, p) →
    ∃ callback, p.callback? c.compileKey = some callback ∧
      (callback (c.site y.node schema)).Prefetches schema.argumentKeys

theorem Thorough.reaches (hx : c.Thorough x) (hxy : Relation.ReflTransGen c.DependsOn x y) : c.Thorough y where
  resolves z hyz := hx.resolves z (hxy.trans hyz)
  controls z hyz := hx.controls z (hxy.trans hyz)
  prefetches z schema p hyz := hx.prefetches z schema p (hxy.trans hyz)

/-- The output is computed without meeting a cycle. -/
def Silent (outputs : Socket → Traced (Outcome (Option Value))) (socket : Socket) : Prop :=
  ∃ r ns, outputs socket = some (r, ns) ∧ CyclesAt (fun _ => False) ns

section reads

variable {outputs : Socket → Traced (Outcome (Option Value))} {types : String → String → Traced (Outcome (Option Ty))}

/-- The output is no error when it is computed. -/
def Answers (outputs : Socket → Traced (Outcome (Option Value))) (socket : Socket) : Prop :=
  ∀ r ns, outputs socket = some (r, ns) → ∃ v, r = .ok v

theorem silent_of_gatherSteps {peers : List Socket} {result : Outcome (List Value)}
    (hanswers : ∀ peer ∈ peers, Answers outputs peer)
    (h : (gatherSteps peers).trace outputs types = some (result, ns)) (hquiet : CyclesAt (fun _ => False) ns) :
    (∃ vs, result = .ok vs) ∧ ∀ peer ∈ peers, Silent outputs peer := by
  induction peers generalizing result ns with
  | nil =>
    cases h
    exact ⟨⟨[], rfl⟩, fun peer hpeer => absurd hpeer List.not_mem_nil⟩
  | cons socket rest ih =>
    rw [List.forall_mem_cons] at hanswers
    obtain ⟨r, ns₁, ns₂, hsocket, hnext, rfl⟩ := Traced.andThen_eq_some.mp h
    obtain ⟨hquiet₁, hquiet₂⟩ := cyclesAt_append.mp hquiet
    obtain ⟨v, rfl⟩ := hanswers.1 r ns₁ hsocket
    rw [Steps.trace_bind] at hnext
    obtain ⟨vs, ns₃, ns₄, hrest, hdone, rfl⟩ := Traced.andThen_eq_some.mp hnext
    obtain ⟨⟨vs', rfl⟩, hsilent⟩ := ih hanswers.2 hrest (cyclesAt_append.mp hquiet₂).1
    cases hdone
    exact ⟨⟨_, rfl⟩, List.forall_mem_cons.mpr ⟨⟨_, ns₁, hsocket, hquiet₁⟩, hsilent⟩⟩

theorem silent_of_connectedSteps {node : String} {p : Property} {result : Outcome (Option Value)}
    (hanswers : ∀ peer ∈ c.consulted node p, Answers outputs peer)
    (hcontrol : ∃ v, c.storedControl node p.key = .ok v)
    (h : (c.connectedSteps node p).trace outputs types = some (result, ns))
    (hquiet : CyclesAt (fun _ => False) ns) :
    (∃ v, result = .ok v) ∧ ∀ peer ∈ c.consulted node p, Silent outputs peer := by
  unfold connectedSteps at h
  unfold consulted at hanswers ⊢
  by_cases hmulti : p.multi = true
  · simp only [hmulti, if_true] at h hanswers ⊢
    rw [Steps.trace_bind] at h
    obtain ⟨vs, ns₁, ns₂, hgather, hdone, rfl⟩ := Traced.andThen_eq_some.mp h
    obtain ⟨⟨vs', rfl⟩, hsilent⟩ := silent_of_gatherSteps hanswers hgather (cyclesAt_append.mp hquiet).1
    cases hdone
    exact ⟨⟨_, rfl⟩, hsilent⟩
  · simp only [hmulti, if_false, Bool.false_eq_true] at h hanswers ⊢
    cases hpeers : c.graph.peers node (inputSide p) p.key with
    | nil =>
      simp only [hpeers] at h
      cases h
      refine ⟨?_, fun peer hpeer => by simp at hpeer⟩
      split
      · exact ⟨none, rfl⟩
      · exact hcontrol
    | cons peer rest =>
      simp only [hpeers, List.take_succ_cons, List.take_zero, List.forall_mem_singleton] at h hanswers ⊢
      obtain ⟨r, ns₁, ns₂, hpeer, hdone, rfl⟩ := Traced.andThen_eq_some.mp h
      cases hdone
      exact ⟨hanswers _ ns₁ hpeer, _, ns₁, hpeer, (cyclesAt_append.mp hquiet).1⟩

/-- All that an input of the key is computed from is computed without meeting a cycle. -/
def Covers (c : Compiler) (outputs : Socket → Traced (Outcome (Option Value))) (args : Arguments) (key : String) :
    Prop :=
  ∀ p, args.schema.prop? key = some p → p.direction = .input →
    ∀ peer ∈ c.consulted args.node p, Silent outputs peer

/-- The arguments are those of a node whose stored controls resolve, whose peers are no errors and whose keys are
different. -/
structure Sane (c : Compiler) (outputs : Socket → Traced (Outcome (Option Value))) (args : Arguments) : Prop where
  schema : c.schema args.node = .ok args.schema
  nodup : (args.schema.props.map (·.key)).Nodup
  controls : ∀ key, ∃ v, c.storedControl args.node key = .ok v
  answers : ∀ peer, c.Consults args.node peer → Answers outputs peer

theorem covers_of_inputSteps {args : Arguments} {key : String} {p : Property} {result : Outcome (Option Value)}
    (hargs : c.Sane outputs args) (hprop : args.schema.prop? key = some p)
    (h : (c.inputSteps args.node key).trace outputs types = some (result, ns))
    (hquiet : CyclesAt (fun _ => False) ns) : (∃ v, result = .ok v) ∧ c.Covers outputs args key := by
  have hkey : p.key = key := by simpa using List.find?_some hprop
  rw [inputSteps, property_eq_ok_iff.mpr ⟨hargs.schema, hprop⟩] at h
  have hcovers : p.direction ≠ .input → c.Covers outputs args key := by
    intro hdir q hq hqdir
    obtain rfl := Option.some.inj (hprop.symm.trans hq)
    exact absurd hqdir hdir
  cases hdir : p.direction with
  | input =>
    simp only [hdir] at h
    have hanswers : ∀ peer ∈ c.consulted args.node p, Answers outputs peer := fun peer hpeer =>
      hargs.answers peer ⟨args.schema, key, p, hargs.schema, hprop, hdir, hpeer⟩
    obtain ⟨hok, hsilent⟩ := silent_of_connectedSteps hanswers (hargs.controls p.key) h hquiet
    refine ⟨hok, ?_⟩
    intro q hq _
    obtain rfl := Option.some.inj (hprop.symm.trans hq)
    exact hsilent
  | output =>
    simp only [hdir] at h
    cases h
    exact ⟨⟨none, rfl⟩, hcovers (by simp [hdir])⟩
  | control =>
    simp only [hdir] at h
    cases h
    obtain ⟨v, hv⟩ := hargs.controls key
    exact ⟨⟨_, by rw [hv]; rfl⟩, hcovers (by simp [hdir])⟩

theorem covers_of_argumentSteps {args args' : Arguments} {key : String} {result : Outcome (Option Value)}
    (hargs : c.Sane outputs args) (hkey : key ∈ args.schema.argumentKeys)
    (hknown : ∀ entry ∈ args.known, c.Covers outputs args entry.1)
    (h : (c.argumentSteps args key).trace outputs types = some ((result, args'), ns))
    (hquiet : CyclesAt (fun _ => False) ns) :
    (∃ v, result = .ok v) ∧ args'.node = args.node ∧ args'.schema = args.schema ∧
      c.Covers outputs args key ∧ ∀ entry ∈ args'.known, c.Covers outputs args entry.1 := by
  unfold argumentSteps at h
  cases hfind : args.known.find? (·.1 == key) with
  | some entry =>
    rw [hfind] at h
    cases h
    have hentry : entry.1 = key := by simpa using List.find?_some hfind
    refine ⟨⟨_, rfl⟩, rfl, rfl, ?_, hknown⟩
    rw [← hentry]
    exact hknown entry (List.mem_of_find?_eq_some hfind)
  | none =>
    obtain ⟨p, hp, hinput, rfl⟩ := Schema.mem_argumentKeys.mp hkey
    have hprop := Schema.prop?_of_mem hargs.nodup hp
    simp only [hfind, hprop, hinput, Bool.false_eq_true, if_false, Steps.trace_bind] at h
    obtain ⟨read, ns₁, ns₂, hread, hdone, rfl⟩ := Traced.andThen_eq_some.mp h
    obtain ⟨⟨v, rfl⟩, hcovers⟩ := covers_of_inputSteps hargs hprop hread (cyclesAt_append.mp hquiet).1
    have hresult : (result, args') = (.ok v, { args with known := (p.key, v) :: args.known }) := by
      dsimp only at hdone
      split at hdone
      · obtain ⟨_, _, _, _, hend, -⟩ := Traced.andThen_eq_some.mp hdone
        cases hend
        rfl
      · cases hdone
        rfl
    cases hresult
    refine ⟨⟨v, rfl⟩, rfl, rfl, hcovers, ?_⟩
    rw [List.forall_mem_cons]
    exact ⟨hcovers, hknown⟩

theorem covers_of_programSteps {keys : List String} {p : Program} {args : Arguments}
    {result : Except Failure (Option Value)} (hp : p.Prefetches keys) (hargs : c.Sane outputs args)
    (hkeys : ∀ key ∈ keys, key ∈ args.schema.argumentKeys)
    (hknown : ∀ entry ∈ args.known, c.Covers outputs args entry.1)
    (h : (c.programSteps p args).trace outputs types = some (result, ns)) (hquiet : CyclesAt (fun _ => False) ns) :
    ∀ key ∈ keys, c.Covers outputs args key := by
  induction keys generalizing p args ns with
  | nil => intro key hkey; cases hkey
  | cons key rest ih =>
    rw [List.forall_mem_cons] at hkeys
    match p, hp with
    | .ask (.argument _) next, ⟨rfl, hnext⟩ =>
      rw [programSteps, Steps.trace_bind] at h
      obtain ⟨⟨answer, args'⟩, ns₁, ns₂, hread, hrest, rfl⟩ := Traced.andThen_eq_some.mp h
      obtain ⟨hquiet₁, hquiet₂⟩ := cyclesAt_append.mp hquiet
      obtain ⟨⟨v, rfl⟩, hnode, hschema, hcovers, hknown'⟩ :=
        covers_of_argumentSteps hargs hkeys.1 hknown hread hquiet₁
      -- what is read later is read from arguments of the same node
      have hsame : ∀ k, c.Covers outputs args' k ↔ c.Covers outputs args k := by
        intro k
        unfold Covers
        rw [hnode, hschema]
      have hargs' : c.Sane outputs args' := by
        constructor
        · rw [hnode, hschema, hargs.schema]
        · rw [hschema]
          exact hargs.nodup
        · rw [hnode]
          exact hargs.controls
        · rw [hnode]
          exact hargs.answers
      have hlater := ih (hnext v) hargs' (by rw [hschema]; exact hkeys.2)
        (fun entry hentry => (hsame _).mpr (hknown' entry hentry)) hrest hquiet₂
      rw [List.forall_mem_cons]
      exact ⟨hcovers, fun k hk => (hsame k).mp (hlater k hk)⟩

end reads

theorem answers_traceAt (n : Nat) {found : Schema × Property} (h : c.property x.node x.key = .ok found) :
    Answers (traceAt n c marks) x := by
  intro r ns htrace
  cases n with
  | zero => cases htrace
  | succ n =>
    rw [traceAt, h] at htrace
    dsimp only at htrace
    split at htrace
    · cases htrace
      exact ⟨none, rfl⟩
    · obtain ⟨q, -, hq⟩ := Option.map_eq_some_iff.mp htrace
      cases hq
      exact ⟨q.1, rfl⟩

/-- One step: an output that meets no cycle is not marked, and what it depends on meets none under its mark. -/
theorem silent_of_dependsOn (hcatalog : c.catalog.Reached) (hdefault : c.defaultCompile = none)
    (hx : c.Thorough x) {n : Nat} (h : Silent (traceAt n c marks) x) :
    x ∉ marks ∧ ∃ m, ∀ y, c.DependsOn x y → Silent (traceAt m c (x :: marks)) y := by
  obtain ⟨r, ns, htrace, hquiet⟩ := h
  cases n with
  | zero => cases htrace
  | succ n =>
    obtain ⟨⟨schema, p⟩, hprop⟩ := hx.resolves x .refl
    obtain ⟨hschema, -⟩ := property_eq_ok_iff.mp hprop
    rw [traceAt, hprop] at htrace
    dsimp only at htrace
    by_cases hmark : x ∈ marks
    · rw [if_pos hmark] at htrace
      cases htrace
      exact (hquiet x schema.name List.mem_cons_self).elim
    · refine ⟨hmark, n, ?_⟩
      rw [if_neg hmark, outputSteps, Steps.trace_bind] at htrace
      obtain ⟨⟨v, ms⟩, hsteps, hr⟩ := Option.map_eq_some_iff.mp htrace
      cases hr
      obtain ⟨result, ns₁, ns₂, hprogram, -, rfl⟩ := Traced.andThen_eq_some.mp hsteps
      obtain ⟨callback, hcallback, hprefetches⟩ := hx.prefetches x schema p .refl hprop
      have hcall : c.program x.node schema p = callback (c.site x.node schema) := by
        rw [program, hdefault]
        simp only [hcallback]
      rw [hcall] at hprogram
      have hargs : c.Sane (traceAt n c (x :: marks)) { node := x.node, schema } := by
        constructor
        · exact hschema
        · exact hcatalog.nodup_keys schema (mem_blocks_of_schema hschema)
        · exact hx.controls x .refl
        · intro peer hpeer
          obtain ⟨found, hfound⟩ := hx.resolves peer (.single hpeer)
          exact answers_traceAt n hfound
      have hcovers := covers_of_programSteps hprefetches hargs (fun key hkey => hkey)
        (fun entry hentry => absurd hentry List.not_mem_nil) hprogram (cyclesAt_append.mp hquiet).1
      rintro y ⟨schema', key, q, hschema', hq, hdir, hy⟩
      obtain rfl := Except.ok.inj (hschema.symm.trans hschema')
      refine hcovers key ?_ q hq hdir y hy
      exact Schema.mem_argumentKeys.mpr ⟨q, List.mem_of_find?_eq_some hq, by simp [Property.isOutput, hdir],
        by simpa using List.find?_some hq⟩

/-- A whole path: whatever can be reached meets no cycle either, under all the marks that there were. -/
theorem silent_of_reaches (hcatalog : c.catalog.Reached) (hdefault : c.defaultCompile = none)
    (hx : c.Thorough x) {n : Nat} (h : Silent (traceAt n c marks) x)
    (hxy : Relation.ReflTransGen c.DependsOn x y) :
    ∃ m marks', marks ⊆ marks' ∧ Silent (traceAt m c marks') y := by
  induction hxy with
  | refl => exact ⟨n, marks, fun _ hm => hm, h⟩
  | @tail y z hxy hyz ih =>
    obtain ⟨m, marks', hsub, hy⟩ := ih
    obtain ⟨-, k, hstep⟩ := silent_of_dependsOn hcatalog hdefault (hx.reaches hxy) hy
    exact ⟨k, y :: marks', fun w hw => List.mem_cons_of_mem y (hsub hw), hstep z hyz⟩

theorem not_silent_of_cycle (hcatalog : c.catalog.Reached) (hdefault : c.defaultCompile = none)
    (hx : c.Thorough x) (hxy : Relation.ReflTransGen c.DependsOn x y) (hcycle : Relation.TransGen c.DependsOn y y)
    (n : Nat) : ¬ Silent (traceAt n c marks) x := by
  intro h
  obtain ⟨m, marks', -, hy⟩ := silent_of_reaches hcatalog hdefault hx h hxy
  obtain ⟨z, hyz, hzy⟩ := Relation.TransGen.head'_iff.mp hcycle
  have hythorough := hx.reaches hxy
  obtain ⟨-, k, hstep⟩ := silent_of_dependsOn hcatalog hdefault hythorough hy
  -- the path from `z` back to `y` keeps the mark of `y`
  obtain ⟨l, marks'', hsub, hagain⟩ :=
    silent_of_reaches hcatalog hdefault (hythorough.reaches (.single hyz)) (hstep z hyz) hzy
  obtain ⟨hfree, -⟩ := silent_of_dependsOn hcatalog hdefault hythorough hagain
  exact hfree (hsub List.mem_cons_self)

theorem exists_cycle_iff (hc : c.ReadsOwnArguments) (hcatalog : c.catalog.Reached)
    (hdefault : c.defaultCompile = none) (hx : c.Thorough x) {n : Nat} {r : Outcome (Option Value)}
    (h : traceAt n c [] x = some (r, ns)) :
    (∃ y block, Notice.cycle y block ∈ ns) ↔
      ∃ y, Relation.ReflTransGen c.DependsOn x y ∧ Relation.TransGen c.DependsOn y y := by
  constructor
  · rintro ⟨y, block, hy⟩
    exact ⟨y, cyclesAt_traceAt hc n (fun m hm => absurd hm List.not_mem_nil) h y block hy⟩
  · rintro ⟨y, hxy, hcycle⟩
    by_contra hnone
    refine not_silent_of_cycle hcatalog hdefault hx hxy hcycle n ⟨r, ns, h, ?_⟩
    intro z block hz
    exact hnone ⟨z, block, hz⟩

/-! ### All requests -/

theorem cyclesAt_traceInfer (htypes : c.inference.ReadsOwnArguments) {n : Nat} {node key : String}
    {r : Outcome (Option Ty)} (h : c.traceInfer (traceAt n c.inference []) node key = some (r, ns)) :
    CyclesAt (fun y => Relation.TransGen c.DependsOn y y) ns := by
  obtain ⟨⟨result, ms⟩, htrace, hr⟩ := Option.map_eq_some_iff.mp h
  cases result with
  | error e =>
    cases hr
    exact cyclesAt_nil
  | ok v =>
    cases hr
    refine (c.inference.within_inputSteps node key).cyclesAt_trace ?_ htrace
    intro x _ r' ms' hx y block hy
    exact (cyclesAt_traceAt htypes n (fun m hm => absurd hm List.not_mem_nil) hx y block hy).2

theorem cyclesAt_requestTrace (hc : c.ReadsOwnArguments) (htypes : c.inference.ReadsOwnArguments) {q : Request}
    (h : c.requestTrace q = some ((), ns)) : CyclesAt (fun y => Relation.TransGen c.DependsOn y y) ns := by
  by_cases hq : ∃ node key, q = .infer node key
  · obtain ⟨node, key, rfl⟩ := hq
    rw [requestTrace, requestSteps, Steps.trace] at h
    obtain ⟨r, ns₁, ns₂, hinfer, hend, rfl⟩ := Traced.andThen_eq_some.mp h
    cases hend
    exact cyclesAt_append.mpr ⟨cyclesAt_traceInfer htypes hinfer, cyclesAt_nil⟩
  · refine (c.within_requestSteps fun node key heq => hq ⟨node, key, heq⟩).cyclesAt_trace ?_ h
    intro x _ r ms hx y block hy
    exact (cyclesAt_traceAt hc c.depth (fun m hm => absurd hm List.not_mem_nil) hx y block hy).2

/-- **Cycles are detected exactly.** Where programs read the arguments of their own nodes, every request ends, and
the check for cycles reports an output only if it depends on itself. If moreover all that can be reached from an
output resolves and reads its arguments first, computing it makes the check report something exactly when some
output on a cycle can be reached.

The notices of a request are the events that a listener hears of it, and they tell which are the check's own. The
words of an event tell the same, unless a program fails in the words of the check. -/
theorem cycle_detection_exact (c : Compiler) (hc : c.ReadsOwnArguments) (htypes : c.inference.ReadsOwnArguments) :
    (∀ q s, s.inProgress = [] → ∃ s' ns, c.perform q s = some ((), s') ∧ c.requestTrace q = some ((), ns) ∧
      s'.heard = s.heard ++ ns.map Notice.event ∧
      (∀ y block, Notice.cycle y block ∈ ns → Relation.TransGen c.DependsOn y y) ∧
      (c.Candid → c.inference.Candid → ∀ y block,
        (Notice.cycle y block).event ∈ ns.map Notice.event ↔ Notice.cycle y block ∈ ns)) ∧
    (c.catalog.Reached → c.defaultCompile = none → ∀ x, c.Thorough x →
      ∃ ns, c.requestTrace (.output x.node x.key) = some ((), ns) ∧
        ((∃ y block, Notice.cycle y block ∈ ns) ↔
          ∃ y, Relation.ReflTransGen c.DependsOn x y ∧ Relation.TransGen c.DependsOn y y)) := by
  have hends : ∀ q s, s.inProgress = [] → ∃ s' ns, c.perform q s = some ((), s') ∧
      c.requestTrace q = some ((), ns) ∧ s'.heard = s.heard ++ ns.map Notice.event := by
    intro q s hs
    obtain ⟨⟨_, s'⟩, hperform⟩ := Option.isSome_iff_exists.mp
      (perform_isSome hc.inferFree htypes.inferFree q s)
    obtain ⟨ns, htrace, hheard⟩ := perform_trace hs hperform
    exact ⟨s', ns, hperform, htrace, hheard⟩
  refine ⟨?_, ?_⟩
  · intro q s hs
    obtain ⟨s', ns, hperform, htrace, hheard⟩ := hends q s hs
    refine ⟨s', ns, hperform, htrace, hheard, cyclesAt_requestTrace hc htypes htrace, ?_⟩
    intro hcandid hcandid' y block
    constructor
    · exact cycle_mem_of_event_mem (plainNotices_requestTrace hcandid hcandid' htrace)
    · exact List.mem_map_of_mem
  · intro hcatalog hdefault x hx
    obtain ⟨-, ns, -, htrace, -⟩ := hends (.output x.node x.key) {} rfl
    obtain ⟨r, houtput⟩ := requestTrace_output htrace
    exact ⟨ns, htrace, exists_cycle_iff hc hcatalog hdefault hx houtput⟩

/-! ### The ring once more -/

theorem reached_ring : ring.catalog.Reached := by
  let any : Ty := ⟨"Any", none, [], {}, .empty, true⟩
  let inputs : List Descriptor := [⟨.single 0, { key := "in", type := any }⟩]
  let outputs : List Descriptor :=
    [⟨.single 1, { key := "out", type := any,
                   callbacks := KeyMap.empty.insert motokoKey fun _ => .get "in" fun v => .done (.ok v) }⟩]
  let decl : BlockDecl := { name := "Echo", isGlobal := true, shape := .split inputs outputs [] }
  have h : Catalog.empty.insert decl = .ok (echo, ring.catalog) := rfl
  exact .insert .empty h

theorem programs_ring {node : String} {schema : Schema} {p : Property} (hschema : ring.schema node = .ok schema)
    (hp : p ∈ schema.props) :
    (ring.program node schema p = .get "in" (fun v => .done (.ok v)) ∨ ring.program node schema p = .absent) ∧
      ring.inference.program node schema p = .absent := by
  obtain rfl : schema = echo := List.mem_singleton.mp (mem_blocks_of_schema hschema)
  simp only [echo, List.mem_cons, List.not_mem_nil, or_false] at hp
  rcases hp with rfl | rfl
  · exact ⟨.inl rfl, rfl⟩
  · exact ⟨.inr rfl, rfl⟩

theorem readsOwnArguments_ring : ring.ReadsOwnArguments ∧ ring.inference.ReadsOwnArguments := by
  refine ⟨?_, ?_⟩
  · intro node schema p hschema hp
    rcases (programs_ring hschema hp).1 with h | h
    · rw [h]
      exact ⟨trivial, fun answer => by cases answer <;> exact trivial⟩
    · rw [h]
      exact trivial
  · intro node schema p hschema hp
    rw [(programs_ring hschema hp).2]
    exact trivial

theorem candid_ring : ring.Candid ∧ ring.inference.Candid := by
  refine ⟨?_, ?_⟩
  · intro node schema p f hschema hp hf
    rcases (programs_ring hschema hp).1 with h | h
    · rw [h] at hf
      obtain ⟨answer, hanswer, hf⟩ := hf
      cases answer with
      | ok v => cases hf
      | error e =>
        cases hf
        exact hanswer.message_ne node p.key
    · rw [h] at hf
      cases hf
  · intro node schema p f hschema hp hf
    rw [(programs_ring hschema hp).2] at hf
    cases hf

theorem dependsOn_ring {x y : Socket} (h : ring.DependsOn x y) : y = ⟨"a", "out"⟩ ∨ y = ⟨"b", "out"⟩ := by
  have hpeer : y ∈ ring.graph.peers x.node .input "in" := List.mem_of_mem_take (mem_peers_of_consults_echo rfl h)
  obtain ⟨conn, hconn, hend⟩ := List.mem_filterMap.mp hpeer
  have hsource : y = ⟨conn.sourceNode, conn.sourcePin⟩ := by
    unfold Connection.peer? at hend
    dsimp only at hend
    split at hend
    · exact (Option.some.inj hend).symm
    · cases hend
  simp only [ring, List.mem_cons, List.not_mem_nil, or_false] at hconn
  rcases hconn with rfl | rfl
  · exact .inl hsource
  · exact .inr hsource

theorem thorough_ring : ring.Thorough ⟨"a", "out"⟩ := by
  have hreach : ∀ y, Relation.ReflTransGen ring.DependsOn ⟨"a", "out"⟩ y →
      y = ⟨"a", "out"⟩ ∨ y = ⟨"b", "out"⟩ := by
    intro y hy
    cases hy with
    | refl => exact .inl rfl
    | tail _ hlast => exact dependsOn_ring hlast
  constructor
  · intro y hy
    rcases hreach y hy with rfl | rfl
    · exact ⟨_, rfl⟩
    · exact ⟨_, rfl⟩
  · intro y hy key
    rcases hreach y hy with rfl | rfl
    · exact ⟨none, rfl⟩
    · exact ⟨none, rfl⟩
  · intro y schema p hy hprop
    rcases hreach y hy with rfl | rfl
    · cases hprop
      exact ⟨_, rfl, rfl, fun _ => trivial⟩
    · cases hprop
      exact ⟨_, rfl, rfl, fun _ => trivial⟩

/-- In the ring the check reports the output that was asked for, in its own words. So this output depends on itself. -/
theorem cycle_detection_exact_ring :
    ring.Candid ∧ ring.inference.Candid ∧ ring.catalog.Reached ∧ ring.Thorough ⟨"a", "out"⟩ ∧
    (∃ s, ring.perform (.output "a" "out") {} = some ((), s) ∧
      Event.warning "a" "Echo" "out" "Cycle detected while compiling a.out" ∈ s.heard) ∧
    Relation.TransGen ring.DependsOn ⟨"a", "out"⟩ ⟨"a", "out"⟩ ∧
    ∃ ns, ring.requestTrace (.output "a" "out") = some ((), ns) ∧ ∃ y block, Notice.cycle y block ∈ ns := by
  obtain ⟨hsound, hcomplete⟩ := cycle_detection_exact ring readsOwnArguments_ring.1 readsOwnArguments_ring.2
  obtain ⟨s, ns, hperform, -, hheard, hcycles, hwords⟩ := hsound (.output "a" "out") {} rfl
  have hevents : (ring.perform (.output "a" "out") {}).map (·.2.heard) =
      some [(Notice.cycle ⟨"a", "out"⟩ "Echo").event, .missingInput "b" "Echo" "in", .missingInput "a" "Echo" "in"] :=
    rfl
  rw [hperform, Option.map_some, Option.some.injEq] at hevents
  have hmem : (Notice.cycle ⟨"a", "out"⟩ "Echo").event ∈ s.heard := by
    rw [hevents]
    exact List.mem_cons_self
  have hcycle : Relation.TransGen ring.DependsOn ⟨"a", "out"⟩ ⟨"a", "out"⟩ := by
    rw [hheard] at hmem
    exact hcycles _ "Echo" ((hwords candid_ring.1 candid_ring.2 _ _).mp hmem)
  obtain ⟨ns', htrace, hiff⟩ := hcomplete reached_ring rfl ⟨"a", "out"⟩ thorough_ring
  exact ⟨candid_ring.1, candid_ring.2, reached_ring, thorough_ring, ⟨s, hperform, hmem⟩, hcycle, ns', htrace,
    hiff.mpr ⟨_, .refl, hcycle⟩⟩

end Compiler

end BlockGraph
