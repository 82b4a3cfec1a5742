import BlockGraph.Proofs.Block.Catalog

/-!
# Three lists or one

A declaration with three lists settles a direction by the first list, in merge order, in which a descriptor occurs;
a declaration with one list settles it by flags. Here the three lists are put into one, in merge order, and each
descriptor gets the flags of the lists in which it occurs (`mergedEntries`).

The two declarations are merged into the same table. A table that has a descriptor under its key has it for good
(`Claimed.claim`), and passes over its further occurrences whatever their direction is (`claim_of_claimed`). So a
descriptor may be told another direction at a later occurrence, and this does not matter: the lists are taken in one
by one, and those taken in earlier have claimed what they share with later ones (`foldlM_claim_flagged`).
-/

namespace BlockGraph

/-- Entries with the same tag are occurrences of one descriptor. -/
def Coherent (entries : List Descriptor) : Prop := ∀ d ∈ entries, ∀ e ∈ entries, d.tag = e.tag → d.decl = e.decl

namespace Descriptor

def occursIn (d : Descriptor) (entries : List Descriptor) : Bool := entries.any (·.tag = d.tag)

/-- The descriptor with exactly the flags of the lists in which it occurs. -/
def flagged (inputs outputs controls : List Descriptor) (d : Descriptor) : Descriptor :=
  { d with decl := { d.decl with
      input := d.occursIn inputs
      output := d.occursIn outputs
      control := d.occursIn controls } }

variable {d : Descriptor} {entries inputs outputs controls : List Descriptor}

theorem occursIn_iff : d.occursIn entries ↔ ∃ e ∈ entries, e.tag = d.tag := by
  simp [occursIn]

theorem occursIn_append {more : List Descriptor} :
    d.occursIn (entries ++ more) = (d.occursIn entries || d.occursIn more) := List.any_append

theorem occursIn_of_mem (h : d ∈ entries) : d.occursIn entries := occursIn_iff.mpr ⟨d, h, rfl⟩

theorem direction?_flagged :
    (d.flagged inputs outputs controls).decl.direction? =
      if d.occursIn outputs then some .output
      else if d.occursIn inputs then some .input
      else if d.occursIn controls then some .control
      else none := rfl

end Descriptor

def mergedEntries (inputs outputs controls : List Descriptor) : List Descriptor :=
  (outputs ++ inputs ++ controls).map (·.flagged inputs outputs controls)

theorem bind_congr_of_ok {ε α β : Type} {x : Except ε α} {f g : α → Except ε β} (h : ∀ a, x = .ok a → f a = g a) :
    x >>= f = x >>= g := by
  cases x with
  | error e => rfl
  | ok a => exact h a rfl

namespace BlockDecl

variable {block : String} {table table' : List Claim} {d : Descriptor} {direction : Direction}
  {entry : Descriptor × Option Direction} {entries : List (Descriptor × Option Direction)}

/-! ### One entry -/

/-- The table has the descriptor under its key. -/
def Claimed (table : List Claim) (d : Descriptor) : Prop :=
  ∃ p, table.find? (·.2.key == d.decl.key) = some (d.tag, p)

theorem claim_of_claimed (h : Claimed table d) : claim block table (d, some direction) = .ok table := by
  obtain ⟨p, hfind⟩ := h
  simp [claim, hfind]

theorem claimed_of_claim (h : claim block table entry = .ok table') : Claimed table' entry.1 := by
  rcases claim_eq_ok h with ⟨hfound, rfl⟩ | ⟨direction, -, hfind, rfl⟩
  · exact hfound
  · exact ⟨entry.1.decl.settle direction, by simp [List.find?_append, hfind, PropDecl.settle]⟩

theorem Claimed.claim (hd : Claimed table d) (h : claim block table entry = .ok table') : Claimed table' d := by
  obtain ⟨p, hfound⟩ := hd
  rcases claim_eq_ok h with ⟨-, rfl⟩ | ⟨direction, -, -, rfl⟩
  · exact ⟨p, hfound⟩
  · exact ⟨p, by simp [List.find?_append, hfound]⟩

theorem claim_eq_error {e : Error} (hdir : entry.2.isSome) (h : claim block table entry = .error e) :
    e = .duplicateProperty block entry.1.decl.key := by
  obtain ⟨direction, hdirection⟩ := Option.isSome_iff_exists.mp hdir
  simp only [claim, hdirection] at h
  split at h
  · split at h
    · cases h
    · cases h
      rfl
  · cases h

/-! ### Lists of entries -/

theorem claimed_of_foldlM (h : entries.foldlM (claim block) table = .ok table') :
    (∀ d, Claimed table d → Claimed table' d) ∧ ∀ entry ∈ entries, Claimed table' entry.1 := by
  induction entries generalizing table with
  | nil =>
    cases h
    exact ⟨fun _ hd => hd, fun _ hentry => absurd hentry List.not_mem_nil⟩
  | cons first rest ih =>
    rw [List.foldlM_cons, bind_eq_ok_iff] at h
    obtain ⟨next, hfirst, hrest⟩ := h
    obtain ⟨hkeep, hall⟩ := ih hrest
    refine ⟨fun d hd => hkeep d (hd.claim hfirst), ?_⟩
    rw [List.forall_mem_cons]
    exact ⟨hkeep first.1 (claimed_of_claim hfirst), hall⟩

theorem foldlM_claim_eq_error {e : Error} (hdir : ∀ entry ∈ entries, entry.2.isSome)
    (h : entries.foldlM (claim block) table = .error e) : ∃ key, e = .duplicateProperty block key := by
  induction entries generalizing table with
  | nil => cases h
  | cons first rest ih =>
    rw [List.forall_mem_cons] at hdir
    rw [List.foldlM_cons] at h
    cases hfirst : claim block table first with
    | error e' =>
      rw [hfirst] at h
      cases h
      exact ⟨_, claim_eq_error hdir.1 hfirst⟩
    | ok next =>
      rw [hfirst] at h
      exact ih hdir.2 h

/-! ### Both shapes -/

variable {inputs outputs controls earlier all ds : List Descriptor}

theorem claimed_of_occursIn (hcoherent : Coherent all) (hearlier : earlier ⊆ all) (hd : d ∈ all)
    (hclaimed : ∀ e ∈ earlier, Claimed table e) (hoccurs : d.occursIn earlier) : Claimed table d := by
  obtain ⟨e, he, htag⟩ := Descriptor.occursIn_iff.mp hoccurs
  obtain ⟨p, hfind⟩ := hclaimed e he
  have hdecl := hcoherent e (hearlier he) d hd htag
  rw [htag, hdecl] at hfind
  exact ⟨p, hfind⟩

/-- A list is taken in as its flagged entries are. Those have its direction, or they are claimed already. -/
theorem foldlM_claim_flagged (direction : Direction) (hcoherent : Coherent all) (hearlier : earlier ⊆ all)
    (hds : ds ⊆ all) (hclaimed : ∀ e ∈ earlier, Claimed table e)
    (hdir : ∀ d ∈ ds, (d.flagged inputs outputs controls).decl.direction?.isSome ∧
      (¬ d.occursIn earlier → (d.flagged inputs outputs controls).decl.direction? = some direction)) :
    ((ds.map (·.flagged inputs outputs controls)).map fun d => (d, d.decl.direction?)).foldlM (claim block) table =
      (ds.map (·, some direction)).foldlM (claim block) table := by
  induction ds generalizing table with
  | nil => rfl
  | cons d rest ih =>
    rw [List.forall_mem_cons] at hdir
    rw [List.cons_subset] at hds
    have hfirst : claim block table (d.flagged inputs outputs controls,
        (d.flagged inputs outputs controls).decl.direction?) = claim block table (d, some direction) := by
      by_cases hoccurs : d.occursIn earlier
      · have hd : Claimed table d := claimed_of_occursIn hcoherent hearlier hds.1 hclaimed hoccurs
        have hflagged : Claimed table (d.flagged inputs outputs controls) := hd
        obtain ⟨other, hother⟩ := Option.isSome_iff_exists.mp hdir.1.1
        rw [hother, claim_of_claimed hd, claim_of_claimed hflagged]
      · rw [hdir.1.2 hoccurs]
        rfl
    simp only [List.map_cons, List.foldlM_cons, hfirst]
    cases hnext : claim block table (d, some direction) with
    | error e => rfl
    | ok next => exact ih hds.2 (fun e he => (hclaimed e he).claim hnext) hdir.2

theorem foldlM_mergeOrder_merged (b : BlockDecl) (hcoherent : Coherent (outputs ++ inputs ++ controls)) :
    (mergeOrder { b with shape := .unified (mergedEntries inputs outputs controls) }).foldlM (claim block) [] =
      (mergeOrder { b with shape := .split inputs outputs controls }).foldlM (claim block) [] := by
  have hsome : ∀ d ∈ outputs ++ inputs ++ controls,
      (d.flagged inputs outputs controls).decl.direction?.isSome := by
    intro d hd
    have hoccurs := Descriptor.occursIn_of_mem hd
    rw [Descriptor.direction?_flagged]
    simp only [Descriptor.occursIn_append, Bool.or_eq_true] at hoccurs
    split_ifs with hout hin hcontrol
    · rfl
    · rfl
    · rfl
    · exact absurd hoccurs (by simp [hout, hin, hcontrol])
  have hleft : outputs ⊆ outputs ++ inputs ++ controls := by simp
  have hmiddle : inputs ⊆ outputs ++ inputs ++ controls := by simp
  have hright : controls ⊆ outputs ++ inputs ++ controls := by simp
  simp only [mergeOrder, mergedEntries, List.map_append, List.foldlM_append]
  -- the outputs come first, and no earlier list can tell them another direction
  have hnone : ∀ e ∈ ([] : List Descriptor), Claimed [] e := by simp
  rw [foldlM_claim_flagged .output hcoherent (List.nil_subset _) hleft hnone
    fun d hd => ⟨hsome d (hleft hd), fun _ => by
      rw [Descriptor.direction?_flagged, if_pos (Descriptor.occursIn_of_mem hd)]⟩]
  rw [bind_assoc, bind_assoc]
  refine bind_congr_of_ok fun first hfirst => ?_
  have hclaimed : ∀ d ∈ outputs, Claimed first d := fun d hd =>
    (claimed_of_foldlM hfirst).2 (d, some .output) (List.mem_map_of_mem hd)
  rw [foldlM_claim_flagged .input hcoherent hleft hmiddle hclaimed
    fun d hd => ⟨hsome d (hmiddle hd), fun h => by
      rw [Descriptor.direction?_flagged, if_neg h, if_pos (Descriptor.occursIn_of_mem hd)]⟩]
  refine bind_congr_of_ok fun second hsecond => ?_
  obtain ⟨hkeep, hall⟩ := claimed_of_foldlM hsecond
  have hclaimed' : ∀ d ∈ outputs ++ inputs, Claimed second d := by
    intro d hd
    rcases List.mem_append.mp hd with hd | hd
    · exact hkeep d (hclaimed d hd)
    · exact hall (d, some .input) (List.mem_map_of_mem hd)
  refine foldlM_claim_flagged .control hcoherent (List.subset_append_left _ _) hright hclaimed'
    fun d hd => ⟨hsome d (hright hd), fun h => ?_⟩
  rw [Descriptor.occursIn_append, Bool.or_eq_true, not_or] at h
  rw [Descriptor.direction?_flagged, if_neg h.1, if_neg h.2, if_pos (Descriptor.occursIn_of_mem hd)]

theorem isSome_of_mem_mergeOrder (b : BlockDecl) {entry : Descriptor × Option Direction}
    (h : entry ∈ mergeOrder { b with shape := .split inputs outputs controls }) : entry.2.isSome := by
  simp only [mergeOrder, List.mem_append, List.mem_map] at h
  rcases h with (⟨d, -, rfl⟩ | ⟨d, -, rfl⟩) | ⟨d, -, rfl⟩ <;> rfl

/-- **Both shapes of a declaration say the same.** Three lists of descriptors, which may occur several times and in
several of them, give the same schema as one list with the entries of all three, in which each descriptor carries
the flags of the lists that it occurs in. Either both are refused for the same key, or both have the same properties
in the same order. -/
theorem split_eq_unified (b : BlockDecl) (inputs outputs controls : List Descriptor)
    (hcoherent : Coherent (outputs ++ inputs ++ controls)) :
    let split : BlockDecl := { b with shape := .split inputs outputs controls }
    let unified : BlockDecl := { b with shape := .unified (mergedEntries inputs outputs controls) }
    (∃ s, split.normalize = .ok s ∧ unified.normalize = .ok s) ∨
      ∃ key, split.normalize = .error (.duplicateProperty b.name key) ∧
        unified.normalize = .error (.duplicateProperty b.name key) := by
  intro split unified
  have hsame : unified.normalize = split.normalize := by
    simp only [normalize]
    rw [foldlM_mergeOrder_merged b hcoherent]
  rw [hsame]
  cases hsplit : split.normalize with
  | ok s => exact .inl ⟨s, rfl, rfl⟩
  | error e =>
    cases htable : split.mergeOrder.foldlM (claim split.name) [] with
    | ok table =>
      rw [normalize, htable] at hsplit
      cases hsplit
    | error e' =>
      rw [normalize, htable] at hsplit
      cases hsplit
      obtain ⟨key, rfl⟩ := foldlM_claim_eq_error (fun entry h => isSome_of_mem_mergeOrder b h) htable
      exact .inr ⟨key, rfl, rfl⟩

/-- A descriptor in all three lists, in one of them twice, that says of itself that it is a control. -/
def sharedValue : Descriptor :=
  ⟨.shared "value", { key := "value", type := ⟨"Any", none, [], {}, .empty, true⟩, control := true }⟩

def singleStep : Descriptor := ⟨.single 0, { key := "step", type := ⟨"Any", none, [], {}, .empty, true⟩ }⟩

/-- In both shapes the shared descriptor is an output, and comes first. -/
theorem split_eq_unified_shared :
    let inputs := [singleStep, sharedValue, sharedValue]
    Coherent ([sharedValue] ++ inputs ++ [sharedValue]) ∧
    ∃ s, normalize { name := "Inc", shape := .split inputs [sharedValue] [sharedValue] } = .ok s ∧
      normalize { name := "Inc", shape := .unified (mergedEntries inputs [sharedValue] [sharedValue]) } = .ok s ∧
      s.props.map (fun p => (p.key, p.direction)) = [("value", .output), ("step", .input)] := by
  intro inputs
  have hcoherent : Coherent ([sharedValue] ++ inputs ++ [sharedValue]) := by
    have hmem : ∀ d ∈ [sharedValue] ++ inputs ++ [sharedValue], d = sharedValue ∨ d = singleStep := by
      simp [inputs]
    intro d hd e he htag
    rcases hmem d hd with rfl | rfl <;> rcases hmem e he with rfl | rfl
    · rfl
    · cases htag
    · cases htag
    · rfl
  refine ⟨hcoherent, ?_⟩
  have htable : (normalize { name := "Inc", shape := .split inputs [sharedValue] [sharedValue] }).map
      (·.props.map fun p => (p.key, p.direction)) = .ok [("value", .output), ("step", .input)] := rfl
  rcases split_eq_unified { name := "Inc", shape := .unified [] } inputs [sharedValue] [sharedValue] hcoherent with
    ⟨s, hsplit, hunified⟩ | ⟨key, hsplit, -⟩
  · rw [hsplit] at htable
    exact ⟨s, hsplit, hunified, Except.ok.inj htable⟩
  · rw [hsplit] at htable
    cases htable

end BlockDecl

end BlockGraph
