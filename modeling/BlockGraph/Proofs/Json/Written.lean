import BlockGraph.Proofs.Json.Scan

/-!
# What is written is parsed

`Json.toDoc` is the document that a reader meets in the text of a value.

* `parseDoc_writePretty`: the indented text of a value is parsed into it, whatever follows, when the numbers in the
  value are legible;
* `ReadsBack.legible`: a number that is read back from its own text is.
-/

namespace BlockGraph

/-! ### The characters of a number -/

namespace Decimal

/-- The characters of which numbers are written. -/
def IsNumeric (c : Char) : Prop := c.isDigit = true ∨ c ∈ ['.', 'e', '+', '-']

theorem isNumeric_digitChars {n : Nat} {c : Char} (h : c ∈ digitChars n) : IsNumeric c :=
  .inl (Nat.isDigit_of_mem_toDigits (by decide) (by decide) h)

theorem isNumeric_writePositional {l : Layout} {digits : List Char} (hdigits : ∀ c ∈ digits, IsNumeric c) {place : Int}
    {c : Char} (h : c ∈ l.writePositional digits place) : IsNumeric c := by
  have hzero : IsNumeric '0' := .inl rfl
  have hpoint : IsNumeric '.' := .inr (by decide)
  unfold Layout.writePositional at h
  grind [List.mem_of_mem_take, List.mem_of_mem_drop]

theorem isNumeric_writeScientific {l : Layout} {digits : List Char} (hdigits : ∀ c ∈ digits, IsNumeric c) {place : Int}
    {c : Char} (h : c ∈ l.writeScientific digits place) : IsNumeric c := by
  have hmarks : ∀ c ∈ ['.', 'e', '+', '-'], IsNumeric c := fun c hc => .inr hc
  have hexponent : ∀ n, ∀ c ∈ digitChars n, IsNumeric c := fun n c hc => isNumeric_digitChars hc
  unfold Layout.writeScientific at h
  grind [List.mem_of_mem_take, List.mem_of_mem_drop]

theorem isNumeric_writeMagnitude {l : Layout} {s : Scientific} {c : Char} (h : c ∈ l.writeMagnitude s) :
    IsNumeric c := by
  have hdigits : ∀ c ∈ digitChars s.digits, IsNumeric c := fun c hc => isNumeric_digitChars hc
  unfold Layout.writeMagnitude at h
  dsimp only at h
  split at h
  · exact isNumeric_writePositional hdigits h
  · split at h
    · exact isNumeric_writePositional hdigits h
    · exact isNumeric_writeScientific hdigits h

end Decimal

namespace Json

variable {cs rest r : List Char}

theorem not_isBlank_writeNumber {x : Float} {c : Char} (h : c ∈ writeNumber (.float x)) : isBlank c = false := by
  have hnumeric : ∀ c, Decimal.IsNumeric c → isBlank c = false := by
    rintro c (hdigit | hmark)
    · rw [Bool.eq_false_iff]
      intro hblank
      simp only [isBlank, Bool.or_eq_true, beq_iff_eq] at hblank
      rcases hblank with ((rfl | rfl) | rfl) | rfl <;> cases hdigit
    · simp only [List.mem_cons, List.not_mem_nil, or_false] at hmark
      rcases hmark with rfl | rfl | rfl | rfl <;> rfl
  have hnull : ∀ c ∈ ['n', 'u', 'l', 'l'], isBlank c = false := by simp [isBlank]
  rw [writeNumber, Decimal.Layout.write] at h
  split at h
  · exact hnull c h
  · exact hnull c h
  · exact hnull c h
  · rw [String.toList_ofList] at h
    split at h
    · rcases List.mem_cons.mp h with rfl | h
      · rfl
      · exact hnumeric c (Decimal.isNumeric_writeMagnitude h)
    · exact hnumeric c (Decimal.isNumeric_writeMagnitude h)

/-! ### Numbers in a document -/

theorem parseNumber_eq_ok_iff {negative : Bool} {n : Decimal.Number} {cut : Option Fault} :
    parseNumber negative cs = (.number (.ok n) cut, some r) ↔
      cut = none ∧ ∃ numeral, scanNumeral negative cs = .ok (numeral, r) ∧ numeral.read = some n := by
  rw [parseNumber]
  cases hscan : scanNumeral negative cs with
  | error f => simp
  | ok found =>
    obtain ⟨numeral, r'⟩ := found
    dsimp only
    cases hread : numeral.read with
    | none => simp [hread]
    | some n' =>
      rw [Option.elim_some]
      constructor
      · intro h
        cases h
        exact ⟨rfl, numeral, rfl, hread⟩
      · rintro ⟨rfl, numeral', heq, hn⟩
        cases heq
        rw [hread] at hn
        cases hn
        rfl

theorem parseNumber_append (h : EndsNumeral rest) {negative : Bool} {n : Decimal.Number}
    (hcs : parseNumber negative cs = (.number (.ok n) none, some r)) :
    parseNumber negative (cs ++ rest) = (.number (.ok n) none, some (r ++ rest)) := by
  obtain ⟨-, numeral, hscan, hread⟩ := parseNumber_eq_ok_iff.mp hcs
  exact parseNumber_eq_ok_iff.mpr ⟨rfl, numeral, scanNumeral_append h hscan, hread⟩

theorem parseWord_ne_number {d : Doc} {value : Except Fault Decimal.Number} {cut : Option Fault}
    {after : Option (List Char)} (hd : d ≠ .number value cut) (word cs : List Char) :
    parseWord d word cs ≠ (.number value cut, after) := by
  induction word generalizing cs with
  | nil =>
    intro h
    exact hd (congrArg Prod.fst h)
  | cons e es ih =>
    cases cs with
    | nil => nofun
    | cons c cs =>
      rw [parseWord]
      split
      · exact ih cs
      · nofun

theorem parseText_ne_number {value : Except Fault Decimal.Number} {cut : Option Fault} {after : Option (List Char)} :
    parseText Doc.text cs ≠ (.number value cut, after) := by
  unfold parseText
  dsimp only
  split <;> nofun

theorem parseDoc_eq_number {fuel : Nat} {value : Except Fault Decimal.Number} {cut : Option Fault}
    {after : Option (List Char)} (h : parseDoc (fuel + 1) cs = (.number value cut, after)) :
    ∃ c tail, skipBlanks cs = c :: tail ∧
      (c = '-' ∧ parseNumber true tail = (.number value cut, after) ∨
        c ≠ '-' ∧ c.isDigit = true ∧ parseNumber false (c :: tail) = (.number value cut, after)) := by
  rw [parseDoc] at h
  cases hskip : skipBlanks cs with
  | nil =>
    rw [hskip] at h
    cases h
  | cons c tail =>
    rw [hskip] at h
    dsimp only at h
    refine ⟨c, tail, rfl, ?_⟩
    -- the branches are tried in the order of the parser
    by_cases hn : c = 'n'
    · rw [if_pos hn] at h
      exact absurd h (parseWord_ne_number (by simp) _ _)
    rw [if_neg hn] at h
    by_cases ht : c = 't'
    · rw [if_pos ht] at h
      exact absurd h (parseWord_ne_number (by simp) _ _)
    rw [if_neg ht] at h
    by_cases hf : c = 'f'
    · rw [if_pos hf] at h
      exact absurd h (parseWord_ne_number (by simp) _ _)
    rw [if_neg hf] at h
    by_cases hminus : c = '-'
    · rw [if_pos hminus] at h
      exact .inl ⟨hminus, h⟩
    rw [if_neg hminus] at h
    by_cases hdigit : c.isDigit = true
    · rw [if_pos hdigit] at h
      exact .inr ⟨hminus, hdigit, h⟩
    rw [if_neg hdigit] at h
    by_cases hquote : c = '\x22'
    · rw [if_pos hquote] at h
      exact absurd h parseText_ne_number
    rw [if_neg hquote] at h
    by_cases harray : c = '['
    · rw [if_pos harray] at h
      split at h <;> cases h
    rw [if_neg harray] at h
    by_cases hobject : c = '\x7b'
    · rw [if_pos hobject] at h
      split at h <;> cases h
    rw [if_neg hobject] at h
    cases h

/-- The number is written as a numeral that can be read. -/
def LegibleNumber (n : Decimal.Number) : Prop :=
  ∃ value, Doc.parse (writeNumber n) = (.number (.ok value) none, some [])

theorem skipBlanks_append {c : Char} {tail : List Char} (h : skipBlanks cs = c :: tail) :
    skipBlanks (cs ++ rest) = c :: (tail ++ rest) := by
  rw [skipBlanks, List.dropWhile_append]
  rw [skipBlanks] at h
  rw [h]
  rfl

theorem parseDoc_congr {cs' : List Char} (h : skipBlanks cs = skipBlanks cs') (fuel : Nat) :
    parseDoc fuel cs = parseDoc fuel cs' := by
  cases fuel with
  | zero => rfl
  | succ fuel => rw [parseDoc, parseDoc, h]

theorem parseDoc_of_minus {tail : List Char} {fuel : Nat} (h : skipBlanks cs = '-' :: tail) :
    parseDoc (fuel + 1) cs = parseNumber true tail := by
  rw [parseDoc, h]
  rfl

theorem parseDoc_of_digit {c : Char} {tail : List Char} {fuel : Nat} (h : skipBlanks cs = c :: tail)
    (hminus : c ≠ '-') (hdigit : c.isDigit = true) : parseDoc (fuel + 1) cs = parseNumber false (c :: tail) := by
  have hne : ∀ d : Char, d.isDigit = false → c ≠ d := by
    rintro d hd rfl
    rw [hdigit] at hd
    cases hd
  rw [parseDoc, h]
  dsimp only
  rw [if_neg (hne 'n' rfl), if_neg (hne 't' rfl), if_neg (hne 'f' rfl), if_neg hminus, if_pos hdigit]

theorem parseDoc_writeNumber {n : Decimal.Number} (hn : LegibleNumber n) (hrest : EndsNumeral rest) (fuel : Nat) :
    parseDoc (fuel + 1) (writeNumber n ++ rest) = ((Doc.parse (writeNumber n)).1, some rest) := by
  obtain ⟨value, hparse⟩ := hn
  rw [hparse]
  obtain ⟨c, tail, hskip, ⟨rfl, hnumber⟩ | ⟨hminus, hdigit, hnumber⟩⟩ := parseDoc_eq_number hparse
  · rw [parseDoc_of_minus (skipBlanks_append hskip)]
    exact parseNumber_append hrest hnumber
  · rw [parseDoc_of_digit (skipBlanks_append hskip) hminus hdigit, ← List.cons_append]
    exact parseNumber_append hrest hnumber

theorem suffix_of_parseNumber {negative : Bool} {n : Decimal.Number} {cut : Option Fault}
    (h : parseNumber negative cs = (.number (.ok n) cut, some r)) : cut = none ∧ r <:+ cs := by
  obtain ⟨hcut, numeral, hscan, -⟩ := parseNumber_eq_ok_iff.mp h
  exact ⟨hcut, scanNumeral_suffix hscan⟩

theorem suffix_of_parse {n : Decimal.Number} {cut : Option Fault}
    (h : Doc.parse cs = (.number (.ok n) cut, some r)) : cut = none ∧ r <:+ cs := by
  obtain ⟨c, tail, hskip, hnumber⟩ := parseDoc_eq_number h
  have htail : c :: tail <:+ cs := hskip ▸ List.dropWhile_suffix _
  rcases hnumber with ⟨-, hnumber⟩ | ⟨-, -, hnumber⟩
  · obtain ⟨hcut, hsuffix⟩ := suffix_of_parseNumber hnumber
    exact ⟨hcut, (hsuffix.trans (List.suffix_cons _ _)).trans htail⟩
  · obtain ⟨hcut, hsuffix⟩ := suffix_of_parseNumber hnumber
    exact ⟨hcut, hsuffix.trans htail⟩

/-- The number is read back from its text. -/
def ReadsBack (x : Float) : Prop := readWhole (fun _ d => readFloat d) (ofFloat x).compact = .ok x

theorem readFloat_eq_ok {d : Doc} {x : Float} (h : readFloat d = .ok x) :
    ∃ n cut, d = .number (.ok n) cut ∧ n.toFloat = x := by
  cases d with
  | number value cut =>
    cases value with
    | error f => cases h
    | ok n =>
      cases h
      exact ⟨n, cut, rfl, rfl⟩
  | _ => cases h

theorem ReadsBack.legible {x : Float} (h : ReadsBack x) :
    ∃ n, Doc.parse (writeNumber (.float x)) = (.number (.ok n) none, some []) ∧ n.toFloat = x := by
  rw [ReadsBack, readWhole, compact, String.toList_ofList, ofFloat, writeCompact] at h
  cases hparse : Doc.parse (writeNumber (.float x)) with
  | mk d after =>
    rw [hparse] at h
    obtain ⟨value, hread, h⟩ := bind_eq_ok_iff.mp h
    obtain ⟨n, cut, rfl, rfl⟩ := readFloat_eq_ok hread
    cases after with
    | none => cases h
    | some r =>
      dsimp only at h
      split at h
      · next hempty =>
        cases h
        obtain ⟨rfl, hsuffix⟩ := suffix_of_parse hparse
        -- nothing but blanks is left, and there are none in the text
        have hr : r = [] := by
          cases r with
          | nil => rfl
          | cons c r =>
            have hc : isBlank c = false := not_isBlank_writeNumber (hsuffix.subset List.mem_cons_self)
            rw [skipBlanks, List.dropWhile_cons_of_neg (by simp [hc])] at hempty
            cases hempty
        rw [hr]
        exact ⟨n, rfl, rfl⟩
      · cases h

/-! ### Documents -/

mutual

/-- The document that a reader meets in the text of a value. -/
def toDoc : Json → Doc
  | .null => .null
  | .bool b => .bool b
  | .number n => (Doc.parse (writeNumber n)).1
  | .text s => .text (.ok s) none
  | .array items => .array (toDocs items) none
  | .object members => .object (toDocMembers members) none

def toDocs : List Json → List Doc
  | [] => []
  | v :: rest => v.toDoc :: toDocs rest

def toDocMembers : List (String × Json) → List (Key × Doc)
  | [] => []
  | (key, v) :: rest => (⟨.ok key, none⟩, v.toDoc) :: toDocMembers rest

end

mutual

def Legible : Json → Prop
  | .number n => LegibleNumber n
  | .array items => LegibleItems items
  | .object members => LegibleMembers members
  | _ => True

def LegibleItems : List Json → Prop
  | [] => True
  | v :: rest => v.Legible ∧ LegibleItems rest

def LegibleMembers : List (String × Json) → Prop
  | [] => True
  | (_, v) :: rest => v.Legible ∧ LegibleMembers rest

end

theorem legibleItems_iff {items : List Json} : LegibleItems items ↔ ∀ v ∈ items, v.Legible := by
  induction items with
  | nil => simp [LegibleItems]
  | cons v rest ih => simp [LegibleItems, ih]

theorem legibleMembers_iff {members : List (String × Json)} : LegibleMembers members ↔ ∀ m ∈ members, m.2.Legible := by
  induction members with
  | nil => simp [LegibleMembers]
  | cons m rest ih => simp [LegibleMembers, ih]

theorem skipBlanks_newLine (level : Nat) (cs : List Char) : skipBlanks (newLine level ++ cs) = skipBlanks cs := by
  simp [skipBlanks, newLine, isBlank, List.dropWhile_append]

theorem endsNumeral_newLine (level : Nat) (cs : List Char) : EndsNumeral (newLine level ++ cs) :=
  ⟨rfl, by decide, by decide, by decide⟩

theorem endsNumeral_comma (cs : List Char) : EndsNumeral (',' :: cs) := ⟨rfl, by decide, by decide, by decide⟩

theorem head_of_parseDoc {fuel : Nat} {d : Doc} {after : List Char} (h : parseDoc fuel cs = (d, some after)) :
    ∃ c tail, skipBlanks cs = c :: tail ∧ c ≠ ']' := by
  cases fuel with
  | zero => cases h
  | succ fuel =>
    rw [parseDoc] at h
    cases hskip : skipBlanks cs with
    | nil =>
      rw [hskip] at h
      cases h
    | cons c tail =>
      refine ⟨c, tail, rfl, ?_⟩
      rintro rfl
      rw [hskip] at h
      cases h

theorem head_of_parseItems {fuel : Nat} {found : List Doc × Option Fault} {after : List Char}
    (h : parseItems fuel cs = (found, some after)) : ∃ c tail, skipBlanks cs = c :: tail ∧ c ≠ ']' := by
  cases fuel with
  | zero => cases h
  | succ fuel =>
    rw [parseItems] at h
    cases hdoc : parseDoc fuel cs with
    | mk d after =>
      cases after with
      | none =>
        rw [hdoc] at h
        cases h
      | some after => exact head_of_parseDoc hdoc

theorem head_of_parseMembers {fuel : Nat} {found : List (Key × Doc) × Option Fault} {after : List Char}
    (h : parseMembers fuel cs = (found, some after)) : ∃ tail, skipBlanks cs = '\x22' :: tail := by
  cases fuel with
  | zero => cases h
  | succ fuel =>
    rw [parseMembers, parseKey] at h
    cases hskip : skipBlanks cs with
    | nil =>
      rw [hskip] at h
      cases h
    | cons c tail =>
      by_cases hquote : c = '\x22'
      · exact ⟨tail, by rw [hquote]⟩
      · rw [hskip] at h
        dsimp only at h
        rw [if_neg hquote] at h
        cases h

theorem parseDoc_array {fuel : Nat} {c : Char} {tail tail' : List Char} (hskip : skipBlanks tail = c :: tail')
    (hc : c ≠ ']') :
    parseDoc (fuel + 1) ('[' :: tail) =
      (.array (parseItems fuel tail).1.1 (parseItems fuel tail).1.2, (parseItems fuel tail).2) := by
  have hopen : skipBlanks ('[' :: tail) = '[' :: tail := rfl
  rw [parseDoc, hopen]
  dsimp only
  rw [if_neg (by decide), if_neg (by decide), if_neg (by decide), if_neg (by decide), if_neg (by decide),
    if_neg (by decide), if_pos rfl, hskip]
  split
  · next h => cases h
  · next h => exact absurd (List.cons.inj h).1 hc
  · rfl

theorem parseDoc_object {fuel : Nat} {tail tail' : List Char} (hskip : skipBlanks tail = '\x22' :: tail') :
    parseDoc (fuel + 1) ('\x7b' :: tail) =
      (.object (parseMembers fuel tail).1.1 (parseMembers fuel tail).1.2, (parseMembers fuel tail).2) := by
  have hopen : skipBlanks ('\x7b' :: tail) = '\x7b' :: tail := rfl
  rw [parseDoc, hopen]
  dsimp only
  rw [if_neg (by decide), if_neg (by decide), if_neg (by decide), if_neg (by decide), if_neg (by decide),
    if_neg (by decide), if_neg (by decide), if_pos rfl, hskip]
  rfl

theorem parseItems_comma {fuel : Nat} {d : Doc} {after after' : List Char} (h : parseDoc fuel cs = (d, some after))
    (hafter : skipBlanks after = ',' :: after') :
    parseItems (fuel + 1) cs =
      ((d :: (parseItems fuel after').1.1, (parseItems fuel after').1.2), (parseItems fuel after').2) := by
  rw [parseItems, h]
  dsimp only
  rw [hafter]
  rfl

theorem parseItems_close {fuel : Nat} {d : Doc} {after after' : List Char} (h : parseDoc fuel cs = (d, some after))
    (hafter : skipBlanks after = ']' :: after') : parseItems (fuel + 1) cs = (([d], none), some after') := by
  rw [parseItems, h]
  dsimp only
  rw [hafter]
  rfl

section Members

variable {fuel : Nat} {key : Key} {d : Doc} {colon value after after' : List Char}

theorem parseMembers_comma (hkey : parseKey cs = (key, some colon)) (hcolon : skipBlanks colon = ':' :: value)
    (h : parseDoc fuel value = (d, some after)) (hafter : skipBlanks after = ',' :: after') :
    parseMembers (fuel + 1) cs =
      (((key, d) :: (parseMembers fuel after').1.1, (parseMembers fuel after').1.2), (parseMembers fuel after').2) := by
  rw [parseMembers, hkey]
  dsimp only
  rw [hcolon]
  simp only [h]
  rw [hafter]
  rfl

theorem parseMembers_close (hkey : parseKey cs = (key, some colon)) (hcolon : skipBlanks colon = ':' :: value)
    (h : parseDoc fuel value = (d, some after)) (hafter : skipBlanks after = '\x7d' :: after') :
    parseMembers (fuel + 1) cs = (([(key, d)], none), some after') := by
  rw [parseMembers, hkey]
  dsimp only
  rw [hcolon]
  simp only [h]
  rw [hafter]
  rfl

end Members

theorem parseDoc_space (fuel : Nat) (cs : List Char) : parseDoc fuel (' ' :: cs) = parseDoc fuel cs :=
  parseDoc_congr (List.dropWhile_cons_of_pos rfl) fuel

theorem parseKey_writeText (level : Nat) (key : String) (rest : List Char) :
    parseKey (newLine level ++ (writeText key ++ rest)) = (⟨.ok key, none⟩, some rest) := by
  rw [parseKey, skipBlanks_newLine, writeText]
  have hquote : skipBlanks ('\x22' :: (key.toList.flatMap escapeChar ++ ['\x22']) ++ rest) =
      '\x22' :: (key.toList.flatMap escapeChar ++ '\x22' :: rest) := by
    rw [List.cons_append, List.append_assoc]
    rfl
  rw [hquote]
  dsimp only
  rw [if_pos rfl, parseText_writeText]

theorem writePretty_array (level : Nat) (v : Json) (vs : List Json) : writePretty level (.array (v :: vs)) =
    '[' :: (writePrettyItems (level + 1) (v :: vs) ++ newLine level ++ [']']) := rfl

theorem writePretty_object (level : Nat) (key : String) (v : Json) (ms : List (String × Json)) :
    writePretty level (.object ((key, v) :: ms)) =
      '\x7b' :: (writePrettyMembers (level + 1) ((key, v) :: ms) ++ newLine level ++ ['\x7d']) := rfl

theorem writePrettyItems_cons (level : Nat) (v w : Json) (vs : List Json) : writePrettyItems level (v :: w :: vs) =
    newLine level ++ writePretty level v ++ ',' :: writePrettyItems level (w :: vs) := rfl

theorem writePrettyMembers_cons (level : Nat) (key : String) (v : Json) (m : String × Json)
    (ms : List (String × Json)) :
    writePrettyMembers level ((key, v) :: m :: ms) =
      newLine level ++ writeText key ++
        ':' :: ' ' :: (writePretty level v ++ ',' :: writePrettyMembers level (m :: ms)) := rfl

mutual

/-- A value that is written with indentation is parsed, whatever follows that is no part of a numeral. -/
theorem parseDoc_writePretty : ∀ (v : Json) (level fuel : Nat) (rest : List Char), v.Legible → EndsNumeral rest →
    (writePretty level v).length < fuel → parseDoc fuel (writePretty level v ++ rest) = (v.toDoc, some rest)
  | _, _, 0, _, _, _, hfuel => absurd hfuel (Nat.not_lt_zero _)
  | .null, _, _ + 1, _, _, _, _ => rfl
  | .bool b, _, _ + 1, _, _, _, _ => by cases b <;> rfl
  | .number n, level, fuel + 1, rest, hv, hrest, _ => by
    rw [writePretty, toDoc]
    exact parseDoc_writeNumber hv hrest fuel
  | .text s, level, fuel + 1, rest, _, _, _ => by
    rw [writePretty, toDoc, writeText, List.cons_append, List.append_assoc]
    exact parseText_writeText Doc.text s rest
  | .array [], _, _ + 1, _, _, _, _ => rfl
  | .array (v :: vs), level, fuel + 1, rest, hv, _, hfuel => by
    rw [writePretty_array] at hfuel ⊢
    simp only [List.length_cons, List.length_append, List.length_nil] at hfuel
    have hitems := parseItems_writePretty v vs (level + 1) level fuel rest hv (by omega)
    obtain ⟨c, tail, hskip, hc⟩ := head_of_parseItems hitems
    simp only [List.cons_append, List.append_assoc, List.nil_append]
    rw [parseDoc_array hskip hc, hitems, toDoc]
  | .object [], _, _ + 1, _, _, _, _ => rfl
  | .object ((key, v) :: ms), level, fuel + 1, rest, hv, _, hfuel => by
    rw [writePretty_object] at hfuel ⊢
    simp only [List.length_cons, List.length_append, List.length_nil] at hfuel
    have hmembers := parseMembers_writePretty key v ms (level + 1) level fuel rest hv (by omega)
    obtain ⟨tail, hskip⟩ := head_of_parseMembers hmembers
    simp only [List.cons_append, List.append_assoc, List.nil_append]
    rw [parseDoc_object hskip, hmembers, toDoc]
termination_by structural _ _ fuel => fuel

theorem parseItems_writePretty : ∀ (v : Json) (vs : List Json) (level outer fuel : Nat) (rest : List Char),
    LegibleItems (v :: vs) → (writePrettyItems level (v :: vs)).length < fuel →
    parseItems fuel (writePrettyItems level (v :: vs) ++ (newLine outer ++ ']' :: rest)) =
      ((toDocs (v :: vs), none), some rest)
  | _, _, _, _, 0, _, _, hfuel => absurd hfuel (Nat.not_lt_zero _)
  | v, [], level, outer, fuel + 1, rest, hv, hfuel => by
    rw [writePrettyItems] at hfuel ⊢
    simp only [newLine, List.length_cons, List.length_append] at hfuel
    have hv := parseDoc_writePretty v level fuel _ hv.1 (endsNumeral_newLine outer (']' :: rest)) (by omega)
    rw [← parseDoc_congr (skipBlanks_newLine level _)] at hv
    rw [List.append_assoc, parseItems_close hv (by rw [skipBlanks_newLine]; rfl)]
    rfl
  | v, w :: vs, level, outer, fuel + 1, rest, hv, hfuel => by
    rw [writePrettyItems_cons] at hfuel ⊢
    simp only [newLine, List.length_cons, List.length_append] at hfuel
    have hrest := parseItems_writePretty w vs level outer fuel rest hv.2 (by omega)
    have hv := parseDoc_writePretty v level fuel _ hv.1
      (endsNumeral_comma (writePrettyItems level (w :: vs) ++ (newLine outer ++ ']' :: rest))) (by omega)
    rw [← parseDoc_congr (skipBlanks_newLine level _)] at hv
    simp only [List.cons_append, List.append_assoc]
    rw [parseItems_comma hv rfl, hrest]
    rfl
termination_by structural _ _ _ _ fuel => fuel

theorem parseMembers_writePretty : ∀ (key : String) (v : Json) (ms : List (String × Json)) (level outer fuel : Nat)
    (rest : List Char), LegibleMembers ((key, v) :: ms) → (writePrettyMembers level ((key, v) :: ms)).length < fuel →
    parseMembers fuel (writePrettyMembers level ((key, v) :: ms) ++ (newLine outer ++ '\x7d' :: rest)) =
      ((toDocMembers ((key, v) :: ms), none), some rest)
  | _, _, _, _, _, 0, _, _, hfuel => absurd hfuel (Nat.not_lt_zero _)
  | key, v, [], level, outer, fuel + 1, rest, hv, hfuel => by
    rw [writePrettyMembers] at hfuel ⊢
    simp only [newLine, List.length_cons, List.length_append] at hfuel
    have hv := parseDoc_writePretty v level fuel _ hv.1 (endsNumeral_newLine outer ('\x7d' :: rest)) (by omega)
    rw [← parseDoc_space] at hv
    simp only [List.cons_append, List.append_assoc]
    rw [parseMembers_close (parseKey_writeText level key _) rfl hv (by rw [skipBlanks_newLine]; rfl)]
    rfl
  | key, v, (key', w) :: ms, level, outer, fuel + 1, rest, hv, hfuel => by
    rw [writePrettyMembers_cons] at hfuel ⊢
    simp only [newLine, List.length_cons, List.length_append] at hfuel
    have hrest := parseMembers_writePretty key' w ms level outer fuel rest hv.2 (by omega)
    have hv := parseDoc_writePretty v level fuel _ hv.1
      (endsNumeral_comma (writePrettyMembers level ((key', w) :: ms) ++ (newLine outer ++ '\x7d' :: rest))) (by omega)
    rw [← parseDoc_space] at hv
    simp only [List.cons_append, List.append_assoc]
    rw [parseMembers_comma (parseKey_writeText level key _) rfl hv rfl, hrest]
    rfl
termination_by structural _ _ _ _ _ fuel => fuel

end

theorem parse_pretty {v : Json} (hv : v.Legible) : Doc.parse v.pretty.toList = (v.toDoc, some []) := by
  rw [pretty, String.toList_ofList, Doc.parse]
  have hparse := parseDoc_writePretty v 0 (2 * (writePretty 0 v).length + 2) [] hv trivial (by omega)
  rwa [List.append_nil] at hparse

end Json

end BlockGraph
