import BlockGraph.Text.Escape

/-!
# Quoted literals

The inside of a literal is a sequence of pieces, one for each character: a printable character other than a quote or a
backslash, or an escape (`Piece`, `Spells`). `readLiteral?` reads a literal up to the first quote that is not part of an
escape.

* `Spells.scan`: what is spelled is read, up to the closing quote, whatever follows it.
* `piece_escapeChar`: a character is written as a piece for it.

So quoted texts and characters are literals that read back as what was quoted (`quoted_reads_back`).
-/

namespace BlockGraph.Text

/-! ### Pieces -/

def IsPrintable (c : Char) : Prop := 0x20 ≤ c.toNat ∧ c.toNat ≤ 0x7e

/-- The character that a backslash and a character stand for. -/
def shortEscape? : Char → Option Char
  | 't' => some '\t'
  | 'r' => some '\r'
  | 'n' => some '\n'
  | '\x27' => some '\x27'
  | '\x22' => some '\x22'
  | '\\' => some '\\'
  | _ => none

def hexDigit? (c : Char) : Option Nat :=
  if '0' ≤ c ∧ c ≤ '9' then some (c.toNat - 48)
  else if 'a' ≤ c ∧ c ≤ 'f' then some (c.toNat - 87)
  else if 'A' ≤ c ∧ c ≤ 'F' then some (c.toNat - 55)
  else none

/-- The integer that digits go on to, from the one that was read before them. -/
def hexValue? (start : Nat) : List Char → Option Nat
  | [] => some start
  | d :: ds => (hexDigit? d).bind fun value => hexValue? (16 * start + value) ds

/-- The text stands for one character of a literal. -/
inductive Piece : List Char → Char → Prop
  | plain {c : Char} (hprintable : IsPrintable c) (hsingle : c ≠ '\x27') (hdouble : c ≠ '\x22')
    (hbackslash : c ≠ '\\') : Piece [c] c
  | short {name c : Char} (h : shortEscape? name = some c) : Piece ['\\', name] c
  | code {ds : List Char} {c : Char} (hne : ds ≠ []) (hvalue : hexValue? 0 ds = some c.toNat) :
    Piece ('\\' :: 'u' :: '\x7b' :: (ds ++ ['\x7d'])) c

/-- The text is made of pieces for the characters. -/
inductive Spells : List Char → List Char → Prop
  | nil : Spells [] []
  | cons {piece body : List Char} {c : Char} {cs : List Char} (hpiece : Piece piece c) (hbody : Spells body cs) :
    Spells (piece ++ body) (c :: cs)

theorem isPrintable_of_shortEscape? {name c : Char} (h : shortEscape? name = some c) : IsPrintable name := by
  unfold shortEscape? at h
  split at h
  case h_7 => cases h
  all_goals exact ⟨by decide, by decide⟩

theorem isPrintable_of_hexDigit? {c : Char} {n : Nat} (h : hexDigit? c = some n) : IsPrintable c := by
  simp only [hexDigit?, Char.le_def, UInt32.le_iff_toNat_le] at h
  unfold IsPrintable Char.toNat
  split at h
  · next hdigit => exact ⟨Nat.le_trans (by decide) hdigit.1, Nat.le_trans hdigit.2 (by decide)⟩
  · split at h
    · next hlower => exact ⟨Nat.le_trans (by decide) hlower.1, Nat.le_trans hlower.2 (by decide)⟩
    · split at h
      · next hupper => exact ⟨Nat.le_trans (by decide) hupper.1, Nat.le_trans hupper.2 (by decide)⟩
      · cases h

theorem isPrintable_of_hexValue? {ds : List Char} {start n : Nat} (h : hexValue? start ds = some n) :
    ∀ d ∈ ds, IsPrintable d := by
  induction ds generalizing start with
  | nil => exact fun d hd => absurd hd List.not_mem_nil
  | cons d ds ih =>
    obtain ⟨value, hvalue, hrest⟩ := Option.bind_eq_some_iff.mp h
    exact List.forall_mem_cons.mpr ⟨isPrintable_of_hexDigit? hvalue, ih hrest⟩

theorem Piece.isPrintable {piece : List Char} {c : Char} (h : Piece piece c) : ∀ d ∈ piece, IsPrintable d := by
  have hbackslash : IsPrintable '\\' := ⟨by decide, by decide⟩
  cases h with
  | plain hprintable => exact List.forall_mem_singleton.mpr hprintable
  | short h =>
    exact List.forall_mem_cons.mpr ⟨hbackslash, List.forall_mem_singleton.mpr (isPrintable_of_shortEscape? h)⟩
  | code _ hvalue =>
    simp only [List.forall_mem_cons, List.forall_mem_append, List.not_mem_nil, false_implies, implies_true, and_true]
    exact ⟨hbackslash, ⟨by decide, by decide⟩, ⟨by decide, by decide⟩, isPrintable_of_hexValue? hvalue,
      ⟨by decide, by decide⟩⟩

theorem Spells.isPrintable {body cs : List Char} (h : Spells body cs) : ∀ d ∈ body, IsPrintable d := by
  induction h with
  | nil => exact fun d hd => absurd hd List.not_mem_nil
  | cons hpiece _ ih => exact List.forall_mem_append.mpr ⟨hpiece.isPrintable, ih⟩

/-! ### Reading -/

def character? (n : Nat) : Option Char := if (Char.ofNat n).toNat = n then some (Char.ofNat n) else none

theorem character?_toNat (c : Char) : character? c.toNat = some c := by simp [character?]

/-- Where a reader is: between two pieces, or after a backslash, after the letter of a code point, or among its digits,
with the value of those that were read. -/
inductive Place where
  | between
  | escape
  | code
  | digits (value : Option Nat)

/-- Reads up to the closing quote, and gives the characters that were read and what follows the quote. -/
def scan (quote : Char) : Place → List Char → Option (List Char × List Char)
  | _, [] => none
  | .between, c :: rest =>
    if c = quote then some ([], rest)
    else if c = '\\' then scan quote .escape rest
    else (scan quote .between rest).map fun r => (c :: r.1, r.2)
  | .escape, c :: rest =>
    if c = 'u' then scan quote .code rest
    else (shortEscape? c).bind fun d => (scan quote .between rest).map fun r => (d :: r.1, r.2)
  | .code, c :: rest => if c = '\x7b' then scan quote (.digits none) rest else none
  | .digits value, c :: rest =>
    if c = '\x7d' then
      (value.bind character?).bind fun d => (scan quote .between rest).map fun r => (d :: r.1, r.2)
    else (hexDigit? c).bind fun d => scan quote (.digits (some (16 * value.getD 0 + d))) rest

/-- Reads a literal between quotes, and gives its characters and what follows it. -/
def readLiteral? (quote : Char) : List Char → Option (List Char × List Char)
  | [] => none
  | c :: rest => if c = quote then scan quote .between rest else none

variable {quote : Char} {rest : List Char}

theorem scan_digits {ds : List Char} {c : Char} {value : Option Nat} (hstart : value.isSome = true ∨ ds ≠ [])
    (h : hexValue? (value.getD 0) ds = some c.toNat) :
    scan quote (.digits value) (ds ++ '\x7d' :: rest) =
      (scan quote .between rest).map fun r => (c :: r.1, r.2) := by
  induction ds generalizing value with
  | nil =>
    obtain ⟨n, rfl⟩ := Option.isSome_iff_exists.mp (hstart.resolve_right (fun h => h rfl))
    obtain rfl : n = c.toNat := Option.some.inj h
    simp [scan, character?_toNat]
  | cons d ds ih =>
    obtain ⟨digit, hdigit, hrest⟩ := Option.bind_eq_some_iff.mp h
    have hbrace : d ≠ '\x7d' := by
      rintro rfl
      cases hdigit
    rw [List.cons_append, scan, if_neg hbrace, hdigit, Option.bind_some]
    exact ih (.inl rfl) hrest

theorem Piece.scan {piece : List Char} {c : Char} (h : Piece piece c) (hquote : quote = '\x27' ∨ quote = '\x22') :
    scan quote .between (piece ++ rest) = (Text.scan quote .between rest).map fun r => (c :: r.1, r.2) := by
  have hslash : '\\' ≠ quote := by
    rintro rfl
    simp at hquote
  cases h with
  | plain _ hsingle hdouble hbackslash =>
    have hopen : c ≠ quote := by
      rintro rfl
      exact hquote.elim hsingle hdouble
    rw [List.singleton_append, Text.scan, if_neg hopen, if_neg hbackslash]
  | @short name _ h =>
    have hname : name ≠ 'u' := by
      rintro rfl
      cases h
    simp [Text.scan, hslash, hname, h]
  | @code ds _ hne hvalue =>
    have hdigits : Text.scan quote (.digits none) (ds ++ '\x7d' :: rest) =
        (Text.scan quote .between rest).map fun r => (c :: r.1, r.2) := scan_digits (.inr hne) hvalue
    simpa [Text.scan, hslash] using hdigits

theorem Spells.scan {body cs : List Char} (h : Spells body cs) (hquote : quote = '\x27' ∨ quote = '\x22') :
    scan quote .between (body ++ quote :: rest) = some (cs, rest) := by
  induction h with
  | nil => simp [Text.scan]
  | cons hpiece _ ih => rw [List.append_assoc, hpiece.scan hquote, ih, Option.map_some]

/-! ### Writing -/

theorem hexValue?_append (ds es : List Char) (start : Nat) :
    hexValue? start (ds ++ es) = (hexValue? start ds).bind fun n => hexValue? n es := by
  induction ds generalizing start with
  | nil => rfl
  | cons d ds ih =>
    rw [List.cons_append, hexValue?, hexValue?, Option.bind_assoc]
    simp only [ih]

theorem hexDigit?_digitChar : ∀ n < 16, hexDigit? n.digitChar = some n := by decide

theorem hexValue?_hexChars (n : Nat) : hexValue? 0 (hexChars n) = some n := by
  unfold hexChars
  induction n using Nat.strongRecOn with
  | ind n ih =>
    by_cases hlt : n < 16
    · rw [Nat.toDigits_of_lt_base hlt, hexValue?, hexDigit?_digitChar n hlt, Option.bind_some, hexValue?, Nat.mul_zero,
        Nat.zero_add]
    · have hdigit := hexDigit?_digitChar (n % 16) (Nat.mod_lt _ (by decide))
      rw [Nat.toDigits_of_base_le (by decide) (Nat.le_of_not_lt hlt), hexValue?_append, ih (n / 16) (by omega),
        Option.bind_some, hexValue?, hdigit, Option.bind_some, hexValue?, Nat.div_add_mod]

theorem piece_escapeChar (c : Char) : Piece (escapeChar c) c := by
  by_cases hshort : c ∈ ['\t', '\r', '\n', '\x27', '\x22', '\\']
  · simp only [List.mem_cons, List.not_mem_nil, or_false] at hshort
    rcases hshort with rfl | rfl | rfl | rfl | rfl | rfl <;> exact .short rfl
  · simp only [List.mem_cons, List.not_mem_nil, or_false, not_or] at hshort
    obtain ⟨htab, hreturn, hfeed, hsingle, hdouble, hbackslash⟩ := hshort
    rw [escapeChar, if_neg htab, if_neg hreturn, if_neg hfeed, if_neg hsingle, if_neg hdouble, if_neg hbackslash]
    by_cases hprintable : 0x20 ≤ c.toNat ∧ c.toNat ≤ 0x7e
    · rw [if_pos hprintable]
      exact .plain hprintable hsingle hdouble hbackslash
    · rw [if_neg hprintable]
      exact .code Nat.toDigits_ne_nil (hexValue?_hexChars c.toNat)

theorem spells_flatMap (cs : List Char) : Spells (cs.flatMap escapeChar) cs := by
  induction cs with
  | nil => exact .nil
  | cons c cs ih => exact .cons (piece_escapeChar c) ih

/-! ### Literals -/

/-- The text is a literal for the characters: it is spelled in printable characters between two quotes, and it is read
as these characters and no further than to its end. -/
structure IsLiteral (quote : Char) (cs : List Char) (text : String) : Prop where
  spelled : ∃ body, text.toList = quote :: (body ++ [quote]) ∧ Spells body cs ∧ ∀ d ∈ body, IsPrintable d
  reads : ∀ rest, readLiteral? quote (text.toList ++ rest) = some (cs, rest)

theorem Spells.isLiteral {body cs : List Char} (h : Spells body cs) (hquote : quote = '\x27' ∨ quote = '\x22') :
    IsLiteral quote cs (String.ofList (quote :: (body ++ [quote]))) where
  spelled := ⟨body, String.toList_ofList, h, h.isPrintable⟩
  reads rest := by
    rw [String.toList_ofList, List.cons_append, readLiteral?, if_pos rfl, List.append_assoc]
    exact h.scan hquote

theorem isLiteral_quoteText (s : String) : IsLiteral '\x22' s.toList (quoteText s) :=
  (spells_flatMap s.toList).isLiteral (.inr rfl)

theorem IsLiteral.unique {cs cs' : List Char} {text : String} (h : IsLiteral quote cs text)
    (h' : IsLiteral quote cs' text) : cs = cs' :=
  congrArg Prod.fst (Option.some.inj ((h.reads []).symm.trans (h'.reads [])))

/-- **Quoted texts and characters read back.** A quoted text is a literal between double quotes for the characters of
the text, so texts that are quoted alike are the same. The first character of a text is quoted as a literal between
single quotes for it alone, and only the empty text has none. -/
theorem quoted_reads_back :
    (∀ s, IsLiteral '\x22' s.toList (quoteText s)) ∧ Function.Injective quoteText ∧
      (∀ c cs, ∃ text, quoteChar? (String.ofList (c :: cs)) = some text ∧ IsLiteral '\x27' [c] text) ∧
      ∀ s, quoteChar? s = none ↔ s = "" := by
  refine ⟨isLiteral_quoteText, fun s s' h => ?_, fun c cs => ?_, fun s => ?_⟩
  · have hliteral := isLiteral_quoteText s'
    rw [← h] at hliteral
    exact String.toList_inj.mp ((isLiteral_quoteText s).unique hliteral)
  · have hspells : Spells (escapeChar c) [c] := by
      simpa using Spells.cons (piece_escapeChar c) .nil
    exact ⟨_, by rw [quoteChar?, String.toList_ofList]; rfl, hspells.isLiteral (.inl rfl)⟩
  · rw [quoteChar?, Option.map_eq_none_iff, List.head?_eq_none_iff, String.toList_eq_nil_iff]

example : quoteText "a\"\n\x7f" = "\"a\\\"\\n\\u\x7b7f\x7d\"" := by decide +kernel

end BlockGraph.Text
