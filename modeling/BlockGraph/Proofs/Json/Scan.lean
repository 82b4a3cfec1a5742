import BlockGraph.Error
import BlockGraph.Json.Basic
import Mathlib.Tactic.SplitIfs

/-!
# Texts and numerals, character by character

Reading goes on after a text and after a numeral, so what is read there must not depend on what follows:

* `scanText_escape`: a written text gives its characters back up to its closing quote, escapes included;
* `scanNumeral_append`: a numeral ends where something follows that cannot go on with it;
* `scanNumeral_suffix`: what it leaves is the end of the text.
-/

namespace BlockGraph.Json

/-! ### Texts -/

theorem hexValue4?_hexPair {n : Nat} (h : n < 0x20) :
    hexValue4? '0' '0' (Nat.digitChar (n / 16)) (Nat.digitChar (n % 16)) = some n := by
  have hall : ∀ n < 0x20, hexValue4? '0' '0' (Nat.digitChar (n / 16)) (Nat.digitChar (n % 16)) = some n := by decide
  exact hall n h

theorem scanText_plain {c : Char} (hquote : c ≠ '\x22') (hslash : c ≠ '\\') (hcode : ¬ c.toNat < 0x20)
    (rest : List Char) : scanText none (c :: rest) = (scanText none rest).push c := by
  rw [scanText]
  · rw [if_neg hquote, if_neg hcode]
    rfl
  all_goals simp [hslash]

theorem scanText_code {c : Char} (hcode : c.toNat < 0x20) (rest : List Char) :
    scanText none ('\\' :: 'u' :: '0' :: '0' :: hexPair c.toNat ++ rest) = (scanText none rest).push c := by
  simp only [hexPair, List.cons_append, List.nil_append]
  rw [scanText, hexValue4?_hexPair hcode]
  dsimp only
  rw [if_neg (by omega), if_neg (by omega), Char.ofNat_toNat]
  rfl

theorem scanText_escapeChar (c : Char) (rest : List Char) :
    scanText none (escapeChar c ++ rest) = (scanText none rest).push c := by
  unfold escapeChar
  split
  · next h => subst h; rfl
  · next hquote =>
    split
    · next h => subst h; rfl
    · next hslash =>
      split
      · next h => subst h; rfl
      split
      · next h => subst h; rfl
      split
      · next h => subst h; rfl
      split
      · next h => subst h; rfl
      split
      · next h => subst h; rfl
      split
      · next hcode => exact scanText_code hcode rest
      · next hcode => exact scanText_plain hquote hslash hcode rest

theorem scanText_escape (cs rest : List Char) :
    scanText none (cs.flatMap escapeChar ++ '\x22' :: rest) = ⟨.ok cs, .ok rest⟩ := by
  induction cs with
  | nil => rfl
  | cons c cs ih =>
    rw [List.flatMap_cons, List.append_assoc, scanText_escapeChar, ih]
    rfl

theorem parseText_writeText {α : Type} (make : Except Fault String → Option Fault → α) (s : String) (rest : List Char) :
    parseText make (s.toList.flatMap escapeChar ++ '\x22' :: rest) = (make (.ok s) none, some rest) := by
  rw [parseText, scanText_escape]
  simp [Except.map]

/-! ### Numerals -/

/-- A numeral does not go on here. -/
def EndsNumeral : List Char → Prop
  | [] => True
  | c :: _ => c.isDigit = false ∧ c ≠ '.' ∧ c ≠ 'e' ∧ c ≠ 'E'

variable {cs rest r : List Char}

theorem span_append (h : EndsNumeral rest) :
    (cs ++ rest).takeWhile Char.isDigit = cs.takeWhile Char.isDigit ∧
      (cs ++ rest).dropWhile Char.isDigit = cs.dropWhile Char.isDigit ++ rest := by
  induction cs with
  | nil =>
    cases rest with
    | nil => exact ⟨rfl, rfl⟩
    | cons c rest => simp [h.1]
  | cons c cs ih =>
    cases hc : c.isDigit with
    | true => simpa [hc] using ih
    | false => simp [hc]

theorem leadingDigits_append (h : EndsNumeral rest) : leadingDigits (cs ++ rest) = leadingDigits cs := by
  rw [leadingDigits, (span_append h).1, leadingDigits]

theorem afterDigits_append (h : EndsNumeral rest) : afterDigits (cs ++ rest) = afterDigits cs ++ rest :=
  (span_append h).2

theorem scanWhole_append (h : EndsNumeral rest) {digits : List Nat} (hcs : scanWhole cs = .ok (digits, r)) :
    scanWhole (cs ++ rest) = .ok (digits, r ++ rest) := by
  unfold scanWhole at hcs ⊢
  rw [leadingDigits_append h, afterDigits_append h]
  split at hcs
  · cases hcs
  · cases hcs; rfl
  · split_ifs at hcs ⊢
    cases hcs
    rfl

theorem scanFraction_append (h : EndsNumeral rest) {fraction : Option (List Nat)}
    (hcs : scanFraction cs = .ok (fraction, r)) : scanFraction (cs ++ rest) = .ok (fraction, r ++ rest) := by
  unfold scanFraction at hcs
  split at hcs
  · rw [List.cons_append, scanFraction, leadingDigits_append h, afterDigits_append h]
    split_ifs at hcs ⊢
    cases hcs
    rfl
  · next hpoint =>
    cases hcs
    rw [scanFraction]
    intro tail htail
    cases cs with
    | nil =>
      rw [List.nil_append] at htail
      rw [htail] at h
      exact h.2.1 rfl
    | cons c cs => exact hpoint cs (by rw [(List.cons.inj htail).1])

def splitSign : List Char → Bool × List Char
  | '+' :: r => (false, r)
  | '-' :: r => (true, r)
  | r => (false, r)

theorem splitSign_append (c : Char) :
    splitSign (c :: cs ++ rest) = ((splitSign (c :: cs)).1, (splitSign (c :: cs)).2 ++ rest) := by
  by_cases hplus : c = '+'
  · subst hplus
    rfl
  by_cases hminus : c = '-'
  · subst hminus
    rfl
  rw [List.cons_append, splitSign, splitSign] <;> simp [hplus, hminus]

theorem scanExponent_cons (c : Char) : scanExponent (c :: cs) =
    if c = 'e' ∨ c = 'E' then
      if (leadingDigits (splitSign cs).2).isEmpty then .error (digitFault (splitSign cs).2)
      else .ok (some ((splitSign cs).1, leadingDigits (splitSign cs).2), afterDigits (splitSign cs).2)
    else .ok (none, c :: cs) := rfl

theorem scanExponent_append (h : EndsNumeral rest) {exponent : Option (Bool × List Nat)}
    (hcs : scanExponent cs = .ok (exponent, r)) : scanExponent (cs ++ rest) = .ok (exponent, r ++ rest) := by
  cases cs with
  | nil =>
    cases hcs
    cases rest with
    | nil => rfl
    | cons c rest =>
      rw [List.nil_append, scanExponent_cons, if_neg (by simp [h.2.2.1, h.2.2.2])]
  | cons c cs =>
    rw [scanExponent_cons] at hcs
    rw [List.cons_append, scanExponent_cons]
    by_cases hmark : c = 'e' ∨ c = 'E'
    · rw [if_pos hmark] at hcs ⊢
      cases cs with
      | nil => cases hcs
      | cons d cs =>
        rw [splitSign_append, leadingDigits_append h, afterDigits_append h]
        split_ifs at hcs ⊢
        cases hcs
        rfl
    · rw [if_neg hmark] at hcs ⊢
      cases hcs
      rfl

theorem scanNumeral_append (h : EndsNumeral rest) {negative : Bool} {n : Decimal.Numeral}
    (hcs : scanNumeral negative cs = .ok (n, r)) : scanNumeral negative (cs ++ rest) = .ok (n, r ++ rest) := by
  unfold scanNumeral at hcs ⊢
  obtain ⟨⟨whole, r₁⟩, hwhole, hcs⟩ := bind_eq_ok_iff.mp hcs
  obtain ⟨⟨fraction, r₂⟩, hfraction, hcs⟩ := bind_eq_ok_iff.mp hcs
  obtain ⟨⟨exponent, r₃⟩, hexponent, hcs⟩ := bind_eq_ok_iff.mp hcs
  cases hcs
  refine bind_eq_ok_iff.mpr ⟨_, scanWhole_append h hwhole, ?_⟩
  refine bind_eq_ok_iff.mpr ⟨_, scanFraction_append h hfraction, ?_⟩
  exact bind_eq_ok_iff.mpr ⟨_, scanExponent_append h hexponent, rfl⟩

theorem scanWhole_suffix {digits : List Nat} (hcs : scanWhole cs = .ok (digits, r)) : r <:+ cs := by
  unfold scanWhole at hcs
  split at hcs
  · cases hcs
  · cases hcs
    exact List.dropWhile_suffix _
  · split_ifs at hcs
    cases hcs
    exact List.dropWhile_suffix _

theorem scanFraction_suffix {fraction : Option (List Nat)} (hcs : scanFraction cs = .ok (fraction, r)) : r <:+ cs := by
  unfold scanFraction at hcs
  split at hcs
  · split_ifs at hcs
    cases hcs
    exact (List.dropWhile_suffix _).trans (List.suffix_cons _ _)
  · cases hcs
    exact List.suffix_rfl

theorem splitSign_suffix : (splitSign cs).2 <:+ cs := by
  unfold splitSign
  split
  · exact List.suffix_cons _ _
  · exact List.suffix_cons _ _
  · exact List.suffix_rfl

theorem scanExponent_suffix {exponent : Option (Bool × List Nat)} (hcs : scanExponent cs = .ok (exponent, r)) :
    r <:+ cs := by
  cases cs with
  | nil =>
    cases hcs
    exact List.suffix_rfl
  | cons c cs =>
    rw [scanExponent_cons] at hcs
    split_ifs at hcs
    · cases hcs
      exact ((List.dropWhile_suffix _).trans splitSign_suffix).trans (List.suffix_cons _ _)
    · cases hcs
      exact List.suffix_rfl

theorem scanNumeral_suffix {negative : Bool} {n : Decimal.Numeral} (hcs : scanNumeral negative cs = .ok (n, r)) :
    r <:+ cs := by
  unfold scanNumeral at hcs
  obtain ⟨⟨whole, r₁⟩, hwhole, hcs⟩ := bind_eq_ok_iff.mp hcs
  obtain ⟨⟨fraction, r₂⟩, hfraction, hcs⟩ := bind_eq_ok_iff.mp hcs
  obtain ⟨⟨exponent, r₃⟩, hexponent, hcs⟩ := bind_eq_ok_iff.mp hcs
  cases hcs
  exact ((scanExponent_suffix hexponent).trans (scanFraction_suffix hfraction)).trans (scanWhole_suffix hwhole)

end BlockGraph.Json
