import BlockGraph.Decimal.Layout
import BlockGraph.Proofs.Decimal.Shortest

/-!
# Numbers that are written as integers

A number is written as an integer exactly when it is one (`isInteger_display_iff`). No integer but the number itself is
as near to a number as its shortest decimal is, so a number that is not whole has a shortest decimal with a fraction
(`Magnitude.exponent_shortest_neg`), and a point is written before the fraction. What is not finite is written as a
word.
-/

namespace BlockGraph.Decimal

namespace Magnitude

variable {m : Magnitude} {n : ℕ}

theorem value_nonneg (m : Magnitude) : 0 ≤ m.value := mul_nonneg (Nat.cast_nonneg _) (zpow_nonneg (by norm_num) _)

theorem whole?_eq_some_iff : m.whole? = some n ↔ m.value = n := by
  unfold whole? value
  split
  · next hexponent =>
    obtain ⟨k, hk⟩ := Int.eq_ofNat_of_zero_le hexponent
    rw [hk, Int.toNat_natCast, Option.some_inj, zpow_natCast]
    exact ⟨fun h => by exact_mod_cast h, fun h => by exact_mod_cast h⟩
  · next hexponent =>
    obtain ⟨k, hk⟩ := Int.eq_ofNat_of_zero_le (show 0 ≤ -m.exponent by omega)
    have hunit : (2 : ℚ) ^ k ≠ 0 := by positivity
    have hvalue : (m.mantissa : ℚ) * 2 ^ m.exponent = n ↔ m.mantissa = n * 2 ^ k := by
      rw [show m.exponent = -(k : ℤ) by omega, zpow_neg, zpow_natCast, mul_inv_eq_iff_eq_mul₀ hunit]
      exact ⟨fun h => by exact_mod_cast h, fun h => by exact_mod_cast h⟩
    rw [hvalue, hk, Int.toNat_natCast]
    have hpos : 0 < Nat.pow 2 k := Nat.pow_pos (by decide)
    dsimp only
    split
    · next hdvd =>
      rw [Option.some_inj, Nat.div_eq_iff_eq_mul_left hpos (Nat.dvd_of_mod_eq_zero hdvd)]
      rfl
    · next hdvd =>
      refine ⟨fun h => (by cases h), fun h => absurd ?_ hdvd⟩
      rw [h]
      exact Nat.mul_mod_left n (2 ^ k)

theorem exponent_neg (h : m.whole? = none) : m.exponent < 0 := by
  refine lt_of_not_ge fun hexponent => ?_
  rw [whole?, if_pos hexponent] at h
  cases h

/-- An integer that is as near to a number as half the distance to the next larger one is the number. -/
theorem value_eq_of_near (hexponent : m.exponent < 0) (h : |(n : ℚ) - m.value| ≤ 2 * m.quarter) : m.value = n := by
  obtain ⟨k, hk⟩ := Int.eq_ofNat_of_zero_le (show 0 ≤ -m.exponent by omega)
  have hunit : (0 : ℚ) < 2 ^ k := by positivity
  have hvalue : m.value * 2 ^ k = m.mantissa := by
    rw [value, show m.exponent = -(k : ℤ) by omega, zpow_neg, zpow_natCast, inv_mul_cancel_right₀ hunit.ne']
  have hquarter : m.quarter * 2 ^ k = 1 / 4 := by
    rw [quarter, show m.exponent = -(k : ℤ) by omega, zpow_sub₀ (by norm_num), zpow_neg, zpow_natCast,
      div_mul_eq_mul_div, inv_mul_cancel₀ hunit.ne']
    norm_num
  have hscaled : |(n : ℚ) * 2 ^ k - m.mantissa| < 1 := by
    have hle := mul_le_mul_of_nonneg_right h hunit.le
    rw [← abs_of_pos hunit, ← abs_mul, abs_of_pos hunit, sub_mul, hvalue, mul_assoc, hquarter] at hle
    linarith
  have hinteger : |(n : ℤ) * 2 ^ k - m.mantissa| < 1 := by exact_mod_cast hscaled
  have hmantissa : ((n * 2 ^ k : ℕ) : ℤ) = m.mantissa := by
    push_cast
    exact sub_eq_zero.mp (Int.abs_lt_one_iff.mp hinteger)
  have hcast : (m.mantissa : ℚ) = n * 2 ^ k := by exact_mod_cast hmantissa.symm
  rw [← hvalue] at hcast
  exact mul_right_cancel₀ hunit.ne' hcast

theorem exponent_shortest_neg (tie : Tie) (hm : m.IsBinary64) (hwhole : m.whole? = none) :
    (m.shortest tie).exponent < 0 := by
  have hne : ∀ n : ℕ, m.value ≠ n := by
    intro n hn
    rw [whole?_eq_some_iff.mpr hn] at hwhole
    cases hwhole
  have hzero : m.mantissa ≠ 0 := fun hzero => hne 0 (by simp [value, hzero])
  refine lt_of_not_ge fun hexponent => ?_
  obtain ⟨e, he⟩ := Int.eq_ofNat_of_zero_le hexponent
  have hinteger : (m.shortest tie).value = ((m.shortest tie).digits * 10 ^ e : ℕ) := by
    rw [Scientific.value, he]
    simp
  have hnear := shortest_near tie hm hzero
  rw [hinteger] at hnear
  exact hne _ (value_eq_of_near (exponent_neg hwhole) hnear)

end Magnitude

namespace Binary

/-- The rational that a finite number is. -/
def value? : Binary → Option ℚ
  | .finite negative m => some (if negative then -m.value else m.value)
  | _ => none

theorem whole?_finite (negative : Bool) (m : Magnitude) :
    (Binary.finite negative m).whole? = m.whole?.map fun n : ℕ => if negative then -(n : ℤ) else n := by
  rw [whole?]
  cases m.whole? <;> rfl

theorem whole?_eq_some_iff {b : Binary} {i : ℤ} : b.whole? = some i ↔ b.value? = some (i : ℚ) := by
  cases b with
  | nan => simp [whole?, value?]
  | infinite negative => simp [whole?, value?]
  | finite negative m =>
    rw [whole?_finite, value?, Option.map_eq_some_iff, Option.some_inj]
    constructor
    · rintro ⟨n, hn, rfl⟩
      rw [Magnitude.whole?_eq_some_iff.mp hn]
      cases negative <;> simp
    · intro hvalue
      have hnat : m.value = i.natAbs := by
        have habs : m.value = |(i : ℚ)| := by
          rw [← hvalue]
          cases negative <;> simp [abs_of_nonneg m.value_nonneg]
        rw [habs, ← Int.cast_abs, Int.abs_eq_natAbs, Int.cast_natCast]
      refine ⟨i.natAbs, Magnitude.whole?_eq_some_iff.mpr hnat, ?_⟩
      have hi : ((if negative = true then -(i.natAbs : ℤ) else i.natAbs : ℤ) : ℚ) = i := by
        rw [← hvalue, hnat]
        cases negative <;> simp
      exact_mod_cast hi

end Binary

def IsWhole (x : Float) : Prop := ∃ i : ℤ, (Binary.ofFloat x).value? = some (i : ℚ)

/-! ### Texts of integers -/

/-- The text is made of digits, after a minus sign at most where one is allowed. -/
def IsInteger (signed : Bool) (text : String) : Prop :=
  ∃ digits, digits ≠ [] ∧ (∀ c ∈ digits, c.isDigit = true) ∧
    (text.toList = digits ∨ signed = true ∧ text.toList = '-' :: digits)

theorem IsInteger.isDigit_or_eq {signed : Bool} {text : String} (h : IsInteger signed text) {c : Char}
    (hc : c ∈ text.toList) : c.isDigit = true ∨ c = '-' := by
  obtain ⟨digits, -, hdigits, htext | ⟨-, htext⟩⟩ := h
  · exact .inl (hdigits c (htext ▸ hc))
  · rw [htext] at hc
    exact (List.mem_cons.mp hc).elim .inr fun hc => .inl (hdigits c hc)

theorem not_isInteger_of_mem {signed : Bool} {text : String} {c : Char} (hc : c ∈ text.toList)
    (hdigit : c.isDigit = false) (hminus : c ≠ '-') : ¬ IsInteger signed text := fun h =>
  (h.isDigit_or_eq hc).elim (fun h => by rw [hdigit] at h; cases h) hminus

theorem isDigit_digitChars {n : ℕ} : ∀ c ∈ digitChars n, c.isDigit = true :=
  fun _ hc => Nat.isDigit_of_mem_toDigits (by decide) (by decide) hc

theorem point_mem_writePositional (l : Layout) {digits : List Char} {place : ℤ} (h : place < digits.length) :
    '.' ∈ l.writePositional digits place := by
  unfold Layout.writePositional
  split
  · exact List.mem_cons_of_mem _ List.mem_cons_self
  · dsimp only
    rw [if_neg (by omega)]
    exact List.mem_append_right _ List.mem_cons_self

theorem not_isInteger_write {x : Float} (signed : Bool) (h : (Binary.ofFloat x).whole? = none) :
    ¬ IsInteger signed (Layout.plain.write x) := by
  unfold Layout.write
  cases hx : Binary.ofFloat x with
  | nan => exact not_isInteger_of_mem (c := 'N') (by simp [Layout.plain]) rfl (by decide)
  | infinite negative =>
    cases negative with
    | false => exact not_isInteger_of_mem (c := 'i') (by simp [Layout.plain]) rfl (by decide)
    | true => exact not_isInteger_of_mem (c := 'i') (by simp [Layout.plain]) rfl (by decide)
  | finite negative m =>
    rw [hx, Binary.whole?_finite, Option.map_eq_none_iff] at h
    have hexponent := Magnitude.exponent_shortest_neg Layout.plain.tie (Binary.isBinary64 hx) h
    have hpoint : '.' ∈ Layout.plain.writeMagnitude (m.shortest Layout.plain.tie) :=
      point_mem_writePositional _ (by omega)
    refine not_isInteger_of_mem (c := '.') ?_ rfl (by decide)
    dsimp only
    rw [String.toList_ofList]
    split
    · exact List.mem_cons_of_mem _ hpoint
    · exact hpoint

/-- **A number is written as an integer exactly when it is one.** There is a minus sign before a negative integer. -/
theorem isInteger_display_iff (x : Float) (signed : Bool) :
    IsInteger signed (display x) ↔ ∃ i : ℤ, (Binary.ofFloat x).value? = some (i : ℚ) ∧ (signed = true ∨ 0 ≤ i) := by
  unfold display
  cases hwhole : (Binary.ofFloat x).whole? with
  | none =>
    refine ⟨fun h => absurd h (not_isInteger_write signed hwhole), fun ⟨i, hi, _⟩ => ?_⟩
    rw [Binary.whole?_eq_some_iff.mpr hi] at hwhole
    cases hwhole
  | some i =>
    have hvalue := Binary.whole?_eq_some_iff.mp hwhole
    dsimp only
    by_cases hi : i < 0
    · rw [if_pos hi]
      have htext : ("-" ++ String.ofList (digitChars i.natAbs)).toList = '-' :: digitChars i.natAbs := by
        simp
      constructor
      · rintro ⟨digits, -, hdigits, hplain | ⟨hsigned, -⟩⟩
        · have hminus := hdigits '-' (by rw [← hplain, htext]; exact List.mem_cons_self)
          cases hminus
        · exact ⟨i, hvalue, .inl hsigned⟩
      · rintro ⟨j, hj, hsigned⟩
        obtain rfl : i = j := by exact_mod_cast Option.some.inj (hvalue.symm.trans hj)
        exact ⟨_, Nat.toDigits_ne_nil, isDigit_digitChars, .inr ⟨hsigned.resolve_right (not_le.mpr hi), htext⟩⟩
    · rw [if_neg hi]
      refine ⟨fun _ => ⟨i, hvalue, .inr (not_lt.mp hi)⟩, fun _ => ?_⟩
      exact ⟨_, Nat.toDigits_ne_nil, isDigit_digitChars, .inl String.toList_ofList⟩

/-! ### Negative numbers -/

section Bits

open Float.Model (Format UnpackedFloat)
open Float.Model.UnpackedFloat

theorem toNat_unpackMantissa (bits : UInt64) :
    (@unpackMantissa Format.binary64 bits.toBitVec).toNat = bits.toNat % 2 ^ 52 := by
  unfold unpackMantissa
  simp

theorem toNat_unpackExponent (bits : UInt64) :
    (@unpackExponent Format.binary64 bits.toBitVec).toNat = bits.toNat / 2 ^ 52 % 2 ^ 11 := by
  unfold unpackExponent
  simp [Nat.shiftRight_eq_div_pow]

theorem toNat_unpackSign (bits : UInt64) :
    (@unpackSign Format.binary64 bits.toBitVec).toNat = bits.toNat / 2 ^ 63 % 2 := by
  unfold unpackSign
  simp [Nat.shiftRight_eq_div_pow]

theorem fields_of_ofBits {bits : UInt64} {m : Magnitude} (h : Binary.ofBits bits = .finite true m)
    (hzero : m.mantissa ≠ 0) :
    bits.toNat / 2 ^ 63 = 1 ∧ bits.toNat / 2 ^ 52 % 2 ^ 11 ≠ 2047 ∧
      (bits.toNat / 2 ^ 52 % 2 ^ 11 = 0 → bits.toNat % 2 ^ 52 ≠ 0) := by
  unfold Binary.ofBits at h
  dsimp only at h
  split at h
  · split at h <;> cases h
  · next hlast =>
    split at h
    · obtain ⟨hsign, rfl⟩ := Binary.finite.inj h
      exact ⟨beq_iff_eq.mp hsign, hlast, fun _ => hzero⟩
    · next hfirst =>
      obtain ⟨hsign, rfl⟩ := Binary.finite.inj h
      exact ⟨beq_iff_eq.mp hsign, hlast, fun h => absurd h hfirst⟩

theorem compare_negative {x : Float} {m : Magnitude} (h : Binary.ofFloat x = .finite true m)
    (hzero : m.mantissa ≠ 0) : x.toModel.unpack.compare (.zero .positive) = some .lt := by
  obtain ⟨hsign, hlast, hfirst⟩ := fields_of_ofBits h hzero
  unfold Float.Model.unpack UnpackedFloat.unpack
  have hexponent : ¬ @unpackExponent Format.binary64 x.toModel.toBits.toBitVec = -1#_ := by
    intro heq
    have hnat := congrArg BitVec.toNat heq
    rw [toNat_unpackExponent] at hnat
    exact hlast hnat
  have hnegative : Sign.ofBitVec (@unpackSign Format.binary64 x.toModel.toBits.toBitVec) = .negative := by
    refine if_neg fun heq => ?_
    have hnat := congrArg BitVec.toNat heq
    rw [toNat_unpackSign, show x.toModel.toBits.toNat / 2 ^ 63 = 1 from hsign] at hnat
    exact absurd hnat (by decide)
  dsimp only
  rw [if_neg hexponent, hnegative]
  by_cases hscale : @unpackExponent Format.binary64 x.toModel.toBits.toBitVec = 0#_
  · have hmantissa : ¬ @unpackMantissa Format.binary64 x.toModel.toBits.toBitVec = 0#_ := by
      intro heq
      have hnat := congrArg BitVec.toNat hscale
      have hnat' := congrArg BitVec.toNat heq
      rw [toNat_unpackExponent] at hnat
      rw [toNat_unpackMantissa] at hnat'
      exact hfirst hnat hnat'
    rw [if_pos hscale, dif_neg hmantissa]
    rfl
  · rw [if_neg hscale]
    rfl

theorem unpack_zero : (0 : Float).toModel.unpack = .zero .positive := rfl

theorem lt_zero_iff (x : Float) : x < 0 ↔ x.toModel.unpack.compare (.zero .positive) = some .lt := by
  have hmodel : x < 0 ↔ (x.toModel.unpack.compare (0 : Float).toModel.unpack == some .lt) = true := by
    show decide (x.toModel < (0 : Float).toModel) = true ↔ _
    rw [decide_eq_true_eq]
    rfl
  rw [hmodel, beq_iff_eq, unpack_zero]

theorem lt_zero_of_value? {x : Float} {q : ℚ} (h : (Binary.ofFloat x).value? = some q) (hq : q < 0) : x < 0 := by
  cases hx : Binary.ofFloat x with
  | nan =>
    rw [hx] at h
    cases h
  | infinite negative =>
    rw [hx] at h
    cases h
  | finite negative m =>
    rw [hx, Binary.value?, Option.some_inj] at h
    subst h
    cases negative with
    | false => exact absurd hq (not_lt.mpr m.value_nonneg)
    | true =>
      have hzero : m.mantissa ≠ 0 := by
        intro hzero
        simp [Magnitude.value, hzero] at hq
      exact (lt_zero_iff x).mpr (compare_negative hx hzero)

end Bits

end BlockGraph.Decimal
