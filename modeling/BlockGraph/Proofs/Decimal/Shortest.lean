import BlockGraph.Decimal.Shortest
import Mathlib.Algebra.Order.Field.Power
import Mathlib.Data.Rat.Cast.Order
import Mathlib.Tactic.Linarith
import Mathlib.Tactic.Positivity
import Mathlib.Tactic.Ring

/-!
# Shortest decimals are near

The search for the shortest decimal ends with a decimal that rounds to the number, because seventeen digits suffice: the
points of their grid are closer to one another than the ends of the rounding interval, so one of the two neighbours of
the number lies in the interval (`exists_nearest?`, `lt_width`).

The shortest decimal is therefore at most half as far from the number as the next larger number is
(`shortest_near`).
-/

namespace BlockGraph.Decimal

namespace Magnitude

def value (m : Magnitude) : ℚ := m.mantissa * 2 ^ m.exponent

/-- A quarter of the distance to the next larger number. -/
def quarter (m : Magnitude) : ℚ := 2 ^ (m.exponent - 2)

/-- The mantissa has at most 53 bits, and the next smaller number is nearer at powers of two only. -/
structure IsBinary64 (m : Magnitude) : Prop where
  mantissa_lt : m.mantissa < 2 ^ 53
  mantissa_eq : m.narrowBelow = true → m.mantissa = 2 ^ 52

theorem quarter_pos (m : Magnitude) : 0 < m.quarter := zpow_pos (by norm_num) _

theorem value_eq (m : Magnitude) : m.value = 4 * m.mantissa * m.quarter := by
  rw [value, quarter, zpow_sub₀ (by norm_num)]
  ring

end Magnitude

theorem Binary.isBinary64 {bits : UInt64} {negative : Bool} {m : Magnitude}
    (h : Binary.ofBits bits = .finite negative m) : m.IsBinary64 := by
  have hfraction : bits.toNat % Nat.pow 2 52 < 2 ^ 52 := Nat.mod_lt _ (by decide)
  unfold Binary.ofBits at h
  dsimp only at h
  split at h
  · split at h <;> cases h
  · split at h
    · cases h
      exact ⟨hfraction.trans (by decide), by simp⟩
    · cases h
      refine ⟨?_, fun hnarrow => ?_⟩
      · show Nat.pow 2 52 + _ < 2 ^ 53
        have : Nat.pow 2 52 = 2 ^ 52 := rfl
        omega
      · simp only [Bool.and_eq_true, beq_iff_eq] at hnarrow
        simp only [hnarrow.1]
        rfl

/-! ### Places of the decimal point -/

theorem lt_pow_digitCount (n : ℕ) : n < 10 ^ digitCount n :=
  (Nat.length_toDigits_le_iff (by decide) Nat.length_toDigits_pos).mp le_rfl

theorem pow_digitCount_le {n : ℕ} (hn : 0 < n) : 10 ^ (digitCount n - 1) ≤ n := by
  by_cases hone : digitCount n = 1
  · rw [hone]
    exact hn
  · have hpos : 0 < digitCount n := Nat.length_toDigits_pos
    refine Nat.le_of_not_lt fun hlt => ?_
    have hle := (Nat.length_toDigits_le_iff (by decide) (by omega)).mpr hlt
    rw [← digitCount] at hle
    omega

theorem pow_pointPlace_le {num den : ℕ} (hnum : 0 < num) (hden : 0 < den) :
    (10 : ℚ) ^ (pointPlace num den - 1) * den ≤ num := by
  unfold pointPlace
  split
  · next hle =>
    have hquotient := pow_digitCount_le (Nat.div_pos hle hden)
    have hpos : 0 < digitCount (num / den) := Nat.length_toDigits_pos
    obtain ⟨d, hd⟩ : ∃ d, digitCount (num / den) = d + 1 := ⟨_, (Nat.succ_pred_eq_of_pos hpos).symm⟩
    rw [hd, Nat.add_sub_cancel] at hquotient
    have hnat : 10 ^ d * den ≤ num := (Nat.mul_le_mul_right den hquotient).trans (Nat.div_mul_le_self num den)
    rw [hd, Nat.cast_add, Nat.cast_one, add_sub_cancel_right, zpow_natCast]
    exact_mod_cast hnat
  · next hlt =>
    have hpos : 0 < digitCount (den / num) := Nat.length_toDigits_pos
    obtain ⟨d, hd⟩ : ∃ d, digitCount (den / num) = d + 1 := ⟨_, (Nat.succ_pred_eq_of_pos hpos).symm⟩
    dsimp only
    rw [hd, Nat.add_sub_cancel]
    have hten : (10 : ℚ) ^ d ≠ 0 := by positivity
    split
    · next heq =>
      have hexponent : 2 - ((d + 1 : ℕ) : ℤ) - 1 = -(d : ℤ) := by omega
      have hden : (den : ℚ) = num * 10 ^ d := by exact_mod_cast heq.symm
      rw [hexponent, zpow_neg, zpow_natCast, hden, mul_comm (num : ℚ), inv_mul_cancel_left₀ hten]
    · have hexponent : 1 - ((d + 1 : ℕ) : ℤ) - 1 = -((d + 1 : ℕ) : ℤ) := by omega
      have hbound : den < num * 10 ^ (d + 1) := by
        have hquotient := lt_pow_digitCount (den / num)
        rw [hd] at hquotient
        rw [mul_comm]
        exact (Nat.div_lt_iff_lt_mul hnum).mp hquotient
      rw [hexponent, zpow_neg, zpow_natCast, inv_mul_le_iff₀ (by positivity), mul_comm]
      exact_mod_cast hbound.le

/-! ### Grids -/

namespace Grid

theorem down_pos (e : ℤ) : 0 < (ofExponent e).down := by
  unfold ofExponent
  split
  · exact Nat.one_pos
  · exact Nat.pow_pos (by decide)

theorem up_pos (e : ℤ) : 0 < (ofExponent e).up := by
  unfold ofExponent
  split
  · exact Nat.pow_pos (by decide)
  · exact Nat.one_pos

theorem up_eq (e : ℤ) : ((ofExponent e).up : ℚ) = 10 ^ e * (ofExponent e).down := by
  unfold ofExponent
  split
  · next hnonneg =>
    obtain ⟨n, rfl⟩ := Int.eq_ofNat_of_zero_le hnonneg
    simp
  · next hneg =>
    obtain ⟨n, hn⟩ := Int.eq_ofNat_of_zero_le (show 0 ≤ -e by omega)
    obtain rfl : e = -(n : ℤ) := by omega
    simp

end Grid

namespace RoundingInterval

variable {i : RoundingInterval} {g : Grid} {tie : Tie} {c : ℕ} {e : ℤ}

theorem le_of_holds (h : i.holds (.ofExponent e) c = true) :
    (i.lower : ℚ) ≤ c * 10 ^ e * i.den ∧ c * 10 ^ e * i.den ≤ (i.upper : ℚ) := by
  have hdown : (0 : ℚ) < (Grid.ofExponent e).down := by exact_mod_cast Grid.down_pos e
  have hpoint : ((c * (Grid.ofExponent e).up * i.den : ℕ) : ℚ) = c * 10 ^ e * i.den * (Grid.ofExponent e).down := by
    rw [Nat.cast_mul, Nat.cast_mul, Grid.up_eq]
    ring
  obtain ⟨hlower, hupper⟩ : i.lower * (Grid.ofExponent e).down ≤ c * (Grid.ofExponent e).up * i.den ∧
      c * (Grid.ofExponent e).up * i.den ≤ i.upper * (Grid.ofExponent e).down := by
    unfold holds at h
    dsimp only at h
    split at h
    · simpa using h
    · simp only [Bool.and_eq_true, decide_eq_true_eq] at h
      exact ⟨h.1.le, h.2.le⟩
  refine ⟨?_, ?_⟩
  · rw [← mul_le_mul_iff_of_pos_right hdown, ← hpoint]
    exact_mod_cast hlower
  · rw [← mul_le_mul_iff_of_pos_right hdown, ← hpoint]
    exact_mod_cast hupper

theorem holds_of_nearest? (h : i.nearest? tie g = some c) : i.holds g c = true := by
  unfold nearest? at h
  dsimp only at h
  split at h
  · next hbelow habove =>
    split at h
    · cases h
      exact hbelow
    · split at h
      · cases h
        exact habove
      · cases h
        cases tie with
        | away => exact habove
        | even =>
          unfold Tie.choose
          dsimp only
          split
          · exact hbelow
          · exact habove
  · next hbelow _ =>
    cases h
    exact hbelow
  · next _ habove =>
    cases h
    exact habove
  · cases h

theorem holds_of_nearest?_eq_none (h : i.nearest? tie g = none) :
    i.holds g (i.value * g.down / (g.up * i.den)) = false ∧
      i.holds g (i.value * g.down / (g.up * i.den) + 1) = false := by
  unfold nearest? at h
  dsimp only at h
  split at h
  · split at h
    · cases h
    · split at h <;> cases h
  · cases h
  · cases h
  · next hbelow habove => exact ⟨hbelow, habove⟩

/-- A grid that is finer than the interval is wide has a point in the interval next to the value. -/
theorem exists_nearest? (tie : Tie) (hlower : i.lower ≤ i.value) (hupper : i.value < i.upper)
    (hdown : 0 < g.down) (hstep : 0 < g.up * i.den)
    (hwidth : g.up * i.den + i.lower * g.down < i.upper * g.down) : ∃ c, i.nearest? tie g = some c := by
  refine Option.ne_none_iff_exists'.mp fun hnone => ?_
  obtain ⟨hbelow, habove⟩ := holds_of_nearest?_eq_none hnone
  have hlower' : i.lower * g.down ≤ i.value * g.down := Nat.mul_le_mul_right _ hlower
  have hupper' : i.value * g.down < i.upper * g.down := Nat.mul_lt_mul_of_pos_right hupper hdown
  have hfloor := Nat.div_mul_le_self (i.value * g.down) (g.up * i.den)
  have hceil := Nat.lt_mul_div_succ (i.value * g.down) hstep
  generalize i.value * g.down / (g.up * i.den) = n at *
  -- the value lies between two points, of which one is below the interval and the other above it
  have hpoint : n * (g.up * i.den) = n * g.up * i.den := by ring
  have hnext : g.up * i.den * (n + 1) = n * g.up * i.den + g.up * i.den := by ring
  have hnext' : (n + 1) * g.up * i.den = n * g.up * i.den + g.up * i.den := by ring
  rw [hpoint] at hfloor
  rw [hnext] at hceil
  unfold holds at hbelow habove
  dsimp only at hbelow habove
  rw [hnext'] at habove
  cases hclosed : i.closed with
  | true =>
    simp only [hclosed, if_true, Bool.and_eq_false_iff, decide_eq_false_iff_not] at hbelow habove
    omega
  | false =>
    simp only [hclosed, Bool.false_eq_true, if_false, Bool.and_eq_false_iff, decide_eq_false_iff_not] at hbelow habove
    omega

theorem holds_search {place : ℤ} {fuel n : ℕ}
    (h : ∃ k < fuel, ∃ c, i.nearest? tie (.ofExponent (place - (n + k : ℕ))) = some c) :
    i.holds (.ofExponent (i.search tie place fuel n).exponent) (i.search tie place fuel n).digits = true := by
  induction fuel generalizing n with
  | zero =>
    obtain ⟨k, hk, -⟩ := h
    cases hk
  | succ fuel ih =>
    rw [search]
    cases hnearest : i.nearest? tie (.ofExponent (place - n)) with
    | some c => exact holds_of_nearest? hnearest
    | none =>
      refine ih ?_
      obtain ⟨k, hk, c, hc⟩ := h
      cases k with
      | zero =>
        rw [Nat.add_zero, hnearest] at hc
        cases hc
      | succ k => exact ⟨k, Nat.lt_of_succ_lt_succ hk, c, by rwa [Nat.add_right_comm, Nat.add_assoc]⟩

end RoundingInterval

namespace Scientific

def value (s : Scientific) : ℚ := s.digits * 10 ^ s.exponent

theorem value_strip (fuel : ℕ) (s : Scientific) : (s.strip fuel).value = s.value := by
  induction fuel generalizing s with
  | zero => rfl
  | succ fuel ih =>
    rw [strip]
    split
    · next hzero =>
      have hdigits : (s.digits : ℚ) = (s.digits / 10 : ℕ) * 10 := by
        exact_mod_cast (Nat.div_mul_cancel (Nat.dvd_of_mod_eq_zero hzero.2)).symm
      rw [ih, value, value, zpow_add₀ (by norm_num), hdigits]
      ring
    · rfl

end Scientific

/-! ### The rounding interval of a number -/

namespace Magnitude

variable {m : Magnitude}

/-- The integer below the mantissa at which the interval begins, in quarters. -/
def below (m : Magnitude) : ℕ := if m.narrowBelow then 4 * m.mantissa - 1 else 4 * m.mantissa - 2

/-- The interval in quarters of the distance to the next larger number. -/
theorem interval_eq (m : Magnitude) : 0 < m.interval.den ∧
    (m.interval.lower : ℚ) = m.below * (m.quarter * m.interval.den) ∧
    (m.interval.value : ℚ) = 4 * m.mantissa * (m.quarter * m.interval.den) ∧
    (m.interval.upper : ℚ) = (4 * m.mantissa + 2) * (m.quarter * m.interval.den) := by
  unfold interval below quarter
  dsimp only
  split
  · next hnonneg =>
    obtain ⟨n, hn⟩ := Int.eq_ofNat_of_zero_le hnonneg
    rw [hn]
    simp
  · next hneg =>
    obtain ⟨n, hn⟩ := Int.eq_ofNat_of_zero_le (show 0 ≤ -(m.exponent - 2) by omega)
    obtain hscale : m.exponent - 2 = -(n : ℤ) := by omega
    rw [hscale]
    refine ⟨Nat.pow_pos (by decide), ?_, ?_, ?_⟩ <;> simp

theorem unit_pos (m : Magnitude) : 0 < m.quarter * m.interval.den :=
  mul_pos m.quarter_pos (by exact_mod_cast m.interval_eq.1)

theorem lower_le_value (m : Magnitude) : m.interval.lower ≤ m.interval.value := by
  obtain ⟨-, hlower, hvalue, -⟩ := m.interval_eq
  have hbelow : m.below ≤ 4 * m.mantissa := by
    unfold below
    split <;> omega
  have hle : (m.interval.lower : ℚ) ≤ m.interval.value := by
    rw [hlower, hvalue]
    exact mul_le_mul_of_nonneg_right (by exact_mod_cast hbelow) m.unit_pos.le
  exact_mod_cast hle

theorem value_lt_upper (m : Magnitude) : m.interval.value < m.interval.upper := by
  obtain ⟨-, -, hvalue, hupper⟩ := m.interval_eq
  have hlt : (m.interval.value : ℚ) < m.interval.upper := by
    rw [hvalue, hupper]
    exact mul_lt_mul_of_pos_right (by linarith) m.unit_pos
  exact_mod_cast hlt

theorem value_pos (hzero : m.mantissa ≠ 0) : 0 < m.interval.value := by
  have hmantissa : (0 : ℚ) < m.mantissa := by exact_mod_cast Nat.pos_of_ne_zero hzero
  have hpos : (0 : ℚ) < m.interval.value := by
    rw [m.interval_eq.2.2.1]
    exact mul_pos (by linarith) m.unit_pos
  exact_mod_cast hpos

theorem lt_width (hm : m.IsBinary64) (hzero : m.mantissa ≠ 0) :
    (m.interval.value : ℚ) < 10 ^ 16 * (m.interval.upper - m.interval.lower) := by
  obtain ⟨-, hlower, hvalue, hupper⟩ := m.interval_eq
  rw [hlower, hvalue, hupper, ← sub_mul, ← mul_assoc (10 ^ 16 : ℚ), mul_lt_mul_iff_of_pos_right m.unit_pos, below]
  cases hnarrow : m.narrowBelow with
  | true =>
    rw [hm.mantissa_eq hnarrow]
    norm_num
  | false =>
    have hbound : (m.mantissa : ℚ) < 2 ^ 53 := by exact_mod_cast hm.mantissa_lt
    have hcast : ((4 * m.mantissa - 2 : ℕ) : ℚ) = 4 * m.mantissa - 2 := by
      rw [Nat.cast_sub (by omega)]
      push_cast
      ring
    simp only [Bool.false_eq_true, if_false, hcast]
    linarith

theorem step_lt_width (hm : m.IsBinary64) (hzero : m.mantissa ≠ 0) :
    (10 : ℚ) ^ (pointPlace m.interval.value m.interval.den - (1 + 16 : ℕ)) * m.interval.den <
      m.interval.upper - m.interval.lower := by
  have hpoint := pow_pointPlace_le (value_pos hzero) m.interval_eq.1
  generalize pointPlace m.interval.value m.interval.den = place at *
  have hsplit : (10 : ℚ) ^ (place - 1) = 10 ^ (place - (1 + 16 : ℕ)) * 10 ^ 16 := by
    rw [← zpow_natCast, ← zpow_add₀ (by norm_num)]
    congr 1
    push_cast
    ring
  rw [hsplit] at hpoint
  have hwidth := lt_width hm hzero
  linarith

theorem exists_nearest? (tie : Tie) (hm : m.IsBinary64) (hzero : m.mantissa ≠ 0) :
    ∃ c, m.interval.nearest? tie
      (.ofExponent (pointPlace m.interval.value m.interval.den - (1 + 16 : ℕ))) = some c := by
  refine RoundingInterval.exists_nearest? tie m.lower_le_value m.value_lt_upper (Grid.down_pos _)
    (Nat.mul_pos (Grid.up_pos _) m.interval_eq.1) ?_
  have hstep := step_lt_width hm hzero
  generalize pointPlace m.interval.value m.interval.den - (1 + 16 : ℕ) = e at *
  have hdown : (0 : ℚ) < (Grid.ofExponent e).down := by exact_mod_cast Grid.down_pos e
  have hwidth : ((Grid.ofExponent e).up * m.interval.den + m.interval.lower * (Grid.ofExponent e).down : ℚ) <
      m.interval.upper * (Grid.ofExponent e).down := by
    rw [Grid.up_eq]
    have hscaled := mul_lt_mul_of_pos_right hstep hdown
    linarith
  exact_mod_cast hwidth

/-- **The shortest decimal of a number is at most half as far from it as the next larger number is.** -/
theorem shortest_near (tie : Tie) (hm : m.IsBinary64) (hzero : m.mantissa ≠ 0) :
    |(m.shortest tie).value - m.value| ≤ 2 * m.quarter := by
  obtain ⟨hden, hlower, -, hupper⟩ := m.interval_eq
  rw [shortest, if_neg hzero, Scientific.value_strip, Scientific.value, value_eq, abs_le]
  obtain ⟨hle, hge⟩ := RoundingInterval.le_of_holds
    (RoundingInterval.holds_search ⟨16, Nat.lt_succ_self 16, exists_nearest? tie hm hzero⟩)
  have hden' : (0 : ℚ) < m.interval.den := by exact_mod_cast hden
  rw [hlower, ← mul_assoc, mul_le_mul_iff_of_pos_right hden'] at hle
  rw [hupper, ← mul_assoc, mul_le_mul_iff_of_pos_right hden'] at hge
  have hbelow : (4 * m.mantissa - 2 : ℚ) ≤ m.below := by
    have : 4 * m.mantissa ≤ m.below + 2 := by
      unfold below
      split <;> omega
    have : (4 * m.mantissa : ℚ) ≤ m.below + 2 := by exact_mod_cast this
    linarith
  have hle' := (mul_le_mul_of_nonneg_right hbelow m.quarter_pos.le).trans hle
  constructor <;> linarith

end Magnitude

end BlockGraph.Decimal
