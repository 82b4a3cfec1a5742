import BlockGraph.Decimal.Binary

/-!
# The fewest digits that read back

A decimal stands for a binary64 number when it lies in the interval of reals that round to it.
`Magnitude.shortest` finds the decimal with the fewest digits in that interval, and among those the
nearest to the number: for one digit, two digits and so on it looks at the two neighbours of the number
on the grid of that many digits and takes the first grid on which a neighbour lies in the interval. A
number half way between two neighbours goes to the one that its `Tie` says.
-/

namespace BlockGraph.Decimal

/-- The decimal `digits * 10 ^ exponent`. -/
structure Scientific where
  digits : Nat
  exponent : Int
deriving Repr, DecidableEq

/-- Where a number goes that is half way between two decimals. -/
inductive Tie where
  /-- To the decimal with an even last digit. -/
  | even
  /-- To the larger magnitude. -/
  | away
deriving Repr, DecidableEq

/-- The one of two successive integers that a tie goes to. -/
def Tie.choose (t : Tie) (below : Nat) : Nat :=
  match t with
  | .even => if below % 2 = 0 then below else below + 1
  | .away => below + 1

/-- The number of decimal digits of an integer; zero has one. -/
def digitCount (n : Nat) : Nat := (Nat.toDigits 10 n).length

/-- The place `k` of the decimal point of `num / den`: `10 ^ (k - 1) ≤ num / den < 10 ^ k`. -/
def pointPlace (num den : Nat) : Int :=
  if num ≥ den then
    digitCount (num / den)
  else
    let d := digitCount (den / num)
    if num * Nat.pow 10 (d - 1) = den then 2 - (d : Int) else 1 - (d : Int)

/-- The reals that round to `value / den`, as numerators over the common denominator `den`. The ends
belong to the interval exactly when `closed` is set. -/
structure RoundingInterval where
  lower : Nat
  value : Nat
  upper : Nat
  den : Nat
  closed : Bool
deriving Repr, DecidableEq

/-- The rounding interval of a magnitude: half way to each neighbour, with the ends included for an even
mantissa. -/
def Magnitude.interval (m : Magnitude) : RoundingInterval :=
  let lower := if m.narrowBelow then 4 * m.mantissa - 1 else 4 * m.mantissa - 2
  let closed := m.mantissa % 2 == 0
  let scale := m.exponent - 2
  if scale ≥ 0 then
    let unit := Nat.pow 2 scale.toNat
    ⟨lower * unit, 4 * m.mantissa * unit, (4 * m.mantissa + 2) * unit, 1, closed⟩
  else
    ⟨lower, 4 * m.mantissa, 4 * m.mantissa + 2, Nat.pow 2 (-scale).toNat, closed⟩

/-- A decimal grid: the multiples of `up / down`. -/
structure Grid where
  up : Nat
  down : Nat
deriving Repr, DecidableEq

/-- The multiples of `10 ^ e`. -/
def Grid.ofExponent (e : Int) : Grid :=
  if e ≥ 0 then ⟨Nat.pow 10 e.toNat, 1⟩ else ⟨1, Nat.pow 10 (-e).toNat⟩

/-- Whether the `c`-th point of a grid lies in the interval. -/
def RoundingInterval.holds (i : RoundingInterval) (g : Grid) (c : Nat) : Bool :=
  let p := c * g.up * i.den
  let lower := i.lower * g.down
  let upper := i.upper * g.down
  if i.closed then lower ≤ p && p ≤ upper else lower < p && p < upper

/-- The point of a grid that lies in the interval and is nearest to its value, if any. -/
def RoundingInterval.nearest? (i : RoundingInterval) (tie : Tie) (g : Grid) : Option Nat :=
  let below := i.value * g.down / (g.up * i.den)
  let above := below + 1
  match i.holds g below, i.holds g above with
  | true, true =>
    let rest := i.value * g.down - below * g.up * i.den
    let step := g.up * i.den
    if 2 * rest < step then some below
    else if 2 * rest > step then some above
    else some (tie.choose below)
  | true, false => some below
  | false, true => some above
  | false, false => none

/-- Searches the grids of `n`, `n + 1`, … digits, at most `fuel` of them. -/
def RoundingInterval.search (i : RoundingInterval) (tie : Tie) (place : Int) : Nat → Nat → Scientific
  | 0, _ => ⟨0, 0⟩
  | fuel + 1, n =>
    let e := place - n
    match i.nearest? tie (Grid.ofExponent e) with
    | some c => ⟨c, e⟩
    | none => i.search tie place fuel (n + 1)

/-- Moves trailing zeros from the digits into the exponent, at most `fuel` of them. -/
def Scientific.strip : Nat → Scientific → Scientific
  | 0, s => s
  | fuel + 1, s =>
    if s.digits ≠ 0 ∧ s.digits % 10 = 0 then strip fuel ⟨s.digits / 10, s.exponent + 1⟩ else s

/-- The decimal with the fewest digits that reads back as the magnitude, and the nearest of those. -/
def Magnitude.shortest (m : Magnitude) (tie : Tie) : Scientific :=
  if m.mantissa = 0 then ⟨0, 0⟩
  else
    let i := m.interval
    -- seventeen digits always suffice
    (i.search tie (pointPlace i.value i.den) 17 1).strip 17

end BlockGraph.Decimal
