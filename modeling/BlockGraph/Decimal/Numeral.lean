/-!
# Reading numerals

A numeral is read in 64-bit and binary64 arithmetic: its digits are collected while they fit into 64
bits, and the collected integer is then scaled by a power of ten with one rounding. Whole digits that do
not fit count as powers of ten; fraction digits that do not fit are dropped. A numeral with neither
fraction nor exponent that fits into 64 bits stays an integer.
-/

namespace BlockGraph.Decimal

/-- A number read from text: an integer of at most 64 bits, or a binary64 number. -/
inductive Number where
  | int (i : Int)
  | float (x : Float)

/-- The number as a binary64 number, rounded to nearest. -/
def Number.toFloat : Number → Float
  | .int i => if i < 0 then -(UInt64.ofNat i.natAbs).toFloat else (UInt64.ofNat i.natAbs).toFloat
  | .float x => x

/-- The parts of a written number. Digits are integers below ten. -/
structure Numeral where
  negative : Bool
  whole : List Nat
  fraction : Option (List Nat)
  exponent : Option (Bool × List Nat)
deriving Repr, DecidableEq

/-- An integer below `2 ^ 64` and the count of digits that it took in, or left out. -/
structure Significand where
  value : Nat
  count : Nat
  full : Bool
deriving Repr, DecidableEq

/-- Takes in a whole digit; `count` counts the digits left out. -/
def Significand.pushWhole (s : Significand) (d : Nat) : Significand :=
  if s.full || s.value * 10 + d ≥ Nat.pow 2 64 then { s with count := s.count + 1, full := true }
  else { s with value := s.value * 10 + d }

/-- Takes in a fraction digit; `count` counts the digits taken in. -/
def Significand.pushFraction (s : Significand) (d : Nat) : Significand :=
  if s.full || s.value * 10 + d ≥ Nat.pow 2 64 then { s with full := true }
  else { s with value := s.value * 10 + d, count := s.count + 1 }

def powerOfTen (e : Nat) : Float := Float.ofScientific 1 false e

/-- Divides by `10 ^ e`, by at most `10 ^ 308` at a time. -/
def scaleDown (x : Float) (e : Nat) : Float :=
  if e ≤ 308 then x / powerOfTen e
  else if x == 0 then x
  else scaleDown (x / powerOfTen 308) (e - 308)
termination_by e

/-- The binary64 number `significand * 10 ^ e`, or nothing when it is out of range. -/
def scale (significand : Nat) (e : Int) : Option Float :=
  let x := (UInt64.ofNat significand).toFloat
  if e < 0 then some (scaleDown x (-e).toNat)
  else if e > 308 then if significand = 0 then some x else none
  else
    let y := x * powerOfTen e.toNat
    if y.isInf then none else some y

/-- The integer of a list of digits, stopping with nothing once it exceeds `bound`. -/
def boundedNat (bound : Nat) (digits : List Nat) : Option Nat :=
  digits.foldlM (fun n d => if n * 10 + d > bound then none else some (n * 10 + d)) 0

/-- The largest exponent that is computed with. -/
def exponentBound : Nat := Nat.pow 2 31 - 1

/-- The number that a numeral stands for, or nothing when it is out of range. -/
def Numeral.read (n : Numeral) : Option Number :=
  let whole := n.whole.foldl Significand.pushWhole ⟨0, 0, false⟩
  let signed (x : Float) : Number := .float (if n.negative then -x else x)
  let scaled (significand : Nat) (e : Int) : Option Number :=
    match n.exponent with
    | none => (scale significand e).map signed
    | some (negativeExponent, digits) =>
      match boundedNat exponentBound digits with
      | none => if significand = 0 || negativeExponent then some (signed 0) else none
      | some k => (scale significand (if negativeExponent then e - k else e + k)).map signed
  match n.fraction, n.exponent with
  | none, none =>
    if whole.full then scaled whole.value whole.count
    else if !n.negative then some (.int whole.value)
    else if whole.value = 0 ∨ whole.value > Nat.pow 2 63 then some (signed (UInt64.ofNat whole.value).toFloat)
    else some (.int (-(whole.value : Int)))
  | none, some _ => scaled whole.value whole.count
  | some digits, _ =>
    let all := digits.foldl Significand.pushFraction ⟨whole.value, 0, false⟩
    scaled all.value ((whole.count : Int) - all.count)

end BlockGraph.Decimal
