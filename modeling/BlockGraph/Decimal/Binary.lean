/-!
# Binary64 numbers as exact integers

`Binary.ofFloat` reads the bits of a number into an exact form: a nonnegative integer times a power of
two, with its sign. Everything printed about a number is computed from this form in integer arithmetic,
so no printed digit depends on a rounding step.
-/

namespace BlockGraph.Decimal

/-- A finite nonnegative binary64 magnitude `mantissa * 2 ^ exponent`. `narrowBelow` says that the next
smaller number is only half as far away as the next larger one, which happens at powers of two. -/
structure Magnitude where
  mantissa : Nat
  exponent : Int
  narrowBelow : Bool
deriving Repr, DecidableEq

/-- The exact content of a binary64 number. -/
inductive Binary where
  | nan
  | infinite (negative : Bool)
  | finite (negative : Bool) (magnitude : Magnitude)
deriving Repr, DecidableEq

/-- Splits the 64 bits of a number into sign, scale and fraction. -/
def Binary.ofBits (bits : UInt64) : Binary :=
  let n := bits.toNat
  let negative := n / Nat.pow 2 63 == 1
  let scale : Nat := n / Nat.pow 2 52 % Nat.pow 2 11
  let fraction := n % Nat.pow 2 52
  if scale = 2047 then
    if fraction = 0 then .infinite negative else .nan
  else if scale = 0 then
    .finite negative ⟨fraction, -1074, false⟩
  else
    .finite negative ⟨Nat.pow 2 52 + fraction, (scale : Int) - 1075, fraction == 0 && scale > 1⟩

def Binary.ofFloat (x : Float) : Binary := .ofBits x.toBits

/-- The magnitude as an integer, if it is one. -/
def Magnitude.whole? (m : Magnitude) : Option Nat :=
  if m.exponent ≥ 0 then
    some (m.mantissa * Nat.pow 2 m.exponent.toNat)
  else
    let unit := Nat.pow 2 (-m.exponent).toNat
    if m.mantissa % unit = 0 then some (m.mantissa / unit) else none

/-- The number as an exact integer, if it is one. Both zeros are the integer zero. -/
def Binary.whole? : Binary → Option Int
  | .finite negative m => m.whole?.map fun n => if negative then -(n : Int) else n
  | _ => none

end BlockGraph.Decimal
