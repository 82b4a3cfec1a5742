import BlockGraph.Decimal.Shortest

/-!
# Number texts

A `Layout` holds the decisions of one way to write a number: which numbers are written positionally,
whether a whole number keeps a fraction digit, how an exponent is written, which way ties go, and the
words for what is not a number. `Layout.write` applies it to the shortest digits.
-/

namespace BlockGraph.Decimal

/-- How numbers are written. -/
structure Layout where
  /-- The places of the decimal point that are written positionally, `none` for all of them. -/
  positional : Option (Int × Int)
  /-- Whole numbers end in `.0`. -/
  keepFraction : Bool
  /-- A positive exponent has a plus sign. -/
  signedExponent : Bool
  /-- Where a number goes that is half way between two decimals of the fewest digits. -/
  tie : Tie
  nan : String
  infinite : String
  negativeInfinite : String
deriving Repr, DecidableEq

/-- The layout of diagnostics: positional from `0.0001` up to `10 ^ 16`. -/
def Layout.precise : Layout :=
  { positional := some (-3, 16), keepFraction := true, signedExponent := false, tie := .away,
    nan := "NaN", infinite := "inf", negativeInfinite := "-inf" }

/-- The layout of values shown to people: always positional, with no fraction for whole numbers. -/
def Layout.plain : Layout :=
  { positional := none, keepFraction := false, signedExponent := false, tie := .away,
    nan := "NaN", infinite := "inf", negativeInfinite := "-inf" }

/-- The layout of numbers in documents: positional from `0.00001` up to `10 ^ 16`. What is not a number
is `null`. -/
def Layout.document : Layout :=
  { positional := some (-4, 16), keepFraction := true, signedExponent := true, tie := .even,
    nan := "null", infinite := "null", negativeInfinite := "null" }

def digitChars (n : Nat) : List Char := Nat.toDigits 10 n

/-- Writes digits around a decimal point at `place`: `place` digits stand before it. -/
def Layout.writePositional (l : Layout) (digits : List Char) (place : Int) : List Char :=
  if place ≤ 0 then
    '0' :: '.' :: (List.replicate (-place).toNat '0' ++ digits)
  else
    let n := place.toNat
    if digits.length ≤ n then
      digits ++ List.replicate (n - digits.length) '0' ++ (if l.keepFraction then ['.', '0'] else [])
    else
      digits.take n ++ '.' :: digits.drop n

/-- Writes digits as one digit, a fraction and an exponent. -/
def Layout.writeScientific (l : Layout) (digits : List Char) (place : Int) : List Char :=
  let e := place - 1
  let exponent :=
    if e < 0 then '-' :: digitChars (-e).toNat
    else (if l.signedExponent then ['+'] else []) ++ digitChars e.toNat
  let fraction := digits.drop 1
  digits.take 1 ++ (if fraction.isEmpty then [] else '.' :: fraction) ++ 'e' :: exponent

def Layout.writeMagnitude (l : Layout) (s : Scientific) : List Char :=
  let digits := digitChars s.digits
  let place := s.exponent + digits.length
  match l.positional with
  | none => l.writePositional digits place
  | some (least, most) =>
    if s.digits = 0 ∨ (least ≤ place ∧ place ≤ most) then l.writePositional digits place
    else l.writeScientific digits place

/-- The text of a number with the fewest digits that read back. -/
def Layout.write (l : Layout) (x : Float) : String :=
  match Binary.ofFloat x with
  | .nan => l.nan
  | .infinite false => l.infinite
  | .infinite true => l.negativeInfinite
  | .finite negative m =>
    let text := l.writeMagnitude (m.shortest l.tie)
    String.ofList (if negative then '-' :: text else text)

/-- The text of a number as people read it: an exact integer if it is one, otherwise positional. -/
def display (x : Float) : String :=
  match (Binary.ofFloat x).whole? with
  | some i => if i < 0 then "-" ++ String.ofList (digitChars i.natAbs) else String.ofList (digitChars i.natAbs)
  | none => Layout.plain.write x

end BlockGraph.Decimal
