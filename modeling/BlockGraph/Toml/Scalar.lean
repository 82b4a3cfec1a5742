import BlockGraph.Toml.Word

/-!
# Numbers and moments of TOML

The settings of the program hold no numbers and no moments, so a text is only checked to spell one: each
function returns what follows it, or `none`.
-/

namespace BlockGraph.Toml

/-- A digit of a base up to sixteen. -/
def digitOf? (base : Nat) (c : Char) : Option Nat := (hexDigit? c).filter (· < base)

/-- Digits of a base, with single underscores between them, and what follows them. -/
def spanDigits (base : Nat) : List Char → List Nat × List Char
  | [] => ([], [])
  | c :: rest =>
    match digitOf? base c with
    | some d => let (ds, after) := spanDigits base rest; (d :: ds, after)
    | none =>
      match c, rest with
      | '_', d :: rest =>
        match digitOf? base d with
        | some n => let (ds, after) := spanDigits base rest; (n :: ds, after)
        | none => ([], c :: d :: rest)
      | c, rest => ([], c :: rest)

/-- At least one digit, the first of them without an underscore before it. -/
def scanDigits (base : Nat) : Scan (List Nat)
  | '_' :: _ => none
  | cs =>
    match spanDigits base cs with
    | ([], _) => none
    | found => some found

/-- The number that digits stand for. -/
def digitsValue (base : Nat) (ds : List Nat) : Nat := ds.foldl (base * · + ·) 0

/-- A sign, and whether it is a minus. -/
def scanSign : List Char → Bool × List Char
  | '-' :: rest => (true, rest)
  | '+' :: rest => (false, rest)
  | cs => (false, cs)

/-- Decimal digits without a leading zero. -/
def scanWhole (cs : List Char) : Option (List Nat × List Char) :=
  match cs with
  | '0' :: rest => some ([0], rest)
  | cs => scanDigits 10 cs

/-- The text after an integer of 64 bits. -/
def afterInteger? : List Char → Option (List Char)
  | '0' :: 'x' :: rest => bounded 16 rest
  | '0' :: 'o' :: rest => bounded 8 rest
  | '0' :: 'b' :: rest => bounded 2 rest
  | cs =>
    let (negative, cs) := scanSign cs
    match scanWhole cs with
    | none => none
    | some (ds, rest) =>
      if digitsValue 10 ds < Nat.pow 2 63 + (if negative then 1 else 0) then some rest else none
where
  /-- Digits of a number below `2 ^ 63`. -/
  bounded (base : Nat) (cs : List Char) : Option (List Char) :=
    match scanDigits base cs with
    | none => none
    | some (ds, rest) => if digitsValue base ds < Nat.pow 2 63 then some rest else none

/-- Whether `n * 10 ^ e` is too large for a binary64 number. Far from the bound the number of digits
decides. -/
def isHuge (n : Nat) (e : Int) : Bool :=
  let size := (Nat.toDigits 10 n).length + e
  if n = 0 ∨ size < 300 then false
  else if 320 < size then true
  else decide ((Nat.pow 2 1024 - Nat.pow 2 970) * Nat.pow 10 (-e).toNat ≤ n * Nat.pow 10 e.toNat)

def scanExponent : Scan Int
  | c :: rest =>
    if c == 'e' || c == 'E' then
      let (negative, rest) := scanSign rest
      (scanDigits 10 rest).map fun (ds, rest) =>
        (if negative then -(digitsValue 10 ds : Int) else digitsValue 10 ds, rest)
    else none
  | [] => none

/-- The text after a number with a fraction, an exponent or both. A positive number has to be finite. -/
def afterFloat? (cs : List Char) : Option (List Char) := do
  let (negative, cs) := scanSign cs
  let (ds, rest) ← scanWhole cs
  let (fraction, rest) ←
    match rest with
    | '.' :: rest => scanDigits 10 rest
    | rest => some ([], rest)
  let (e, rest) ←
    match scanExponent rest with
    | some found => some found
    | none => if fraction.isEmpty then none else some (0, rest)
  if !negative && isHuge (digitsValue 10 (ds ++ fraction)) (e - fraction.length) then none
  else some rest

def afterSpecial? (cs : List Char) : Option (List Char) :=
  match (scanSign cs).2 with
  | 'i' :: 'n' :: 'f' :: rest => some rest
  | 'n' :: 'a' :: 'n' :: rest => some rest
  | _ => none

/-- A number of so many decimal digits between two bounds. -/
def scanField (size least most : Nat) : Scan Nat := fun cs =>
  let digits := cs.take size
  if digits.length = size ∧ digits.all Char.isDigit then
    let n := digits.foldl (fun n c => 10 * n + (c.toNat - '0'.toNat)) 0
    if least ≤ n ∧ n ≤ most then some (n, cs.drop size) else none
  else none

def after? (c : Char) : List Char → Option (List Char)
  | d :: rest => if d = c then some rest else none
  | [] => none

def daysOf (year month : Nat) : Nat :=
  if month = 2 then (if year % 4 = 0 ∧ (year % 100 ≠ 0 ∨ year % 400 = 0) then 29 else 28)
  else if month = 4 ∨ month = 6 ∨ month = 9 ∨ month = 11 then 30
  else 31

def afterDate? (cs : List Char) : Option (List Char) := do
  let (year, cs) ← scanField 4 0 9999 cs
  let (month, cs) ← scanField 2 1 12 (← after? '-' cs)
  let (_, cs) ← scanField 2 1 (daysOf year month) (← after? '-' cs)
  return cs

def afterTime? (cs : List Char) : Option (List Char) := do
  let (_, cs) ← scanField 2 0 23 cs
  let (_, cs) ← scanField 2 0 59 (← after? ':' cs)
  let (_, cs) ← scanField 2 0 60 (← after? ':' cs)
  match cs with
  | '.' :: d :: rest => if d.isDigit then return rest.dropWhile Char.isDigit else return cs
  | cs => return cs

/-- The text after the offset of a time, if there is one. -/
def afterOffset (cs : List Char) : List Char :=
  match cs with
  | 'Z' :: rest => rest
  | 'z' :: rest => rest
  | c :: rest =>
    if c == '+' || c == '-' then
      (do let (_, cs) ← scanField 2 0 23 rest
          let (_, cs) ← scanField 2 0 59 (← after? ':' cs)
          return cs).getD (c :: rest)
    else c :: rest
  | [] => []

/-- The text after a date, a time, or both. -/
def afterMoment? (cs : List Char) : Option (List Char) :=
  match afterDate? cs with
  | none => afterTime? cs
  | some rest =>
    match rest with
    | c :: time =>
      if c == 'T' || c == 't' || c == ' ' then some (((afterTime? time).map afterOffset).getD rest) else some rest
    | [] => some []

end BlockGraph.Toml
