import BlockGraph.Decimal.Numeral

/-!
# Documents as they are met by a reader

A reader goes through a text once, from left to right, and reports the first problem it meets, be it in
the text or in the shape of what the text says. `Doc.parse` turns any text, well formed or not, into a
document in which the place where the text stops being JSON is marked by a fault; a reader then meets a
fault exactly when it comes to it.

A part of a text may be read or skipped. Skipping is more lenient: a number may be out of range and an
escape may name half of a surrogate pair. So texts and numbers carry the outcome of reading them beside
the outcome of skipping them.
-/

namespace BlockGraph.Json

/-- How a text stops being JSON. -/
inductive Fault where
  /-- Something stands where it may not stand. -/
  | malformed
  /-- The text ends too early. -/
  | truncated
deriving Repr, DecidableEq

/-- The key of a member: what reading it gives, and how skipping it fails if it does. Only a text may be
a key, so anything else is a fault either way. -/
structure Key where
  value : Except Fault String
  cut : Option Fault

/-- What is no key. -/
def Key.fault (f : Fault) : Key := ⟨.error f, some f⟩

/-- A document, as far as its text is JSON. -/
inductive Doc where
  /-- No value starts here. -/
  | missing (fault : Fault)
  /-- A word starts here and is not spelt out. -/
  | misspelt (fault : Fault)
  | null
  | bool (b : Bool)
  /-- A number: what reading it gives, and how skipping it fails if it does. -/
  | number (value : Except Fault Decimal.Number) (cut : Option Fault)
  /-- A text: what reading it gives, and how skipping it fails if it does. -/
  | text (value : Except Fault String) (cut : Option Fault)
  /-- Items, and the fault that stands where a comma or the closing bracket should. -/
  | array (items : List Doc) (ending : Option Fault)
  /-- Members, and the fault that stands where a comma or the closing bracket should. -/
  | object (members : List (Key × Doc)) (ending : Option Fault)

/-- Whether the character may stand between the parts of a document. -/
def isBlank (c : Char) : Bool := c == ' ' || c == '\n' || c == '\t' || c == '\r'

/-- The text from its first character that is not blank. -/
def skipBlanks (cs : List Char) : List Char := cs.dropWhile isBlank

def hexValue? (c : Char) : Option Nat :=
  let n := c.toNat
  if 0x30 ≤ n ∧ n ≤ 0x39 then some (n - 0x30)
  else if 0x61 ≤ n ∧ n ≤ 0x66 then some (n - 0x57)
  else if 0x41 ≤ n ∧ n ≤ 0x46 then some (n - 0x37)
  else none

def hexValue4? (a b c d : Char) : Option Nat :=
  match hexValue? a, hexValue? b, hexValue? c, hexValue? d with
  | some a, some b, some c, some d => some (((a * 16 + b) * 16 + c) * 16 + d)
  | _, _, _, _ => none

/-- The fault of a code escape whose four digits are not there: the text ends too early if fewer than
four bytes are left. -/
def codeFault (rest : List Char) : Fault :=
  if (rest.take 4).foldr (fun c n => c.utf8Size + n) 0 < 4 then .truncated else .malformed

/-- The character of a one-letter escape. -/
def simpleEscape? (c : Char) : Option Char :=
  if c = '\x22' then some '\x22'
  else if c = '\\' then some '\\'
  else if c = '/' then some '/'
  else if c = 'b' then some '\x08'
  else if c = 'f' then some '\x0c'
  else if c = 'n' then some '\n'
  else if c = 'r' then some '\r'
  else if c = 't' then some '\t'
  else none

/-- The two outcomes for a text: its characters when read, and what follows it when skipped. -/
structure TextScan where
  value : Except Fault (List Char)
  rest : Except Fault (List Char)

/-- Both outcomes fail. -/
def TextScan.fail (f : Fault) : TextScan := ⟨.error f, .error f⟩

/-- Reading fails here, while skipping goes on. -/
def TextScan.failRead (f : Fault) (s : TextScan) : TextScan := ⟨.error f, s.rest⟩

/-- Reading finds a character here. -/
def TextScan.push (c : Char) (s : TextScan) : TextScan := ⟨s.value.map (c :: ·), s.rest⟩

/-- The character of a surrogate pair. -/
def pairChar (high low : Nat) : Char := Char.ofNat (0x10000 + (high - 0xd800) * 0x400 + (low - 0xdc00))

/-- Reading fails if the first half of a surrogate pair stands open. -/
def TextScan.settle (s : TextScan) (pending : Option Nat) : TextScan :=
  if pending.isSome then s.failRead .malformed else s

/-- Goes through a text after its opening quote. `pending` is the first half of a surrogate pair that
was just read. -/
def scanText (pending : Option Nat) : List Char → TextScan
  | [] => .fail .truncated
  | '\\' :: 'u' :: a :: b :: c :: d :: rest =>
    match hexValue4? a b c d with
    | none => .fail .malformed
    | some code =>
      -- the second half of a pair has to follow the first at once
      if 0xdc00 ≤ code ∧ code ≤ 0xdfff then
        match pending with
        | some high => (scanText none rest).push (pairChar high code)
        | none => (scanText none rest).failRead .malformed
      else if 0xd800 ≤ code ∧ code ≤ 0xdbff then (scanText (some code) rest).settle pending
      else ((scanText none rest).push (Char.ofNat code)).settle pending
  | '\\' :: 'u' :: short => .fail (codeFault short)
  | ['\\'] => .fail .truncated
  | '\\' :: c :: rest =>
    match simpleEscape? c with
    | none => .fail .malformed
    | some e => ((scanText none rest).push e).settle pending
  | c :: rest =>
    if c = '\x22' then (TextScan.mk (.ok []) (.ok rest)).settle pending
    else if c.toNat < 0x20 then .fail .malformed
    else ((scanText none rest).push c).settle pending

def leadingDigits (cs : List Char) : List Nat := (cs.takeWhile Char.isDigit).map fun c => c.toNat - 0x30

def afterDigits (cs : List Char) : List Char := cs.dropWhile Char.isDigit

/-- The fault of a number whose next digit is missing. -/
def digitFault : List Char → Fault
  | [] => .truncated
  | _ => .malformed

/-- The exponent at the start of a text, if there is one, and what follows. -/
def scanExponent (cs : List Char) : Except Fault (Option (Bool × List Nat) × List Char) :=
  match cs with
  | c :: rest =>
    if c = 'e' ∨ c = 'E' then
      let (negative, rest) := match rest with
        | '+' :: r => (false, r)
        | '-' :: r => (true, r)
        | r => (false, r)
      if (leadingDigits rest).isEmpty then .error (digitFault rest)
      else .ok (some (negative, leadingDigits rest), afterDigits rest)
    else .ok (none, cs)
  | [] => .ok (none, cs)

/-- The fraction at the start of a text, if there is one, and what follows. -/
def scanFraction (cs : List Char) : Except Fault (Option (List Nat) × List Char) :=
  match cs with
  | '.' :: rest =>
    if (leadingDigits rest).isEmpty then .error (digitFault rest)
    else .ok (some (leadingDigits rest), afterDigits rest)
  | _ => .ok (none, cs)

/-- The whole part at the start of a text and what follows. It has no leading zero. -/
def scanWhole (cs : List Char) : Except Fault (List Nat × List Char) :=
  match leadingDigits cs with
  | [] => .error (digitFault cs)
  | [d] => .ok ([d], afterDigits cs)
  | d :: ds => if d = 0 then .error .malformed else .ok (d :: ds, afterDigits cs)

/-- The numeral at the start of a text and what follows. -/
def scanNumeral (negative : Bool) (cs : List Char) : Except Fault (Decimal.Numeral × List Char) := do
  let (whole, cs) ← scanWhole cs
  let (fraction, cs) ← scanFraction cs
  let (exponent, cs) ← scanExponent cs
  return (⟨negative, whole, fraction, exponent⟩, cs)

/-- What was parsed at the start of a text, and what follows unless the text stops being JSON there. -/
abbrev Parsed (α : Type) := α × Option (List Char)

/-- The rest of a word. -/
def parseWord (d : Doc) : List Char → List Char → Parsed Doc
  | [], rest => (d, some rest)
  | _ :: _, [] => (.misspelt .truncated, none)
  | e :: es, c :: rest => if c = e then parseWord d es rest else (.misspelt .malformed, none)

/-- A number, after its sign. -/
def parseNumber (negative : Bool) (cs : List Char) : Parsed Doc :=
  match scanNumeral negative cs with
  | .error f => (.number (.error f) (some .malformed), none)
  | .ok (n, rest) => (.number (n.read.elim (.error .malformed) .ok) none, some rest)

/-- A text, after its opening quote, given what is made of the outcomes of reading and skipping it. -/
def parseText {α : Type} (make : Except Fault String → Option Fault → α) (cs : List Char) : Parsed α :=
  let s := scanText none cs
  let value := s.value.map String.ofList
  match s.rest with
  | .error f => (make value (some f), none)
  | .ok rest => (make value none, some rest)

def parseKey (cs : List Char) : Parsed Key :=
  match skipBlanks cs with
  | [] => (.fault .truncated, none)
  | c :: rest => if c = '\x22' then parseText Key.mk rest else (.fault .malformed, none)

mutual

/-- The document at the start of a text. The first argument bounds the number of steps. -/
def parseDoc : Nat → List Char → Parsed Doc
  | 0, _ => (.missing .truncated, none)
  | fuel + 1, cs =>
    match skipBlanks cs with
    | [] => (.missing .truncated, none)
    | c :: rest =>
      if c = 'n' then parseWord .null ['u', 'l', 'l'] rest
      else if c = 't' then parseWord (.bool true) ['r', 'u', 'e'] rest
      else if c = 'f' then parseWord (.bool false) ['a', 'l', 's', 'e'] rest
      else if c = '-' then parseNumber true rest
      else if c.isDigit then parseNumber false (c :: rest)
      else if c = '\x22' then parseText Doc.text rest
      else if c = '[' then
        match skipBlanks rest with
        | [] => (.array [] (some .truncated), none)
        | ']' :: rest => (.array [] none, some rest)
        | _ =>
          let ((items, ending), rest) := parseItems fuel rest
          (.array items ending, rest)
      else if c = '\x7b' then
        match skipBlanks rest with
        | [] => (.object [] (some .truncated), none)
        | '\x7d' :: rest => (.object [] none, some rest)
        | _ =>
          let ((members, ending), rest) := parseMembers fuel rest
          (.object members ending, rest)
      else (.missing .malformed, none)

/-- The items of an array up to its closing bracket. -/
def parseItems : Nat → List Char → Parsed (List Doc × Option Fault)
  | 0, _ => (([], some .truncated), none)
  | fuel + 1, cs =>
    match parseDoc fuel cs with
    | (d, none) => (([d], none), none)
    | (d, some rest) =>
      match skipBlanks rest with
      | [] => (([d], some .truncated), none)
      | ',' :: rest =>
        let ((items, ending), rest) := parseItems fuel rest
        ((d :: items, ending), rest)
      | ']' :: rest => (([d], none), some rest)
      | _ => (([d], some .malformed), none)

/-- The members of an object up to its closing bracket. -/
def parseMembers : Nat → List Char → Parsed (List (Key × Doc) × Option Fault)
  | 0, _ => (([], some .truncated), none)
  | fuel + 1, cs =>
    match parseKey cs with
    | (key, none) => (([(key, .missing .malformed)], none), none)
    | (key, some rest) =>
      match skipBlanks rest with
      | [] => (([(key, .missing .truncated)], none), none)
      | ':' :: rest =>
        match parseDoc fuel rest with
        | (d, none) => (([(key, d)], none), none)
        | (d, some rest) =>
          match skipBlanks rest with
          | [] => (([(key, d)], some .truncated), none)
          | ',' :: rest =>
            let ((members, ending), rest) := parseMembers fuel rest
            (((key, d) :: members, ending), rest)
          | '\x7d' :: rest => (([(key, d)], none), some rest)
          | _ => (([(key, d)], some .malformed), none)
      | _ => (([(key, .missing .malformed)], none), none)

end

/-- The document at the start of a text and what follows it. -/
def Doc.parse (cs : List Char) : Parsed Doc := parseDoc (2 * cs.length + 2) cs

mutual

/-- The fault met by skipping a document. -/
def Doc.skip : Doc → Except Fault Unit
  | .missing f => .error f
  | .misspelt f => .error f
  | .null => .ok ()
  | .bool _ => .ok ()
  | .number _ cut => cut.elim (.ok ()) .error
  | .text _ cut => cut.elim (.ok ()) .error
  | .array items ending => do skipItems items; ending.elim (.ok ()) .error
  | .object members ending => do skipMembers members; ending.elim (.ok ()) .error

def skipItems : List Doc → Except Fault Unit
  | [] => .ok ()
  | d :: rest => do d.skip; skipItems rest

def skipMembers : List (Key × Doc) → Except Fault Unit
  | [] => .ok ()
  | (key, d) :: rest => do key.cut.elim (.ok ()) .error; d.skip; skipMembers rest

end

end BlockGraph.Json
