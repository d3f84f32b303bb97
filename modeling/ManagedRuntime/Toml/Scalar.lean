import ManagedRuntime.Number.Literal
import ManagedRuntime.Toml.Lexical

/-!
# Numbers, truth values and times

* `integer` : an integer of 64 bits, in decimal or in another base after `0x`, `0o` or `0b`;
* `float` : a number with a fraction or a power of ten, or a word for one;
* `boolean` : `true` or `false`;
* `moment` : a date, a time of day, or both with or without an offset.
-/

namespace ManagedRuntime.Toml

set_option autoImplicit false

/-! ## Digits -/

/-- A digit, or an underscore in front of one. -/
def digitItem (isDigit : Char → Bool) : Reader Char
  | '_' :: c :: rest => if isDigit c then some (c, rest) else none
  | c :: rest => if isDigit c then some (c, rest) else none
  | [] => none

/-- Digits that underscores may separate. -/
def digitRun (isDigit : Char → Bool) : Reader (List Char)
  | c :: rest =>
    if isDigit c then
      let (more, rest) := Reader.many (digitItem isDigit) rest
      some (c :: more, rest)
    else none
  | [] => none

/-- A sign that is kept for the spelling of a number. -/
def signMark : List Char → List Char × List Char
  | '+' :: rest => (['+'], rest)
  | '-' :: rest => (['-'], rest)
  | rest => ([], rest)

/-- An optional sign and decimal digits, of which the first is zero only if it is the only one. -/
def decimalRun : Reader (List Char) := fun cs =>
  let (sign, rest) := signMark cs
  match rest with
  | '0' :: rest => some (sign ++ ['0'], rest)
  | rest => (digitRun Char.isDigit rest).map fun (digits, rest) => (sign ++ digits, rest)

/-! ## Integers -/

/-- An integer of 64 bits. -/
def bounded (i : Int) : Option Int := if -0x8000000000000000 ≤ i ∧ i < 0x8000000000000000 then some i else none

def isDigitOf (base : Nat) (c : Char) : Bool :=
  match hexValue? c with
  | some d => d < base
  | none => false

def baseInteger (base : Nat) : Reader Int := fun cs => do
  let (digits, rest) ← digitRun (isDigitOf base) cs
  let value := (digits.filterMap hexValue?).foldl (fun v d => base * v + d) 0
  return (← bounded value, rest)

def decimalInteger : Reader Int := fun cs => do
  let (digits, rest) ← decimalRun cs
  let (negative, body) := Decimal.splitSign digits
  return (← bounded (if negative then -(Decimal.value body : Int) else Decimal.value body), rest)

def integer : Reader Int
  | '0' :: 'x' :: rest => baseInteger 16 rest
  | '0' :: 'o' :: rest => baseInteger 8 rest
  | '0' :: 'b' :: rest => baseInteger 2 rest
  | cs => decimalInteger cs

/-! ## Floating-point numbers -/

def fractionRun : Reader (List Char)
  | '.' :: rest => (digitRun Char.isDigit rest).map fun (digits, rest) => ('.' :: digits, rest)
  | _ => none

def powerRun : Reader (List Char)
  | c :: rest =>
    if c = 'e' ∨ c = 'E' then
      let (sign, rest) := signMark rest
      (digitRun Char.isDigit rest).map fun (digits, rest) => ('e' :: sign ++ digits, rest)
    else none
  | [] => none

/-- A power of ten, or a fraction that a power of ten may follow. -/
def tailRun : Reader (List Char) := fun cs =>
  match fractionRun cs with
  | some (fraction, rest) =>
    match powerRun rest with
    | some (power, rest) => some (fraction ++ power, rest)
    | none => some (fraction, rest)
  | none => powerRun cs

/-- A number that rounds to positive infinity is refused. -/
def digitFloat : Reader Binary64 := fun cs => do
  let (whole, rest) ← decimalRun cs
  let (tail, rest) ← tailRun rest
  let x ← Literal.number? (whole ++ tail)
  if x.isInfinite && !x.isNegative then none else some (x, rest)

def wordFloat : Reader Binary64 := fun cs =>
  let (sign, rest) := signMark cs
  let negative := sign = ['-']
  match rest with
  | 'i' :: 'n' :: 'f' :: rest => some (.ofMagnitude negative Binary64.infinite, rest)
  | 'n' :: 'a' :: 'n' :: rest => some (.nan, rest)
  | _ => none

def float : Reader Binary64 := Reader.orElse digitFloat wordFloat

def boolean : Reader Bool
  | 't' :: 'r' :: 'u' :: 'e' :: rest => some (true, rest)
  | 'f' :: 'a' :: 'l' :: 's' :: 'e' :: rest => some (false, rest)
  | _ => none

/-! ## Dates and times -/

/-- A number in exactly `n` digits, between two bounds. -/
def field (n low high : Nat) : Reader Nat := fun cs =>
  let digits := cs.take n
  let value := Decimal.value digits
  if digits.length = n ∧ digits.all Char.isDigit ∧ low ≤ value ∧ value ≤ high then some (value, cs.drop n) else none

def mark (c : Char) : List Char → Option (List Char)
  | d :: rest => if c = d then some rest else none
  | [] => none

def isLeap (year : Nat) : Bool := year % 4 = 0 && (year % 100 ≠ 0 || year % 400 = 0)

def daysOf (year month : Nat) : Nat :=
  if month = 2 then if isLeap year then 29 else 28
  else if month ∈ [4, 6, 9, 11] then 30 else 31

/-- The rest after a date that the calendar has. -/
def date (cs : List Char) : Option (List Char) := do
  let (year, cs) ← field 4 0 9999 cs
  let (month, cs) ← field 2 1 12 (← mark '-' cs)
  let (_, cs) ← field 2 1 (daysOf year month) (← mark '-' cs)
  return cs

/-- Seconds may have a fraction. -/
def secondFraction (cs : List Char) : List Char :=
  match cs with
  | '.' :: c :: rest => if c.isDigit then rest.dropWhile Char.isDigit else cs
  | _ => cs

/-- The rest after a time of day; a minute may have a leap second. -/
def timeOfDay (cs : List Char) : Option (List Char) := do
  let (_, cs) ← field 2 0 23 cs
  let (_, cs) ← field 2 0 59 (← mark ':' cs)
  let (_, cs) ← field 2 0 60 (← mark ':' cs)
  return secondFraction cs

/-- The rest after an offset from universal time. -/
def offset : List Char → Option (List Char)
  | c :: cs =>
    if c = 'Z' ∨ c = 'z' then some cs
    else if c = '+' ∨ c = '-' then do
      let (_, cs) ← field 2 0 23 cs
      let (_, cs) ← field 2 0 59 (← mark ':' cs)
      return cs
    else none
  | [] => none

/-- The rest after the time of day that belongs to a date. -/
def timeOfDate : List Char → Option (List Char)
  | c :: cs =>
    if c = 'T' ∨ c = 't' ∨ c = ' ' then (timeOfDay cs).map fun rest => (offset rest).getD rest else none
  | [] => none

def moment (cs : List Char) : Option (List Char) :=
  match date cs with
  | some rest => some ((timeOfDate rest).getD rest)
  | none => timeOfDay cs

end ManagedRuntime.Toml
