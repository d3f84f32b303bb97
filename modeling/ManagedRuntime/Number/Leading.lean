import ManagedRuntime.Number.Literal
import ManagedRuntime.Text.Case

/-!
# Numbers at the beginning of a text

A number may begin a text after space units and be followed by anything.

* `LeadingNumber.integerLength?`, `LeadingNumber.floatLength?` : the length of the longest beginning
  that spells a number.
* `LeadingNumber.integer`, `LeadingNumber.float` : its value, and the place of the first unit after it,
  which is 0 if there is none. A text that begins with no number, or with one out of range, gives zero
  and the place 1.
-/

namespace ManagedRuntime.LeadingNumber

set_option autoImplicit false

/-! ## Lengths -/

/-- The unit of an ASCII character. -/
def unit (c : Char) : UInt16 := c.toNat.toUInt16

def isDigit (u : UInt16) : Bool := unit '0' ≤ u && u ≤ unit '9'

def countSpaces (units : List UInt16) : Nat := (units.takeWhile Blank.isSpace).length

def countDigits (units : List UInt16) : Nat := (units.takeWhile isDigit).length

/-- One if a sign comes first. -/
def countSign : List UInt16 → Nat
  | u :: _ => if u = unit '+' ∨ u = unit '-' then 1 else 0
  | [] => 0

/-- Spaces and a sign. -/
def countLead (units : List UInt16) : Nat :=
  countSpaces units + countSign (units.drop (countSpaces units))

/-- `n` units more, unless there are none. -/
def positive? (n : Nat) : Option Nat := if 0 < n then some n else none

def integerLength? (units : List UInt16) : Option Nat :=
  let lead := countLead units
  (positive? (countDigits (units.drop lead))).map (lead + ·)

/-- The length of a word for a number that comes first, whatever the case of its letters. -/
def wordLength? (units : List UInt16) : Option Nat :=
  (Literal.words.find? fun (word, _) =>
    (word.toList.map unit).isPrefixOf (units.map Text.lowerUnit)).map fun (word, _) => word.length

/-- The length of digits with a point anywhere among them, or nowhere. -/
def mantissaLength? (units : List UInt16) : Option Nat :=
  let whole := countDigits units
  match units.drop whole with
  | u :: rest =>
    if u = unit '.' then (positive? (whole + countDigits rest)).map (· + 1) else positive? whole
  | [] => positive? whole

/-- The length of a power of ten; a mark without digits is not part of the number. -/
def exponentLength : List UInt16 → Nat
  | [] => 0
  | mark :: rest =>
    let digits := countDigits (rest.drop (countSign rest))
    if (mark = unit 'e' ∨ mark = unit 'E') ∧ 0 < digits then 1 + countSign rest + digits else 0

def decimalLength? (units : List UInt16) : Option Nat :=
  (mantissaLength? units).map fun n => n + exponentLength (units.drop n)

def floatLength? (units : List UInt16) : Option Nat :=
  let lead := countLead units
  let body := units.drop lead
  ((wordLength? body).or (decimalLength? body)).map (lead + ·)

/-! ## Values -/

/-- The place of the first unit after `n` units, counted from 1, and 0 if there is none. -/
def placeAfter (t : Text) (n : Nat) : Int32 := if n = t.units.length then 0 else Word.saturate (n + 1)

/-- The characters of the first `n` units without the blanks in front. -/
def spelling (t : Text) (n : Nat) : List Char := Blank.stripStart (Utf16.decode (t.units.take n))

def integer (t : Text) : Int32 × Int32 :=
  match integerLength? t.units with
  | none => (0, 1)
  | some n =>
    match Decimal.parse? (spelling t n) with
    | some w => (w, placeAfter t n)
    | none => (0, 1)

/-- The digits of a spelled number in front of its power of ten. -/
def mantissaDigits (cs : List Char) : List Char :=
  (cs.takeWhile fun c => c ≠ 'e' ∧ c ≠ 'E').filter Char.isDigit

/-- Digits that round to an infinity, or to zero although one of them is not zero. -/
def isOutOfRange (cs : List Char) (x : Binary64) : Bool :=
  x.isInfinite && !(mantissaDigits cs).isEmpty || x.isZero && (mantissaDigits cs).any (· ≠ '0')

def float (t : Text) : Binary64 × Int32 :=
  match floatLength? t.units with
  | none => (.zero, 1)
  | some n =>
    match Literal.number? (spelling t n) with
    | some x => if isOutOfRange (spelling t n) x then (.zero, 1) else (x, placeAfter t n)
    | none => (.zero, 1)

end ManagedRuntime.LeadingNumber
