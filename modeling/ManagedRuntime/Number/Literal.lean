import ManagedRuntime.Number.Binary64
import ManagedRuntime.Number.Decimal

/-!
# Spelled numbers

* `Literal` : the value that a number spells: an infinity, NaN, or a decimal mantissa with a power of ten.
* `Literal.parse?` : the literal that a list of characters spells as a whole, with its sign.
* `Literal.toBinary64` : the nearest binary number.
* `Literal.read` : the number of a text that `White_Space` may surround.
-/

namespace ManagedRuntime

set_option autoImplicit false

inductive Literal where
  | infinity
  | nan
  /-- `mantissa * 10 ^ exponent`. -/
  | decimal (mantissa : Nat) (exponent : Int)
deriving DecidableEq

namespace Literal

/-! ## Grammar -/

/-- The words for numbers that have no digits, in small letters. -/
def words : List (String × Literal) := [("infinity", .infinity), ("inf", .infinity), ("nan", .nan)]

/-- The literal of a word, whatever the case of its letters. -/
def ofWord? (cs : List Char) : Option Literal :=
  (words.find? fun (word, _) => cs.map Char.toLower == word.toList).map Prod.snd

/-- Integer digits, fraction digits and what follows them; a point may stand before, between and after digits. -/
def splitMantissa (cs : List Char) : List Char × List Char × List Char :=
  let whole := cs.takeWhile Char.isDigit
  match cs.dropWhile Char.isDigit with
  | '.' :: rest => (whole, rest.takeWhile Char.isDigit, rest.dropWhile Char.isDigit)
  | rest => (whole, [], rest)

/-- The power of ten that the end of a literal spells; nothing spells zero. -/
def exponent? : List Char → Option Int
  | [] => some 0
  | mark :: rest =>
    let (negative, digits) := Decimal.splitSign rest
    if (mark = 'e' ∨ mark = 'E') ∧ digits ≠ [] ∧ digits.all Char.isDigit then
      some (if negative then -(Decimal.value digits : Int) else Decimal.value digits)
    else none

def ofDigits? (cs : List Char) : Option Literal :=
  let (whole, fraction, rest) := splitMantissa cs
  if whole = [] ∧ fraction = [] then none
  else (exponent? rest).map fun exponent => .decimal (Decimal.value (whole ++ fraction)) (exponent - fraction.length)

/-- The flag tells a minus sign. -/
def parse? (cs : List Char) : Option (Bool × Literal) :=
  let (negative, body) := Decimal.splitSign cs
  ((ofWord? body).or (ofDigits? body)).map fun literal => (negative, literal)

/-! ## Value -/

def toBinary64 (negative : Bool) : Literal → Binary64
  | .infinity => .ofMagnitude negative Binary64.infinite
  | .nan => .nan
  | .decimal mantissa exponent => .ofMagnitude negative (Binary64.nearestDecimal mantissa exponent)

/-- The number that a list of characters spells. -/
def number? (cs : List Char) : Option Binary64 :=
  (parse? cs).map fun (negative, literal) => literal.toBinary64 negative

def read (t : Text) : Except Failure Binary64 :=
  match number? (Blank.strip t.characters) with
  | some x => .ok x
  | none => .error (.conversion "Invalid float string")

end Literal

end ManagedRuntime
