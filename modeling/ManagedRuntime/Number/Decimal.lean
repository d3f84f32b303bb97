import ManagedRuntime.Text.Blank
import ManagedRuntime.Text.Encoding
import ManagedRuntime.Word

/-!
# Decimal integers

* `Decimal.digits` : a word in decimal, without plus sign or leading zeros.
* `Decimal.parse?` : the word that an optional sign and at least one digit spell, if there is one.
* `Decimal.read` : the same for a text that `White_Space` may surround.
-/

namespace ManagedRuntime.Decimal

set_option autoImplicit false

/-! ## Writing -/

/-- A minus sign in front of the digits of a negative number. -/
def signed (negative : Bool) (digits : List Char) : List Char := if negative then '-' :: digits else digits

def digits (w : Int32) : List Char := signed (w < 0) (Nat.toDigits 10 w.toInt.natAbs)

def toText (w : Int32) : Text := Text.ofCharacters (digits w)

/-! ## Reading -/

/-- Split off a sign; the flag tells a minus sign. -/
def splitSign : List Char → Bool × List Char
  | '+' :: rest => (false, rest)
  | '-' :: rest => (true, rest)
  | rest => (false, rest)

/-- The number that a list of decimal digits spells. -/
def value (digits : List Char) : Nat := Nat.ofDigitChars 10 digits 0

/-- The integer as a word, if it is in range. -/
def toWord? (i : Int) : Option Int32 :=
  if Int32.minValue.toInt ≤ i ∧ i ≤ Int32.maxValue.toInt then some (Int32.ofInt i) else none

def parse? (cs : List Char) : Option Int32 :=
  let (negative, body) := splitSign cs
  if body ≠ [] ∧ body.all Char.isDigit then
    toWord? (if negative then -(value body : Int) else value body)
  else none

def read (t : Text) : Except Failure Int32 :=
  match parse? (Blank.strip t.characters) with
  | some w => .ok w
  | none => .error (.conversion "Invalid integer string")

/-- The word that a text spells, or else a default. -/
def readOr (t : Text) (default : Int32) : Int32 :=
  match read t with
  | .ok w => w
  | .error _ => default

end ManagedRuntime.Decimal
