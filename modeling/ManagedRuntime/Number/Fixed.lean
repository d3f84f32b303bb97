import ManagedRuntime.Number.Binary64
import ManagedRuntime.Number.Layout

/-!
# Fixed notation

* `Fixed.digits` : an exact binary number with a given number of decimals, correctly rounded, a tie
  going to the even digit.
* `Fixed.toText` : fifteen decimals, of which the zeros at the end are left out.
* `Fixed.inField` : a given number of decimals, flush right in a field.
-/

namespace ManagedRuntime.Fixed

set_option autoImplicit false

/-! ## Digits -/

/-- The absolute value in units of the last decimal. -/
def units (x : Binary64) (decimals : Nat) : Nat := roundDiv (x.numerator * Nat.pow 10 decimals) x.denominator

/-- `n` in exactly `places` digits, as far as it has no more. -/
def zeroPadded (places n : Nat) : List Char :=
  List.replicate (places - (Nat.toDigits 10 n).length) '0' ++ Nat.toDigits 10 n

/-- The point stands in front of the decimals, and nowhere if there are none. -/
def fraction (decimals n : Nat) : List Char := if decimals = 0 then [] else '.' :: zeroPadded decimals n

/-- A finite number with its sign, which stays also where the digits round to zero. -/
def digits (x : Binary64) (decimals : Nat) : List Char :=
  let n := units x decimals
  let one := Nat.pow 10 decimals
  Decimal.signed x.isNegative (Nat.toDigits 10 (n / one) ++ fraction decimals (n % one))

/-! ## Texts -/

/-- Leave out the zeros at the end of the decimals, and then a bare point. -/
def stripZeros (cs : List Char) : List Char :=
  if cs.contains '.' then Blank.dropEnd (· == '.') (Blank.dropEnd (· == '0') cs) else cs

def toText (x : Binary64) : Text :=
  Text.ofCharacters <|
    if x.isNaN then "NaN".toList
    else if x.isInfinite then Decimal.signed x.isNegative "inf".toList
    else stripZeros (digits x 15)

/-- What stands in a field: only a finite number has decimals. -/
def body (x : Binary64) (decimals : Nat) : Except Layout.Refusal (List Char) :=
  if x.isNaN then .ok "nan".toList
  else if x.isInfinite then .ok (Decimal.signed x.isNegative "inf".toList)
  else (Layout.bounded decimals).map (digits x)

/-- A negative number of decimals stands for six of them and no field. -/
def inField (x : Binary64) (width decimals : Int32) : Except Layout.Refusal Text := do
  let (width, decimals) := if decimals < 0 then (0, 6) else (Word.toSize width, Word.toSize decimals)
  let cs ← Layout.padded width (← body x decimals)
  return Text.ofCharacters cs

end ManagedRuntime.Fixed
