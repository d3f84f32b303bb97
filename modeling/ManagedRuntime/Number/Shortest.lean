import ManagedRuntime.Number.Binary64
import ManagedRuntime.Number.Decimal

/-!
# Shortest notation

* `Shortest.digits` : the fewest significant digits that read back as the same number, and of these the nearest.
* `Shortest.toCharacters` : a number in full, positional from `10 ^ -4` up to `10 ^ 16` and with a power
  of ten beyond.
-/

namespace ManagedRuntime.Shortest

set_option autoImplicit false

/-! ## Digits -/

/-- The `e` with `10 ^ e ≤ n / d < 10 ^ (e + 1)`. -/
def decade (n d : Nat) : Int :=
  if d ≤ n then ((Nat.toDigits 10 (n / d)).length : Int) - 1
  else -((Nat.toDigits 10 ((d - 1) / n)).length : Int)

/-- The multiples of `10 ^ e` next to `n / d`, the nearer one first and of two equally near ones the larger. -/
def neighbours (n d : Nat) (e : Int) : List Nat :=
  let num := n * Nat.pow 10 (-e).toNat
  let den := d * Nat.pow 10 e.toNat
  let below := num / den
  if 2 * (num % den) < den then [below, below + 1] else [below + 1, below]

/-- The mantissa of a decimal with `count` significant digits that reads back as `x`, and its exponent. -/
def withDigits? (x : Binary64) (count : Nat) : Option (Nat × Int) :=
  let e := decade x.numerator x.denominator - (count - 1 : Nat)
  (neighbours x.numerator x.denominator e).findSome? fun m =>
    if Binary64.nearestDecimal m e = x.magnitude then some (m, e) else none

/-- Seventeen digits always read back. -/
def digits (x : Binary64) : Nat × Int :=
  ((List.range 17).findSome? fun k => withDigits? x (k + 1)).getD (0, 0)

/-! ## Notation -/

/-- Digits with the point after `before` of them; at least one digit stands on either side. -/
def positional (ds : List Char) (before : Int) : List Char :=
  let filled := List.replicate (1 - before).toNat '0' ++ ds
  let whole := if before ≤ 0 then 1 else before.toNat
  let front := filled.take whole ++ List.replicate (whole - filled.length) '0'
  let back := filled.drop whole
  front ++ '.' :: (if back = [] then ['0'] else back)

/-- Digits with the point after the first, if more follow, and a power of ten. -/
def scientific (ds : List Char) (power : Int) : List Char :=
  let mantissa := ds.take 1 ++ if ds.length ≤ 1 then [] else '.' :: ds.drop 1
  mantissa ++ 'e' :: Decimal.signed (power < 0) (Nat.toDigits 10 power.natAbs)

def finite (x : Binary64) : List Char :=
  if x.isZero then "0.0".toList
  else
    let (m, e) := digits x
    let ds := Nat.toDigits 10 m
    let power := e + ds.length - 1
    let ds := Blank.dropEnd (· == '0') ds
    if -4 ≤ power ∧ power < 16 then positional ds (power + 1) else scientific ds power

def toCharacters (x : Binary64) : List Char :=
  if x.isNaN then "NaN".toList
  else Decimal.signed x.isNegative (if x.isInfinite then "inf".toList else finite x)

end ManagedRuntime.Shortest
