import ManagedRuntime.Number.Rounding

/-!
# Binary floating-point numbers of 64 bits

* `Binary64` : a number given by its bits.
* `Binary64.significand`, `Binary64.exponent` : a finite number is its sign times `significand * 2 ^ exponent`.
* `Binary64.same` : equality of numbers, by which no NaN equals anything and the zeros are equal.
* `Binary64.nearest` : the number nearest to a positive quotient of integers, a tie going to the even significand.
-/

namespace ManagedRuntime

set_option autoImplicit false

/-- A number is its bits: the sign, 11 bits of exponent and 52 bits of fraction. -/
structure Binary64 where
  bits : UInt64
deriving DecidableEq, Inhabited

namespace Binary64

/-! ## Parts of a number -/

/-- The sign is bit 63. -/
def signBit : Nat := 0x8000000000000000

/-- The exponent begins at bit 52, where normal numbers also have the leading bit of their significand. -/
def leadingBit : Nat := 0x10000000000000

def isNegative (x : Binary64) : Bool := signBit ≤ x.bits.toNat

/-- The bits below the sign. -/
def magnitude (x : Binary64) : Nat := x.bits.toNat % signBit

/-- The magnitude of the infinities; those of the finite numbers are below it and those of the NaNs above it. -/
def infinite : Nat := 2047 * leadingBit

def isNaN (x : Binary64) : Bool := infinite < x.magnitude

def isInfinite (x : Binary64) : Bool := x.magnitude = infinite

def isFinite (x : Binary64) : Bool := x.magnitude < infinite

def isZero (x : Binary64) : Bool := x.magnitude = 0

/-- The exponent field, at least 1. -/
def scale (x : Binary64) : Nat := max (x.magnitude / leadingBit) 1

/-- The fraction with the leading bit that every normal number has. -/
def significand (x : Binary64) : Nat :=
  if x.magnitude / leadingBit = 0 then x.magnitude else leadingBit + x.magnitude % leadingBit

def exponent (x : Binary64) : Int := (x.scale : Int) - 1075

/-- Numerator of the absolute value of a finite number. -/
def numerator (x : Binary64) : Nat := x.significand * Nat.pow 2 x.exponent.toNat

/-- Denominator of the absolute value of a finite number. -/
def denominator (x : Binary64) : Nat := Nat.pow 2 (-x.exponent).toNat

/-! ## Building numbers -/

/-- The number with a sign and a magnitude. -/
def ofMagnitude (negative : Bool) (magnitude : Nat) : Binary64 :=
  ⟨(magnitude + if negative then signBit else 0).toUInt64⟩

def zero : Binary64 := ⟨0⟩

/-- The NaN whose only set fraction bit is the first. -/
def nan : Binary64 := ⟨0x7FF8000000000000⟩

def same (x y : Binary64) : Bool :=
  !x.isNaN && !y.isNaN && (x.bits = y.bits || x.isZero && y.isZero)

/-! ## The nearest number -/

/-- The `e` with `2 ^ e ≤ n / d < 2 ^ (e + 1)`. -/
def binade (n d : Nat) : Int :=
  let e := (n.log2 : Int) - d.log2
  if d * Nat.pow 2 e.toNat ≤ n * Nat.pow 2 (-e).toNat then e else e - 1

/--
The magnitude nearest to `n / d`, which is at most that of infinity. With the unit `2 ^ k` of the last
place, `k` at least `-1074`, the rounded number of units carries into the exponent field by itself.
-/
def nearest (n d : Nat) : Nat :=
  let k := max (binade n d - 52) (-1074)
  let units := roundDiv (n * Nat.pow 2 (-k).toNat) (d * Nat.pow 2 k.toNat)
  min ((k + 1074).toNat * leadingBit + units) infinite

/--
The magnitude nearest to `mantissa * 10 ^ exponent`. As `2 ^ 3 ≤ 10`, powers of ten that are out of
reach of the mantissa need not be computed.
-/
def nearestDecimal (mantissa : Nat) (exponent : Int) : Nat :=
  if mantissa = 0 then 0
  else if 0 ≤ exponent ∧ 1024 < mantissa.log2 + 3 * exponent then infinite
  else if mantissa.log2 + 1 + 1075 < -3 * exponent then 0
  else nearest (mantissa * Nat.pow 10 exponent.toNat) (Nat.pow 10 (-exponent).toNat)

end Binary64

end ManagedRuntime
