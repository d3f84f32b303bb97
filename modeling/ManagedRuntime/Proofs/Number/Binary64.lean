import Mathlib.Algebra.Order.Field.Power
import ManagedRuntime.Number.Binary64
import ManagedRuntime.Proofs.Number.Rounding

/-!
# Values of binary numbers

* `Binary64.absValue`, `Binary64.value` : the rational number that a finite number is, without and with its sign;
* `Binary64.numerator_div_denominator` : the quotient of integers that is printed is the absolute value;
* `Representable` : a numerator of 53 bits and a power of two at least `-1074`; all values are of this form;
* `Packed.absValue_eq` : the value of a magnitude that is put together from an exponent and some units;
* `Nearest` : a finite number that no other one is nearer than, with an even significand if another one is as near.
-/

namespace ManagedRuntime.Binary64

set_option autoImplicit false

/-! ## Powers -/

theorem zpow_eq_div (b : ℚ) (e : ℤ) : b ^ e = b ^ e.toNat / b ^ (-e).toNat := by
  obtain h | h := le_total 0 e
  · obtain ⟨n, rfl⟩ := Int.eq_ofNat_of_zero_le h
    simp
  · obtain ⟨n, hn⟩ := Int.eq_ofNat_of_zero_le (Int.neg_nonneg.2 h)
    obtain rfl : e = -(n : ℤ) := by omega
    simp

/-! ## Values -/

/-- The absolute value of a finite number. -/
def absValue (x : Binary64) : ℚ := x.significand * 2 ^ x.exponent

/-- The value of a finite number. -/
def value (x : Binary64) : ℚ := if x.isNegative then -x.absValue else x.absValue

/-- The largest value of a finite number. -/
def largest : ℚ := (2 ^ 53 - 1) * 2 ^ (971 : ℤ)

section Values

variable {x : Binary64} {negative : Bool} {m : Nat}

theorem denominator_pos (x : Binary64) : 0 < x.denominator := by
  unfold denominator
  exact Nat.pow_pos (by decide)

theorem numerator_div_denominator (x : Binary64) : (x.numerator : ℚ) / x.denominator = x.absValue := by
  unfold numerator denominator absValue
  rw [zpow_eq_div 2 x.exponent]
  simp only [Nat.pow_eq]
  push_cast
  rw [mul_div_assoc]

/-! ## Classes -/

theorem class_cases (x : Binary64) : x.isFinite = true ∨ x.isInfinite = true ∨ x.isNaN = true := by
  unfold isFinite isInfinite isNaN
  simp only [decide_eq_true_eq]
  omega

theorem not_isNaN_of_isFinite (h : x.isFinite = true) : ¬ x.isNaN = true := by
  unfold isFinite isNaN at *
  rw [decide_eq_true_eq] at *
  omega

theorem not_isInfinite_of_isFinite (h : x.isFinite = true) : ¬ x.isInfinite = true := by
  unfold isFinite isInfinite at *
  rw [decide_eq_true_eq] at *
  omega

theorem not_isNaN_of_isInfinite (h : x.isInfinite = true) : ¬ x.isNaN = true := by
  unfold isInfinite isNaN at *
  rw [decide_eq_true_eq] at *
  omega

/-! ## Signs and magnitudes -/

theorem magnitude_lt (x : Binary64) : x.magnitude < signBit := Nat.mod_lt _ (by decide)

theorem bits_ofMagnitude (h : m < signBit) :
    (ofMagnitude negative m).bits.toNat = m + if negative then signBit else 0 := by
  have hbound : m + (if negative then signBit else 0) < 2 ^ 64 := by
    unfold signBit at *
    split <;> omega
  show ((m + if negative then signBit else 0).toUInt64).toNat = _
  rw [Nat.toUInt64_eq, UInt64.toNat_ofNat', Nat.mod_eq_of_lt hbound]

theorem magnitude_ofMagnitude (h : m < signBit) : (ofMagnitude negative m).magnitude = m := by
  unfold magnitude
  rw [bits_ofMagnitude h]
  unfold signBit at *
  split <;> omega

theorem isNegative_ofMagnitude (h : m < signBit) : (ofMagnitude negative m).isNegative = negative := by
  unfold isNegative
  rw [bits_ofMagnitude h]
  cases negative
  · simpa using h
  · simp

/-- A number is its sign and its magnitude. -/
theorem ofMagnitude_eq (x : Binary64) : ofMagnitude x.isNegative x.magnitude = x := by
  have hbits : (ofMagnitude x.isNegative x.magnitude).bits.toNat = x.bits.toNat := by
    have hlt := x.bits.toNat_lt
    rw [bits_ofMagnitude x.magnitude_lt]
    unfold isNegative magnitude
    simp only [decide_eq_true_eq]
    unfold signBit
    split <;> omega
  have hsame : (ofMagnitude x.isNegative x.magnitude).bits = x.bits := UInt64.toNat_inj.1 hbits
  cases x
  exact congrArg mk hsame

/-! ## Significands and exponents -/

theorem significand_lt (x : Binary64) : x.significand < 2 ^ 53 := by
  have hlt := Nat.mod_lt x.magnitude (show 0 < leadingBit by decide)
  have hsplit := Nat.div_add_mod x.magnitude leadingBit
  unfold significand
  unfold leadingBit at *
  split <;> omega

theorem exponent_ge (x : Binary64) : -1074 ≤ x.exponent := by
  unfold exponent scale
  omega

theorem exponent_le (h : x.isFinite = true) : x.exponent ≤ 971 := by
  have hlt : x.magnitude < infinite := of_decide_eq_true h
  unfold exponent scale
  unfold infinite leadingBit at *
  omega

theorem exists_largest : ∃ m : ℤ, largest = m := by
  refine ⟨(2 ^ 53 - 1) * 2 ^ 971, ?_⟩
  have hpower : (2 : ℚ) ^ (971 : ℤ) = 2 ^ 971 := zpow_natCast 2 971
  unfold largest
  rw [hpower, Int.cast_mul, Int.cast_pow, Int.cast_sub, Int.cast_pow, Int.cast_one, Int.cast_ofNat]

theorem absValue_le_largest (h : x.isFinite = true) : x.absValue ≤ largest := by
  have hsignificand : (x.significand : ℚ) ≤ 2 ^ 53 - 1 := by
    have hlt := x.significand_lt
    have hnat : x.significand + 1 ≤ 2 ^ 53 := hlt
    have hrat : (x.significand : ℚ) + 1 ≤ 2 ^ 53 := by exact_mod_cast hnat
    linarith
  have hpower : (2 : ℚ) ^ x.exponent ≤ 2 ^ (971 : ℤ) := zpow_le_zpow_right₀ (by norm_num) (exponent_le h)
  unfold absValue largest
  exact mul_le_mul hsignificand hpower (by positivity) (by norm_num)

/-! ## Zeros -/

theorem isZero_iff : x.isZero = true ↔ x.absValue = 0 := by
  have hpower : (2 : ℚ) ^ x.exponent ≠ 0 := by positivity
  have hzero : x.significand = 0 ↔ x.magnitude = 0 := by
    unfold significand leadingBit
    split <;> omega
  unfold isZero absValue
  rw [decide_eq_true_iff, mul_eq_zero_iff_right hpower, Nat.cast_eq_zero, hzero]

/-- What is not zero is at least the least positive number. -/
theorem le_absValue (h : x.absValue ≠ 0) : (2 : ℚ) ^ (-1074 : ℤ) ≤ x.absValue := by
  have hpos : (1 : ℚ) ≤ x.significand := by
    have hne : x.significand ≠ 0 := by
      intro hzero
      apply h
      unfold absValue
      rw [hzero, Nat.cast_zero, zero_mul]
    exact_mod_cast Nat.one_le_iff_ne_zero.2 hne
  have hpower : (2 : ℚ) ^ (-1074 : ℤ) ≤ 2 ^ x.exponent := zpow_le_zpow_right₀ (by norm_num) x.exponent_ge
  unfold absValue
  calc (2 : ℚ) ^ (-1074 : ℤ) = 1 * 2 ^ (-1074 : ℤ) := (one_mul _).symm
    _ ≤ x.significand * 2 ^ x.exponent := mul_le_mul hpos hpower (by positivity) (by positivity)

end Values

/-! ## Representable numbers -/

/-- A number with at most 53 bits and no bit below the place of `2 ^ -1074`. -/
def Representable (z : ℚ) : Prop := ∃ m k : ℤ, |m| < 2 ^ 53 ∧ -1074 ≤ k ∧ z = m * 2 ^ k

theorem Representable.neg {z : ℚ} (h : Representable z) : Representable (-z) := by
  obtain ⟨m, k, hm, hk, rfl⟩ := h
  refine ⟨-m, k, ?_, hk, ?_⟩
  · rwa [abs_neg]
  · push_cast
    ring

theorem representable_absValue (x : Binary64) : Representable x.absValue := by
  refine ⟨x.significand, x.exponent, ?_, x.exponent_ge, ?_⟩
  · rw [Nat.abs_cast]
    exact_mod_cast x.significand_lt
  · rw [Int.cast_natCast]
    rfl

theorem representable_value (x : Binary64) : Representable x.value := by
  unfold value
  split
  · exact x.representable_absValue.neg
  · exact x.representable_absValue

/-! ## Magnitudes from an exponent and units -/

section Units

variable {negative : Bool} {s u : Nat}

/-- A magnitude below infinity that has the exponent `s` and some units, which may carry. -/
structure Packed (s u : Nat) : Prop where
  leading : s = 0 ∨ 2 ^ 52 ≤ u
  carry : u ≤ 2 ^ 53
  finite : s * leadingBit + u < infinite

namespace Packed

variable (h : Packed s u)

include h

theorem magnitude_eq : (ofMagnitude negative (s * leadingBit + u)).magnitude = s * leadingBit + u := by
  apply magnitude_ofMagnitude
  exact h.finite.trans (by decide)

theorem isFinite_eq : (ofMagnitude negative (s * leadingBit + u)).isFinite = true := by
  unfold isFinite
  rw [h.magnitude_eq]
  exact decide_eq_true h.finite

/-- The units are the significand; where they carry, they are twice the significand. -/
theorem parts : ((ofMagnitude negative (s * leadingBit + u)).significand = u ∧
      (ofMagnitude negative (s * leadingBit + u)).exponent = s - 1074) ∨
    (u = 2 ^ 53 ∧ (ofMagnitude negative (s * leadingBit + u)).significand = 2 ^ 52 ∧
      (ofMagnitude negative (s * leadingBit + u)).exponent = s - 1074 + 1) := by
  obtain ⟨hleading, hcarry, -⟩ := id h
  unfold exponent scale significand
  rw [h.magnitude_eq]
  unfold leadingBit
  by_cases hfull : u = 2 ^ 53
  · right
    subst hfull
    refine ⟨rfl, ?_, ?_⟩
    · rw [if_neg (by omega)]
      omega
    · omega
  · left
    refine ⟨?_, by omega⟩
    split <;> omega

theorem absValue_eq : (ofMagnitude negative (s * leadingBit + u)).absValue = u * 2 ^ ((s : ℤ) - 1074) := by
  unfold absValue
  obtain ⟨hsignificand, hexponent⟩ | ⟨hu, hsignificand, hexponent⟩ := h.parts
  · rw [hsignificand, hexponent]
  · rw [hsignificand, hexponent, hu, zpow_add_one₀ (by norm_num)]
    push_cast
    ring

theorem even_significand (hu : Even u) : Even (ofMagnitude negative (s * leadingBit + u)).significand := by
  obtain ⟨hsignificand, -⟩ | ⟨-, hsignificand, -⟩ := h.parts
  · rwa [hsignificand]
  · rw [hsignificand]
    decide

end Packed

end Units

/-! ## Nearest numbers -/

/-- A finite number that is nearest to `q`, with an even significand where another value is as near. -/
structure Nearest (q : ℚ) (x : Binary64) : Prop where
  isFinite : x.isFinite = true
  nearest : ∀ y : Binary64, y.isFinite = true → |x.value - q| ≤ |y.value - q|
  even : ∀ y : Binary64, y.isFinite = true → y.value ≠ x.value → |y.value - q| = |x.value - q| → Even x.significand

end ManagedRuntime.Binary64
