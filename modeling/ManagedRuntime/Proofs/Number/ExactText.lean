import ManagedRuntime.Proofs.Number.ReadBack

/-!
# Numbers that are printed without loss

From 8 on the values of binary numbers are further apart than the fifteenth decimal, so the printed decimals tell them
all apart. Powers of two need no case of their own, although the values below one are closer: 8 is a multiple of the
last decimal, and so nothing from 8 on is printed below 8.

* `Binary64.ext_absValue` : a number is its sign and its absolute value;
* `Representable.eq_of_near` : representable numbers from `2 ^ 52` steps on are a step apart;
* `NearestMagnitude.absValue_eq` : rounding to a finer step and back changes nothing from there on;
* `printed_without_loss` : what is printed from 8 on is read as the same number, so different numbers have different
  texts.
-/

namespace ManagedRuntime

set_option autoImplicit false

namespace Binary64

/-! ## Numbers by their values -/

section Values

variable {x y : Binary64}

/-- Above the least exponent the leading bit is set. -/
theorem le_significand (h : -1074 < x.exponent) : 2 ^ 52 ≤ x.significand := by
  unfold exponent scale at h
  unfold significand
  unfold leadingBit at *
  split <;> omega

theorem magnitude_eq_parts (x : Binary64) : (x.magnitude : ℤ) = (x.exponent + 1074) * leadingBit + x.significand := by
  unfold exponent scale significand leadingBit
  split <;> omega

/-- A lower exponent leaves the absolute value below that of every number with the leading bit. -/
theorem absValue_lt_of_exponent_lt (h : x.exponent < y.exponent) : x.absValue < y.absValue := by
  have hbits : |(x.significand : ℤ)| < 2 ^ 53 := by
    rw [Nat.abs_cast]
    exact_mod_cast x.significand_lt
  have hleading : (2 : ℚ) ^ 52 ≤ y.significand := by
    have hexponent := x.exponent_ge
    exact_mod_cast le_significand (x := y) (by omega)
  have hfine := lt_of_fine hbits h
  rw [Int.cast_natCast] at hfine
  unfold absValue
  exact hfine.trans_le (mul_le_mul_of_nonneg_right hleading (zpow_two_pos _).le)

theorem magnitude_eq_of_absValue_eq (h : x.absValue = y.absValue) : x.magnitude = y.magnitude := by
  have hexponent : x.exponent = y.exponent := by
    apply le_antisymm
    · by_contra hlt
      exact (absValue_lt_of_exponent_lt (not_le.1 hlt)).ne' h
    · by_contra hlt
      exact (absValue_lt_of_exponent_lt (not_le.1 hlt)).ne h
  have hsignificand : x.significand = y.significand := by
    unfold absValue at h
    rw [hexponent] at h
    exact_mod_cast mul_right_cancel₀ (zpow_two_pos _).ne' h
  have hx := x.magnitude_eq_parts
  have hy := y.magnitude_eq_parts
  rw [hexponent, hsignificand, ← hy] at hx
  exact_mod_cast hx

/-- A number is its sign and its absolute value. -/
theorem ext_absValue (hsign : x.isNegative = y.isNegative) (h : x.absValue = y.absValue) : x = y := by
  rw [← ofMagnitude_eq x, ← ofMagnitude_eq y, hsign, magnitude_eq_of_absValue_eq h]

end Values

/-! ## Spacing -/

section Spacing

variable {z w : ℚ} {e : ℤ}

theorem representable_threshold (he : -1074 ≤ e) : Representable (2 ^ 52 * 2 ^ e) := by
  refine ⟨2 ^ 52, e, by norm_num, he, ?_⟩
  norm_num

/-- From `2 ^ 52` steps on, a bit below the place of the step would be the fifty-fourth. -/
theorem Representable.exists_multiple (hz : Representable z) (hle : 2 ^ 52 * 2 ^ e ≤ z) : ∃ n : ℤ, z = n * 2 ^ e := by
  obtain ⟨m, k, hm, -, rfl⟩ := hz
  apply Binary64.exists_multiple
  by_contra hlt
  exact absurd (lt_of_fine hm (not_le.1 hlt)) (not_lt.2 hle)

theorem Representable.eq_of_near (hz : Representable z) (hw : Representable w) (hzle : 2 ^ 52 * 2 ^ e ≤ z)
    (hwle : 2 ^ 52 * 2 ^ e ≤ w) (hnear : |z - w| < 2 ^ e) : z = w := by
  obtain ⟨n, rfl⟩ := hz.exists_multiple hzle
  obtain ⟨m, rfl⟩ := hw.exists_multiple hwle
  by_contra hne
  have hapart : n ≠ m := by
    rintro rfl
    exact hne rfl
  exact absurd hnear (not_lt.2 (step_le_of_ne (zpow_two_pos e) hapart))

end Spacing

/-! ## Rounding to a finer step -/

section Rounded

variable {x y : Binary64} {step : ℚ} {count m : ℤ} {e : ℤ}

/-- What is nearest to a number that does not lie below a representable one does not lie below it either. -/
theorem NearestMagnitude.ge_of_ge {q z : ℚ} (h : NearestMagnitude q y) (hz : Representable z) (hle : z ≤ q) :
    z ≤ y.absValue := by
  by_contra hlt
  have hnear := h.nearest z hz
  rw [abs_of_nonpos (by linarith), abs_of_nonpos (by linarith)] at hnear
  linarith

/--
A value is rounded to a multiple of a step, and that multiple to the nearest binary number. Where the step is less
than the distance of two values, and where these begin at a multiple of the step, this is the same value again.
-/
theorem NearestMagnitude.absValue_eq (hy : NearestMagnitude (count * step) y)
    (hcount : NearestMultiple step x.absValue count) (hstep : 0 < step) (hfine : step < 2 ^ e) (he : -1074 ≤ e)
    (hthreshold : 2 ^ 52 * 2 ^ e = m * step) (hx : 2 ^ 52 * 2 ^ e ≤ x.absValue) : y.absValue = x.absValue := by
  have hmultiple : 2 ^ 52 * 2 ^ e ≤ count * step := by
    have hcount_ge := hcount.ge_of_ge (m := m) hstep (by rwa [← hthreshold])
    rw [hthreshold]
    exact mul_le_mul_of_nonneg_right (by exact_mod_cast hcount_ge) hstep.le
  have hy_ge := hy.ge_of_ge (representable_threshold he) hmultiple
  apply y.representable_absValue.eq_of_near x.representable_absValue hy_ge hx
  -- Both roundings go half a step at most, the second since `x` itself is no further away.
  have hhalf := hcount.half_step hstep
  have hback := hy.nearest _ x.representable_absValue
  rw [abs_sub_comm x.absValue] at hback
  calc |y.absValue - x.absValue| ≤ |y.absValue - count * step| + |count * step - x.absValue| := abs_sub_le _ _ _
    _ ≤ step / 2 + step / 2 := add_le_add (hback.trans hhalf) hhalf
    _ < 2 ^ e := by rwa [add_halves]

end Rounded

end Binary64

/-! ## Fifteen decimals -/

section Texts

variable {x : Binary64}

/-- The text of a finite number is read as the number that is nearest to its fifteen decimals. -/
theorem read_toText (hx : x.isFinite = true) : ∃ y : Binary64, Literal.read (Fixed.toText x) = .ok y ∧
    y.isNegative = x.isNegative ∧ Binary64.NearestMagnitude ((Fixed.units x 15 : ℕ) * (1 / 10 ^ 15)) y := by
  obtain ⟨short, htrimmed, hstripped⟩ := exists_trimmed x
  have hshort := (approximates_printed x 15).of_trimmed htrimmed
  have hunits : (Fixed.toText x).units = [] ++ (signUnits short.negative ++ short.body) := by
    rw [units_toText_of_isFinite hx, hstripped]
    rfl
  have hvalue : short.absValue = (Fixed.units x 15 : ℕ) * (1 / 10 ^ 15) := by
    rw [htrimmed.absValue_eq, absValue_printed, mul_one_div]
  obtain ⟨-, hread⟩ := reads_number hunits (List.forall_mem_nil _) (signed_signUnits short.negative)
    short.body_literal (hshort.not_lost hx)
  refine ⟨_, hread, hshort.isNegative_literal, ?_⟩
  rw [← hvalue]
  exact hshort.nearestMagnitude_literal hx

theorem read_toText_of_eight_le (hx : x.isFinite = true) (hle : 8 ≤ x.absValue) :
    Literal.read (Fixed.toText x) = .ok x := by
  obtain ⟨y, hread, hsign, hnearest⟩ := read_toText hx
  have hthreshold : (2 : ℚ) ^ 52 * 2 ^ (-49 : ℤ) = 8 := by norm_num
  have hvalue : y.absValue = x.absValue := by
    apply hnearest.absValue_eq (m := 8 * 10 ^ 15) (e := -49) (by exact_mod_cast units_nearest x 15)
    · norm_num
    · norm_num
    · norm_num
    · norm_num
    · rwa [hthreshold]
  rw [hread, Binary64.ext_absValue hsign hvalue]

/--
**From 8 on nothing is lost.** Every finite number whose absolute value is at least 8 is read back, bit for bit, from
its text with fifteen decimals, from which the zeros at the end are left out. So these numbers have different texts.
-/
theorem printed_without_loss :
    (∀ x : Binary64, x.isFinite = true → 8 ≤ x.absValue → Literal.read (Fixed.toText x) = .ok x) ∧
    Set.InjOn Fixed.toText {x : Binary64 | x.isFinite = true ∧ 8 ≤ x.absValue} := by
  constructor
  · intro x hx hle
    exact read_toText_of_eight_le hx hle
  · rintro x ⟨hx, hxle⟩ y ⟨hy, hyle⟩ hsame
    have hread := read_toText_of_eight_le hx hxle
    rw [hsame, read_toText_of_eight_le hy hyle, Except.ok.injEq] at hread
    exact hread.symm

/-- The least number above 8 is told apart from 8. -/
theorem printed_without_loss_next : (⟨0x4020000000000001⟩ : Binary64).isFinite = true ∧
    8 ≤ (⟨0x4020000000000001⟩ : Binary64).absValue ∧
    Literal.read (Fixed.toText ⟨0x4020000000000001⟩) = .ok ⟨0x4020000000000001⟩ ∧
    Fixed.toText ⟨0x4020000000000000⟩ ≠ Fixed.toText ⟨0x4020000000000001⟩ := by
  have hleast : 8 ≤ (⟨0x4020000000000000⟩ : Binary64).absValue := by
    show (8 : ℚ) ≤ (4503599627370496 : ℕ) * 2 ^ (-49 : ℤ)
    norm_num
  have hnext : 8 ≤ (⟨0x4020000000000001⟩ : Binary64).absValue := by
    show (8 : ℚ) ≤ (4503599627370497 : ℕ) * 2 ^ (-49 : ℤ)
    norm_num
  obtain ⟨hread, hdistinct⟩ := printed_without_loss
  refine ⟨by decide, hnext, hread _ (by decide) hnext, ?_⟩
  intro hsame
  exact absurd (hdistinct ⟨by decide, hleast⟩ ⟨by decide, hnext⟩ hsame) (by decide)

/-- Just below 8 a number may be lost. -/
example : Literal.read (Fixed.toText ⟨0x401FFFFFFFFFFFFC⟩) = .ok ⟨0x401FFFFFFFFFFFFB⟩ := by decide +kernel

end Texts

end ManagedRuntime
