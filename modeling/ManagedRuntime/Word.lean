/-!
# Words

The integers of a program are 32-bit words.

* `Word.saturate` : a count as a word; every count above the largest word becomes the largest word.
* `Word.divide?` : quotient and remainder of the truncating division, or nothing where the divide instruction traps;
  it does so exactly where there is no quotient that is a word.
* `Word.shiftLeft`, `Word.shiftRight` : shifts by the low five bits of the amount, the right one keeping the sign.
-/

namespace ManagedRuntime.Word

set_option autoImplicit false

/-- The largest word. -/
def largest : Nat := 2147483647

/-- A count as a word, at most `largest`. -/
def saturate (n : Nat) : Int32 := Int32.ofNat (min n largest)

theorem toInt_saturate (n : Nat) : (saturate n).toInt = min n largest := by
  have h : min n largest ≤ largest := Nat.min_le_right ..
  exact Int32.toInt_ofNat_of_lt (by simp only [largest] at *; omega)

/-- A negative size counts as nothing. -/
def toSize (w : Int32) : Nat := w.toInt.toNat

/-! ## Division and shifts -/

/-- The operands for which there is no quotient that is a word. -/
def Traps (a b : Int32) : Prop := b = 0 ∨ a = Int32.minValue ∧ b = -1

instance (a b : Int32) : Decidable (Traps a b) := inferInstanceAs (Decidable (_ ∨ _))

/--
The divide instruction: quotient toward zero and the remainder that has the sign of the dividend, which is twice as
wide as a word. It traps on a zero divisor and where the quotient is no word.
-/
def divideWide? (dividend : Int64) (divisor : Int32) : Option (Int32 × Int32) :=
  let quotient := dividend.toInt.tdiv divisor.toInt
  if divisor = 0 ∨ quotient < Int32.minValue.toInt ∨ Int32.maxValue.toInt < quotient then none
  else some (Int32.ofInt quotient, Int32.ofInt (dividend.toInt.tmod divisor.toInt))

/-- The dividend is widened with its sign. -/
def divide? (a b : Int32) : Option (Int32 × Int32) := divideWide? a.toInt64 b

/-- The quotient of two words is a word, unless the smallest one is divided by `-1`. -/
theorem tdiv_fits_iff {a b : Int32} (hb : b.toInt ≠ 0) :
    Int32.minValue.toInt ≤ a.toInt.tdiv b.toInt ∧ a.toInt.tdiv b.toInt ≤ Int32.maxValue.toInt ↔
      ¬ (a.toInt = Int32.minValue.toInt ∧ b.toInt = -1) := by
  have hmin : Int32.minValue.toInt = -2147483648 := rfl
  have hmax : Int32.maxValue.toInt = 2147483647 := rfl
  have hlow := Int32.minValue_le_toInt a
  have hhigh := Int32.toInt_le a
  by_cases hone : b.toInt.natAbs = 1
  · obtain h | h : b.toInt = 1 ∨ b.toInt = -1 := by omega
    · rw [h, Int.tdiv_one]
      omega
    · rw [h, Int.tdiv_neg, Int.tdiv_one]
      omega
  · have habs : (a.toInt.tdiv b.toInt).natAbs = a.toInt.natAbs / b.toInt.natAbs := Int.natAbs_tdiv ..
    have hhalf : a.toInt.natAbs / b.toInt.natAbs ≤ a.toInt.natAbs / 2 := Nat.div_le_div_left (by omega) (by decide)
    omega

theorem divide?_eq_none_iff {a b : Int32} : divide? a b = none ↔ Traps a b := by
  have hzero : b.toInt = 0 ↔ b = 0 := Int32.toInt_inj (y := 0)
  have hmin : a.toInt = Int32.minValue.toInt ↔ a = Int32.minValue := Int32.toInt_inj
  have hone : b.toInt = -1 ↔ b = -1 := Int32.toInt_inj (y := -1)
  unfold divide? divideWide? Traps
  simp only [Int32.toInt_toInt64, ite_eq_left_iff, reduceCtorEq, imp_false, Decidable.not_not]
  by_cases hb : b = 0
  · exact iff_of_true (.inl hb) (.inl hb)
  · have hfits := tdiv_fits_iff (a := a) (mt hzero.1 hb)
    rw [hmin, hone] at hfits
    simp only [hb, false_or]
    rw [← Decidable.not_iff_not, not_or, Int.not_lt, Int.not_lt]
    exact hfits

def shiftLeft (a amount : Int32) : Int32 := a <<< amount

def shiftRight (a amount : Int32) : Int32 := a >>> amount

end ManagedRuntime.Word
