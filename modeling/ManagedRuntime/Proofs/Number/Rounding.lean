import Mathlib.Algebra.Order.Field.Basic
import Mathlib.Algebra.Order.Ring.Abs
import Mathlib.Algebra.Ring.Parity
import Mathlib.Data.Rat.Cast.Order
import Mathlib.Tactic.FieldSimp
import Mathlib.Tactic.Linarith
import Mathlib.Tactic.Positivity
import Mathlib.Tactic.Ring
import ManagedRuntime.Number.Rounding

/-!
# Nearest multiples

* `NearestMultiple` : the multiple of a step that is nearest to a number, the even one of two that are equally near;
* `nearestMultiple_of_half`, `NearestMultiple.half_step` : it is at most half a step away, and even where it is that far
  away;
* `NearestMultiple.le_of_le`, `NearestMultiple.ge_of_ge` : it does not pass another multiple;
* `roundDiv_nearest` : rounding a quotient gives the nearest multiple.
-/

namespace ManagedRuntime

set_option autoImplicit false

/-- `n` steps come nearest to `q`, and `n` is even where another number of steps comes as near. -/
structure NearestMultiple (step q : ℚ) (n : ℤ) : Prop where
  nearest : ∀ k : ℤ, |n * step - q| ≤ |k * step - q|
  even : ∀ k : ℤ, k ≠ n → |k * step - q| = |n * step - q| → Even n

section

variable {step q : ℚ} {n m : ℤ}

/-! ## Half a step -/

/-- Different multiples are at least a step apart. -/
theorem step_le_of_ne (hstep : 0 < step) (h : m ≠ n) : step ≤ |m * step - n * step| := by
  have hone : (1 : ℚ) ≤ |(m : ℚ) - n| := by
    have hint : 1 ≤ |m - n| := Int.one_le_abs (sub_ne_zero.2 h)
    exact_mod_cast hint
  calc step = 1 * step := (one_mul step).symm
    _ ≤ |(m : ℚ) - n| * step := mul_le_mul_of_nonneg_right hone hstep.le
    _ = |m * step - n * step| := by rw [← sub_mul, abs_mul, abs_of_pos hstep]

theorem nearestMultiple_of_half (hstep : 0 < step) (hle : |n * step - q| ≤ step / 2)
    (heven : |n * step - q| = step / 2 → Even n) : NearestMultiple step q n := by
  -- Another multiple is a step away from this one, so at least half a step away from `q`.
  have hfar : ∀ k : ℤ, k ≠ n → step / 2 ≤ |k * step - q| := by
    intro k hk
    have hstep_le := step_le_of_ne hstep hk
    have htriangle := abs_sub_le (k * step) q (n * step)
    rw [abs_sub_comm q] at htriangle
    linarith
  constructor
  · intro k
    by_cases hk : k = n
    · rw [hk]
    · have hk := hfar k hk
      linarith
  · intro k hk htie
    apply heven
    have hk := hfar k hk
    linarith

/-- The nearest multiple is at most half a step away, as one of its neighbours is nearer otherwise. -/
theorem NearestMultiple.half_step (h : NearestMultiple step q n) (hstep : 0 < step) : |n * step - q| ≤ step / 2 := by
  have hbelow := h.nearest (n - 1)
  have habove := h.nearest (n + 1)
  push_cast at hbelow habove
  rw [sub_mul, one_mul] at hbelow
  rw [add_mul, one_mul] at habove
  rw [abs_le]
  constructor
  · by_contra hfar
    rw [abs_of_neg (by linarith)] at habove
    have hnear : |n * step + step - q| < -(n * step - q) := by
      rw [abs_lt]
      constructor <;> linarith
    linarith
  · by_contra hfar
    rw [abs_of_pos (by linarith)] at hbelow
    have hnear : |n * step - step - q| < n * step - q := by
      rw [abs_lt]
      constructor <;> linarith
    linarith

/-! ## Order -/

theorem NearestMultiple.le_of_le (h : NearestMultiple step q n) (hstep : 0 < step) (hq : q ≤ m * step) : n ≤ m := by
  by_contra hlt
  have hlt : (m : ℚ) + 1 ≤ n := by
    have hint : m + 1 ≤ n := by omega
    exact_mod_cast hint
  have hpassed : m * step + step ≤ n * step := by
    have hmul := mul_le_mul_of_nonneg_right hlt hstep.le
    linarith
  have hnear := h.nearest m
  rw [abs_of_nonneg (by linarith), abs_of_nonneg (by linarith)] at hnear
  linarith

theorem NearestMultiple.neg (h : NearestMultiple step q n) : NearestMultiple step (-q) (-n) := by
  have hflip : ∀ k : ℤ, |(k : ℚ) * step - -q| = |((-k : ℤ) : ℚ) * step - q| := by
    intro k
    rw [← abs_neg]
    push_cast
    ring_nf
  constructor
  · intro k
    rw [hflip, hflip, neg_neg]
    exact h.nearest (-k)
  · intro k hk htie
    rw [hflip, hflip, neg_neg] at htie
    rw [even_neg]
    apply h.even (-k) _ htie
    omega

theorem NearestMultiple.ge_of_ge (h : NearestMultiple step q n) (hstep : 0 < step) (hq : m * step ≤ q) : m ≤ n := by
  have hneg : -q ≤ ((-m : ℤ) : ℚ) * step := by
    push_cast
    linarith
  have hle := h.neg.le_of_le hstep hneg
  omega

end

/-! ## Quotients -/

section Quotients

variable {step q : ℚ} {n d : ℕ}

/-- A rounded quotient leaves at most half of the divisor, and it is even where it leaves just that. -/
theorem roundDiv_cases (hd : 0 < d) : 2 * n ≤ 2 * (roundDiv n d * d) + d ∧ 2 * (roundDiv n d * d) ≤ 2 * n + d ∧
    (2 * n = 2 * (roundDiv n d * d) + d ∨ 2 * (roundDiv n d * d) = 2 * n + d → roundDiv n d % 2 = 0) := by
  have hsplit : n / d * d + n % d = n := Nat.div_add_mod' n d
  have hlt := Nat.mod_lt n hd
  have hsucc : (n / d + 1) * d = n / d * d + d := Nat.succ_mul _ _
  unfold roundDiv
  dsimp only
  split_ifs with hbelow habove
  · omega
  · rw [hsucc]
    omega
  · obtain heven | hodd := Nat.mod_two_eq_zero_or_one (n / d)
    · rw [heven, Nat.add_zero]
      omega
    · rw [hodd, hsucc]
      omega

/-- Rounding the quotient of `q` by a step gives the nearest number of steps. -/
theorem roundDiv_nearest (hd : 0 < d) (hstep : 0 < step) (hq : q = (n : ℚ) / d * step) :
    NearestMultiple step q (roundDiv n d : ℕ) := by
  obtain ⟨hupper, hlower, htie⟩ := roundDiv_cases (n := n) hd
  generalize roundDiv n d = r at hupper hlower htie
  have hdpos : (0 : ℚ) < d := by exact_mod_cast hd
  have hupperRat : 2 * (n : ℚ) ≤ 2 * (r * d) + d := by exact_mod_cast hupper
  have hlowerRat : 2 * (r * d : ℚ) ≤ 2 * n + d := by exact_mod_cast hlower
  have hunit : 0 < step / (2 * d) := by positivity
  have hdifference : ((r : ℤ) : ℚ) * step - q = (2 * (r * d : ℚ) - 2 * n) * (step / (2 * d)) := by
    rw [hq, Int.cast_natCast]
    field_simp
  have hdistance : |((r : ℤ) : ℚ) * step - q| = |2 * (r * d : ℚ) - 2 * n| * (step / (2 * d)) := by
    rw [hdifference, abs_mul, abs_of_pos hunit]
  have hhalf : step / 2 = d * (step / (2 * d)) := by
    field_simp
  apply nearestMultiple_of_half hstep
  · rw [hdistance, hhalf]
    apply mul_le_mul_of_nonneg_right _ hunit.le
    rw [abs_le]
    constructor <;> linarith
  · intro heq
    rw [hdistance, hhalf] at heq
    have habs := mul_right_cancel₀ hunit.ne' heq
    have hcases : 2 * n = 2 * (r * d) + d ∨ 2 * (r * d) = 2 * n + d := by
      obtain h | h := (abs_eq hdpos.le).1 habs
      · right
        have hsum : 2 * (r * d : ℚ) = 2 * n + d := by linarith
        exact_mod_cast hsum
      · left
        have hsum : 2 * (n : ℚ) = 2 * (r * d) + d := by linarith
        exact_mod_cast hsum
    have heven := htie hcases
    rw [Int.even_coe_nat, Nat.even_iff]
    exact heven

end Quotients

end ManagedRuntime
