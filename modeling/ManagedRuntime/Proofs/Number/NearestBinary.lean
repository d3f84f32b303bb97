import ManagedRuntime.Number.Literal
import ManagedRuntime.Proofs.Number.Binary64

/-!
# The nearest binary number

* `NearestMagnitude` : a number whose absolute value is nearest to `q` among all representable numbers;
* `nearestMagnitude_of_units` : it is, if its units are the nearest multiple at the exponent of `q`;
* `binade_spec` : the exponent of a quotient;
* `nearest_spec`, `nearestDecimal_spec` : rounding quotients and decimals up to the largest number;
* `NearestMagnitude.signed`, `toBinary64_nearest` : with its sign it is nearest, and so a decimal literal is read.
-/

namespace ManagedRuntime.Binary64

set_option autoImplicit false

/-! ## Nearest among the representable numbers -/

/-- A finite number whose absolute value is nearest to `q`, with an even significand where another is as near. -/
structure NearestMagnitude (q : ℚ) (x : Binary64) : Prop where
  isFinite : x.isFinite = true
  nearest : ∀ z, Representable z → |x.absValue - q| ≤ |z - q|
  even : ∀ z, Representable z → z ≠ x.absValue → |z - q| = |x.absValue - q| → Even x.significand

section Units

variable {q z : ℚ} {s u : Nat} {negative : Bool}

theorem zpow_two_pos (e : ℤ) : (0 : ℚ) < 2 ^ e := zpow_pos (by norm_num) e

/-- What has no bit below the place of a step is a multiple of it. -/
theorem exists_multiple {m k e : ℤ} (h : e ≤ k) : ∃ n : ℤ, (m : ℚ) * 2 ^ k = n * 2 ^ e := by
  refine ⟨m * 2 ^ (k - e).toNat, ?_⟩
  have hsplit : k = ((k - e).toNat : ℤ) + e := by omega
  conv_lhs => rw [hsplit, zpow_add₀ (by norm_num), zpow_natCast]
  push_cast
  ring

/-- What has a bit below the place of a step is less than `2 ^ 52` steps. -/
theorem lt_of_fine {m k e : ℤ} (hm : |m| < 2 ^ 53) (h : k < e) : (m : ℚ) * 2 ^ k < 2 ^ 52 * 2 ^ e := by
  have hmRat : (m : ℚ) < 2 ^ 53 := by
    have hlt : m < 2 ^ 53 := lt_of_abs_lt hm
    exact_mod_cast hlt
  calc (m : ℚ) * 2 ^ k < 2 ^ 53 * 2 ^ k := mul_lt_mul_of_pos_right hmRat (zpow_two_pos k)
    _ = 2 ^ 52 * 2 ^ (k + 1) := by
      rw [zpow_add_one₀ (by norm_num)]
      ring
    _ ≤ 2 ^ 52 * 2 ^ e := by
      apply mul_le_mul_of_nonneg_left _ (by norm_num)
      exact zpow_le_zpow_right₀ (by norm_num) (by omega)

/--
Units that are the nearest multiple make the nearest number. A representable number that is no multiple of the
step is below `2 ^ 52` steps, which is a multiple that is nearer.
-/
theorem nearestMagnitude_of_units (h : NearestMultiple (2 ^ ((s : ℤ) - 1074)) q (u : ℕ)) (hpacked : Packed s u)
    (hq : s = 0 ∨ 2 ^ 52 * 2 ^ ((s : ℤ) - 1074) ≤ q) :
    NearestMagnitude q (ofMagnitude negative (s * leadingBit + u)) := by
  have hvalue : (ofMagnitude negative (s * leadingBit + u)).absValue = ((u : ℤ) : ℚ) * 2 ^ ((s : ℤ) - 1074) := by
    rw [hpacked.absValue_eq, Int.cast_natCast]
  have hfine : ∀ m k : ℤ, |m| < 2 ^ 53 → -1074 ≤ k → k < (s : ℤ) - 1074 →
      |((u : ℤ) : ℚ) * 2 ^ ((s : ℤ) - 1074) - q| < |(m : ℚ) * 2 ^ k - q| := by
    intro m k hm hk hlt
    have hle : 2 ^ 52 * 2 ^ ((s : ℤ) - 1074) ≤ q := hq.resolve_left (by omega)
    have hbelow := lt_of_fine hm hlt
    have hnear := h.nearest (2 ^ 52)
    rw [show ((2 ^ 52 : ℤ) : ℚ) = 2 ^ 52 by norm_num] at hnear
    rw [abs_of_nonpos (show (2 : ℚ) ^ 52 * 2 ^ ((s : ℤ) - 1074) - q ≤ 0 by linarith)] at hnear
    rw [abs_of_nonpos (show (m : ℚ) * 2 ^ k - q ≤ 0 by linarith)]
    linarith
  constructor
  · exact hpacked.isFinite_eq
  · rintro z ⟨m, k, hm, hk, rfl⟩
    rw [hvalue]
    by_cases hlt : k < (s : ℤ) - 1074
    · exact (hfine m k hm hk hlt).le
    · obtain ⟨n, hn⟩ := exists_multiple (m := m) (not_lt.1 hlt)
      rw [hn]
      exact h.nearest n
  · rintro z ⟨m, k, hm, hk, rfl⟩ hne htie
    rw [hvalue] at hne htie
    by_cases hlt : k < (s : ℤ) - 1074
    · exact absurd htie (hfine m k hm hk hlt).ne'
    · obtain ⟨n, hn⟩ := exists_multiple (m := m) (not_lt.1 hlt)
      rw [hn] at hne htie
      apply hpacked.even_significand
      rw [← Int.even_coe_nat]
      apply h.even n _ htie
      rintro rfl
      exact hne rfl

theorem nearestMagnitude_zero (hq : 0 ≤ q) (hle : q ≤ 2 ^ (-1074 : ℤ) / 2) :
    NearestMagnitude q (ofMagnitude negative 0) := by
  have hnone : NearestMultiple (2 ^ (((0 : ℕ) : ℤ) - 1074)) q ((0 : ℕ) : ℤ) := by
    apply nearestMultiple_of_half (zpow_two_pos _)
    · simpa [abs_of_nonneg hq] using hle
    · intro _
      simp
  have hpacked : Packed 0 0 := ⟨.inl rfl, by decide, by decide⟩
  have hnearest : NearestMagnitude q (ofMagnitude negative (0 * leadingBit + 0)) :=
    nearestMagnitude_of_units hnone hpacked (.inl rfl)
  rwa [Nat.zero_mul, Nat.zero_add] at hnearest

/-- Zero is nearest to nothing above half of the least positive number. -/
theorem NearestMagnitude.le_of_isZero {x : Binary64} (h : NearestMagnitude q x) (hq : 0 ≤ q) (hzero : x.isZero = true) :
    2 * q ≤ 2 ^ (-1074 : ℤ) := by
  have hleast : Representable (2 ^ (-1074 : ℤ)) := by
    refine ⟨1, -1074, by norm_num, le_rfl, ?_⟩
    rw [Int.cast_one, one_mul]
  have hnear := h.nearest _ hleast
  have hpos := zpow_two_pos (-1074)
  rw [isZero_iff.1 hzero, zero_sub, abs_neg, abs_of_nonneg hq] at hnear
  obtain hle | hle := le_total q (2 ^ (-1074 : ℤ))
  · rw [abs_of_nonneg (by linarith)] at hnear
    linarith
  · rw [abs_of_nonpos (by linarith)] at hnear
    linarith

end Units

/-! ## Quotients -/

theorem largest_lt : largest < 2 ^ (1024 : ℤ) := by
  have hsplit : (2 : ℚ) ^ (1024 : ℤ) = 2 ^ 53 * 2 ^ (971 : ℤ) := by
    rw [← zpow_natCast, ← zpow_add₀ (by norm_num)]
    norm_num
  rw [hsplit]
  exact mul_lt_mul_of_pos_right (by norm_num) (zpow_two_pos _)

section Quotients

variable {n d : Nat} {negative : Bool}

/-- The scaled integers have the scaled quotient. -/
theorem scaled_div (n d : Nat) (e : ℤ) :
    ((n * Nat.pow 2 (-e).toNat : ℕ) : ℚ) / (d * Nat.pow 2 e.toNat : ℕ) = n / d / 2 ^ e := by
  rw [zpow_eq_div 2 e]
  simp only [Nat.pow_eq]
  push_cast
  rw [div_div_div_eq]

theorem scaled_pos (hd : 0 < d) (e : ℤ) : 0 < d * Nat.pow 2 e.toNat :=
  Nat.mul_pos hd (Nat.pow_pos (by decide))

theorem binade_spec (hn : 0 < n) (hd : 0 < d) :
    (2 : ℚ) ^ binade n d ≤ n / d ∧ (n : ℚ) / d < 2 ^ (binade n d + 1) := by
  have hdpos : (0 : ℚ) < d := by exact_mod_cast hd
  have hnLow : (2 : ℚ) ^ n.log2 ≤ n := by exact_mod_cast Nat.log2_self_le hn.ne'
  have hnHigh : (n : ℚ) < 2 ^ (n.log2 + 1) := by exact_mod_cast Nat.lt_log2_self
  have hdLow : (2 : ℚ) ^ d.log2 ≤ d := by exact_mod_cast Nat.log2_self_le hd.ne'
  have hdHigh : (d : ℚ) < 2 ^ (d.log2 + 1) := by exact_mod_cast Nat.lt_log2_self
  have hhigh : (n : ℚ) / d < 2 ^ ((n.log2 : ℤ) - d.log2 + 1) := by
    rw [div_lt_iff₀ hdpos]
    calc (n : ℚ) < 2 ^ (n.log2 + 1) := hnHigh
      _ = 2 ^ ((n.log2 : ℤ) - d.log2 + 1) * 2 ^ d.log2 := by
        rw [← zpow_natCast, ← zpow_natCast, ← zpow_add₀ (by norm_num)]
        congr 1
        push_cast
        ring
      _ ≤ 2 ^ ((n.log2 : ℤ) - d.log2 + 1) * d := mul_le_mul_of_nonneg_left hdLow (zpow_two_pos _).le
  have hlow : (2 : ℚ) ^ ((n.log2 : ℤ) - d.log2 - 1) ≤ n / d := by
    rw [le_div_iff₀ hdpos]
    calc (2 : ℚ) ^ ((n.log2 : ℤ) - d.log2 - 1) * d ≤ 2 ^ ((n.log2 : ℤ) - d.log2 - 1) * 2 ^ (d.log2 + 1) :=
        mul_le_mul_of_nonneg_left hdHigh.le (zpow_two_pos _).le
      _ = 2 ^ n.log2 := by
        rw [← zpow_natCast, ← zpow_natCast, ← zpow_add₀ (by norm_num)]
        congr 1
        push_cast
        ring
      _ ≤ n := hnLow
  -- The comparison of the scaled integers decides between the two binades.
  have htest : d * Nat.pow 2 ((n.log2 : ℤ) - d.log2).toNat ≤ n * Nat.pow 2 (-((n.log2 : ℤ) - d.log2)).toNat ↔
      (2 : ℚ) ^ ((n.log2 : ℤ) - d.log2) ≤ n / d := by
    have hquotient := scaled_div n d ((n.log2 : ℤ) - d.log2)
    have hpos : (0 : ℚ) < ((d * Nat.pow 2 ((n.log2 : ℤ) - d.log2).toNat : ℕ) : ℚ) := by
      exact_mod_cast scaled_pos hd _
    rw [← one_le_div (zpow_two_pos _), ← hquotient, one_le_div hpos, Nat.cast_le]
  unfold binade
  dsimp only
  split
  next h => exact ⟨htest.1 h, hhigh⟩
  next h =>
    rw [htest, not_le] at h
    exact ⟨hlow, by rwa [sub_add_cancel]⟩

theorem nearest_spec (hn : 0 < n) (hd : 0 < d) (hle : (n : ℚ) / d ≤ largest) :
    NearestMagnitude ((n : ℚ) / d) (ofMagnitude negative (nearest n d)) := by
  obtain ⟨hlow, hhigh⟩ := binade_spec hn hd
  have hexponent : binade n d ≤ 1023 := by
    have hlt : (2 : ℚ) ^ binade n d < 2 ^ (1024 : ℤ) := by
      exact (hlow.trans hle).trans_lt largest_lt
    have hexp := (zpow_lt_zpow_iff_right₀ (show (1 : ℚ) < 2 by norm_num)).1 hlt
    omega
  unfold nearest
  dsimp only
  generalize hk : max (binade n d - 52) (-1074) = k
  obtain ⟨s, rfl⟩ : ∃ s : ℕ, k = (s : ℤ) - 1074 := ⟨(k + 1074).toNat, by omega⟩
  have hstep := zpow_two_pos ((s : ℤ) - 1074)
  have hs : ((s : ℤ) - 1074 + 1074).toNat = s := by omega
  rw [hs]
  generalize hu : roundDiv (n * Nat.pow 2 (-((s : ℤ) - 1074)).toNat) (d * Nat.pow 2 ((s : ℤ) - 1074).toNat) = u
  have hnearest : NearestMultiple (2 ^ ((s : ℤ) - 1074)) ((n : ℚ) / d) (u : ℕ) := by
    rw [← hu]
    apply roundDiv_nearest (scaled_pos hd _) hstep
    rw [scaled_div, div_mul_cancel₀ _ hstep.ne']
  -- Above the least exponent there are at least `2 ^ 52` units, and there are never more than `2 ^ 53`.
  have hleast : s = 0 ∨ 2 ^ 52 * 2 ^ ((s : ℤ) - 1074) ≤ (n : ℚ) / d := by
    obtain h | h : s = 0 ∨ (s : ℤ) - 1074 = binade n d - 52 := by omega
    · exact .inl h
    · right
      refine le_trans (le_of_eq ?_) hlow
      rw [h, zpow_sub₀ (by norm_num)]
      exact mul_div_cancel₀ _ (by norm_num)
  have hleading : s = 0 ∨ 2 ^ 52 ≤ u := by
    refine hleast.imp_right fun h => ?_
    have hge := hnearest.ge_of_ge (m := 2 ^ 52) hstep (by exact_mod_cast h)
    exact_mod_cast hge
  have hcarry : u ≤ 2 ^ 53 := by
    have hbelow : (n : ℚ) / d ≤ ((2 ^ 53 : ℤ) : ℚ) * 2 ^ ((s : ℤ) - 1074) := by
      calc (n : ℚ) / d ≤ 2 ^ (binade n d + 1) := hhigh.le
        _ ≤ 2 ^ (53 + ((s : ℤ) - 1074)) := zpow_le_zpow_right₀ (by norm_num) (by omega)
        _ = ((2 ^ 53 : ℤ) : ℚ) * 2 ^ ((s : ℤ) - 1074) := by
          rw [zpow_add₀ (by norm_num)]
          norm_num
    have hle := hnearest.le_of_le hstep hbelow
    exact_mod_cast hle
  have hfinite : s * leadingBit + u < infinite := by
    obtain h | h : s < 2045 ∨ s = 2045 := by omega
    · unfold infinite leadingBit
      omega
    · have hbelow : (n : ℚ) / d ≤ ((2 ^ 53 - 1 : ℤ) : ℚ) * 2 ^ ((s : ℤ) - 1074) := by
        refine hle.trans (le_of_eq ?_)
        unfold largest
        rw [h]
        norm_num
      have hle := hnearest.le_of_le hstep hbelow
      unfold infinite leadingBit
      omega
  rw [min_eq_left hfinite.le]
  exact nearestMagnitude_of_units hnearest ⟨hleading, hcarry, hfinite⟩ hleast

end Quotients

/-! ## Decimals -/

section Decimals

variable {m : Nat} {e : ℤ} {negative : Bool}

theorem eight_zpow (e : ℤ) : (8 : ℚ) ^ e = 2 ^ (3 * e) := by
  rw [zpow_mul]
  norm_num

theorem two_zpow_le_ten_zpow (h : 0 ≤ e) : (2 : ℚ) ^ (3 * e) ≤ 10 ^ e := by
  rw [← eight_zpow]
  exact zpow_le_zpow_left₀ h (by norm_num) (by norm_num)

theorem ten_zpow_le_two_zpow (h : e ≤ 0) : (10 : ℚ) ^ e ≤ 2 ^ (3 * e) := by
  have hinv := inv_anti₀ (zpow_two_pos _) (two_zpow_le_ten_zpow (e := -e) (by omega))
  rwa [zpow_neg, inv_inv, mul_neg, zpow_neg, inv_inv] at hinv

/-- A decimal up to the largest number is rounded, also where only its order of magnitude is looked at. -/
theorem nearestDecimal_spec (hle : (m : ℚ) * 10 ^ e ≤ largest) :
    NearestMagnitude ((m : ℚ) * 10 ^ e) (ofMagnitude negative (nearestDecimal m e)) := by
  unfold nearestDecimal
  split_ifs with hzero hhigh hlow
  · rw [hzero, Nat.cast_zero, zero_mul]
    exact nearestMagnitude_zero le_rfl (by positivity)
  · exfalso
    have hm : (2 : ℚ) ^ (m.log2 : ℤ) ≤ m := by
      rw [zpow_natCast]
      exact_mod_cast Nat.log2_self_le hzero
    have hbeyond : (2 : ℚ) ^ (1024 : ℤ) ≤ m * 10 ^ e := by
      calc (2 : ℚ) ^ (1024 : ℤ) ≤ 2 ^ ((m.log2 : ℤ) + 3 * e) := zpow_le_zpow_right₀ (by norm_num) hhigh.2.le
        _ = 2 ^ (m.log2 : ℤ) * 2 ^ (3 * e) := zpow_add₀ (by norm_num) _ _
        _ ≤ m * 10 ^ e := mul_le_mul hm (two_zpow_le_ten_zpow hhigh.1) (by positivity) (by positivity)
    exact absurd (hbeyond.trans hle) (not_le.2 largest_lt)
  · apply nearestMagnitude_zero (by positivity)
    have hm : (m : ℚ) ≤ 2 ^ ((m.log2 : ℤ) + 1) := by
      have hnat : m < 2 ^ (m.log2 + 1) := Nat.lt_log2_self
      exact_mod_cast hnat.le
    calc (m : ℚ) * 10 ^ e ≤ 2 ^ ((m.log2 : ℤ) + 1) * 2 ^ (3 * e) :=
        mul_le_mul hm (ten_zpow_le_two_zpow (by omega)) (by positivity) (by positivity)
      _ = 2 ^ ((m.log2 : ℤ) + 1 + 3 * e) := (zpow_add₀ (by norm_num) _ _).symm
      _ ≤ 2 ^ (-1074 - 1 : ℤ) := zpow_le_zpow_right₀ (by norm_num) (by omega)
      _ = 2 ^ (-1074 : ℤ) / 2 := zpow_sub_one₀ (by norm_num) _
  · have hquotient : (m : ℚ) * 10 ^ e = ((m * Nat.pow 10 e.toNat : ℕ) : ℚ) / (Nat.pow 10 (-e).toNat : ℕ) := by
      rw [zpow_eq_div 10 e]
      simp only [Nat.pow_eq]
      push_cast
      rw [mul_div_assoc]
    rw [hquotient] at hle ⊢
    exact nearest_spec (Nat.mul_pos (Nat.pos_of_ne_zero hzero) (Nat.pow_pos (by decide))) (Nat.pow_pos (by decide)) hle

theorem nearestDecimal_le (m : Nat) (e : ℤ) : nearestDecimal m e ≤ infinite := by
  unfold nearestDecimal
  split_ifs
  · omega
  · exact le_rfl
  · omega
  · exact Nat.min_le_right _ _

end Decimals

/-! ## Signs -/

section Signs

variable {q : ℚ} {x : Binary64} {m : Nat} {e : ℤ} {negative : Bool}

/-- With its sign, a number that is nearest in absolute value is nearest. -/
theorem NearestMagnitude.signed (h : NearestMagnitude q x) : Nearest (if x.isNegative then -q else q) x := by
  -- Where `x` is negative, all numbers are mirrored.
  have hmirror : ∀ z : ℚ, |(if x.isNegative then -z else z) - (if x.isNegative then -q else q)| = |z - q| := by
    intro z
    split
    · rw [neg_sub_neg, abs_sub_comm]
    · rfl
  have hvalue : x.value = if x.isNegative then -x.absValue else x.absValue := by
    unfold value
    rfl
  have hother : ∀ y : Binary64, ∃ z, Representable z ∧ y.value = if x.isNegative then -z else z := by
    intro y
    cases x.isNegative
    · exact ⟨y.value, y.representable_value, by simp⟩
    · exact ⟨-y.value, y.representable_value.neg, by simp⟩
  constructor
  · exact h.isFinite
  · intro y _
    obtain ⟨z, hz, hy⟩ := hother y
    rw [hvalue, hy, hmirror, hmirror]
    exact h.nearest z hz
  · intro y _ hne htie
    obtain ⟨z, hz, hy⟩ := hother y
    rw [hvalue, hy, hmirror, hmirror] at htie
    apply h.even z hz _ htie
    rintro rfl
    exact hne (hy.trans hvalue.symm)

theorem isNegative_toBinary64 : ((Literal.decimal m e).toBinary64 negative).isNegative = negative := by
  unfold Literal.toBinary64
  exact isNegative_ofMagnitude ((nearestDecimal_le m e).trans_lt (by decide))

/-- A decimal up to the largest number is read as the nearest number. -/
theorem toBinary64_nearest (hle : (m : ℚ) * 10 ^ e ≤ largest) :
    NearestMagnitude (m * 10 ^ e) ((Literal.decimal m e).toBinary64 negative) := by
  unfold Literal.toBinary64
  exact nearestDecimal_spec hle

end Signs

end ManagedRuntime.Binary64
