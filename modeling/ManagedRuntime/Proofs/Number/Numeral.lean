import ManagedRuntime.Proofs.Number.Grammar
import ManagedRuntime.Proofs.Number.Rounding
import ManagedRuntime.Proofs.Number.Digits

/-!
# Decimal numerals

* `Numeral` : a sign, plain integer digits, and fraction digits behind a point, which stands only in front of digits;
* `Numeral.value` : the rational number that it denotes;
* `Numeral.ofCount` : the numeral of a count in units of the last decimal;
* `Numeral.Trimmed` : a numeral without the zeros at the end of its fraction, which denotes the same number;
* `Numeral.body_literal` : the grammar of numbers has every numeral.
-/

namespace ManagedRuntime

set_option autoImplicit false

open LeadingNumber

/-- A number in decimal. -/
structure Numeral where
  negative : Bool
  whole : List UInt16
  fraction : List UInt16
  plain : PlainDigits whole
  fraction_digits : ∀ d ∈ fraction, isDigit d = true

namespace Numeral

section

variable (n : Numeral)

def digits : List UInt16 := n.whole ++ n.fraction

/-- The units without the sign; a point stands only in front of digits. -/
def body : List UInt16 := n.whole ++ if n.fraction = [] then [] else unit '.' :: n.fraction

def units : List UInt16 := signUnits n.negative ++ n.body

/-- The absolute value of the number that a numeral denotes. -/
def absValue : ℚ := digitsValue n.digits / 10 ^ n.fraction.length

/-- The number that a numeral denotes. -/
def value : ℚ := if n.negative then -n.absValue else n.absValue

/-- The literal that a numeral spells. -/
def literal : Literal := .decimal (digitsValue n.digits) (-n.fraction.length)

/-! ## Digits -/

theorem isDigit_digits : ∀ d ∈ n.digits, isDigit d = true :=
  List.forall_mem_append.2 ⟨n.plain.digits, n.fraction_digits⟩

theorem digits_ne_nil : n.digits ≠ [] := List.append_ne_nil_of_left_ne_nil n.plain.ne_nil _

theorem body_cases :
    n.fraction = [] ∧ n.body = n.whole ∨ n.fraction ≠ [] ∧ n.body = n.whole ++ unit '.' :: n.fraction := by
  unfold body
  by_cases h : n.fraction = []
  · left
    rw [if_pos h, List.append_nil]
    exact ⟨h, rfl⟩
  · right
    rw [if_neg h]
    exact ⟨h, rfl⟩

/-- A numeral ends in a digit. -/
theorem isDigit_getLast : ∀ u ∈ n.units.getLast?, isDigit u = true := by
  have hlast : n.units.getLast? = n.digits.getLast? := by
    unfold units digits
    obtain ⟨hfraction, hbody⟩ | ⟨hfraction, hbody⟩ := n.body_cases
    · rw [hbody, hfraction, List.append_nil, List.getLast?_append_of_ne_nil _ n.plain.ne_nil]
    · rw [hbody, List.getLast?_append_of_ne_nil _ (by simp), List.getLast?_append_of_ne_nil _ (by simp),
        List.getLast?_append_of_ne_nil _ hfraction, List.getLast?_cons_of_ne_nil hfraction]
  intro u hu
  rw [hlast] at hu
  exact n.isDigit_digits u (List.mem_of_mem_getLast? hu)

/-- The digits are an even number only where the last one is even. -/
theorem even_lastDigit (h : Even (digitsValue n.digits)) : ∀ d ∈ n.digits.getLast?, Even (d.toNat - 48) := by
  intro d hd
  obtain ⟨ds, hds⟩ := List.getLast?_eq_some_iff.1 hd
  have hten : Even 10 := by decide
  rw [hds, digitsValue_concat, Nat.even_add] at h
  exact h.1 (hten.mul_right _)

/-! ## Grammar -/

theorem mantissa_body : Mantissa n.body n.digits n.fraction.length := by
  unfold digits
  obtain ⟨hfraction, hbody⟩ | ⟨hfraction, hbody⟩ := n.body_cases
  · rw [hbody, hfraction, List.append_nil]
    exact .whole n.plain.ne_nil n.plain.digits
  · rw [hbody]
    exact .pointed n.digits_ne_nil n.plain.digits n.fraction_digits

/-- The grammar of numbers has every numeral. -/
theorem body_literal : Body n.body n.literal := by
  unfold literal
  have hnumber := Body.decimal n.mantissa_body .absent
  rwa [List.append_nil, Int.zero_sub] at hnumber

end

/-! ## Counts -/

section Count

variable (negative : Bool) (decimals count : Nat)

/-- The numeral of a count in units of the last decimal. -/
def ofCount : Numeral where
  negative := negative
  whole := digitUnits (count / 10 ^ decimals)
  fraction := if decimals = 0 then [] else paddedUnits decimals (count % 10 ^ decimals)
  plain := plainDigits_digitUnits _
  fraction_digits := by
    split
    · exact List.forall_mem_nil _
    · exact isDigit_paddedUnits _ _

theorem length_fraction_ofCount : (ofCount negative decimals count).fraction.length = decimals := by
  show (if decimals = 0 then [] else paddedUnits decimals (count % 10 ^ decimals)).length = decimals
  split
  next h => rw [h, List.length_nil]
  next h => exact length_paddedUnits (Nat.pos_of_ne_zero h) (Nat.mod_lt _ (Nat.pow_pos (by decide)))

theorem digitsValue_ofCount : digitsValue (ofCount negative decimals count).digits = count := by
  show digitsValue (digitUnits (count / 10 ^ decimals) ++ (ofCount negative decimals count).fraction) = count
  rw [digitsValue_append, digitsValue_digitUnits, length_fraction_ofCount]
  show _ + digitsValue (if decimals = 0 then [] else paddedUnits decimals (count % 10 ^ decimals)) = count
  split
  next h =>
    rw [h, Nat.pow_zero, Nat.div_one, Nat.mul_one]
    rfl
  next h => rw [digitsValue_paddedUnits, Nat.div_add_mod']

theorem absValue_ofCount : (ofCount negative decimals count).absValue = count / 10 ^ decimals := by
  unfold absValue
  rw [digitsValue_ofCount, length_fraction_ofCount]

end Count

/-! ## Zeros at the end -/

/-- `short` is `full` without the zeros at the end of its fraction. -/
structure Trimmed (full short : Numeral) : Prop where
  negative : short.negative = full.negative
  whole : short.whole = full.whole
  fraction : ∃ zeros, full.fraction = short.fraction ++ List.replicate zeros (unit '0')
  ends : short.fraction.getLast? ≠ some (unit '0')

theorem Trimmed.absValue_eq {full short : Numeral} (h : Trimmed full short) : short.absValue = full.absValue := by
  obtain ⟨zeros, hfraction⟩ := h.fraction
  have hdigits : digitsValue full.digits = digitsValue short.digits * 10 ^ zeros := by
    unfold digits
    rw [hfraction, h.whole, ← List.append_assoc, digitsValue_append, digitsValue_replicate, Nat.add_zero,
      List.length_replicate]
  have hpower : (10 : ℚ) ^ zeros ≠ 0 := by positivity
  unfold absValue
  rw [hdigits, hfraction, List.length_append, List.length_replicate, pow_add]
  push_cast
  rw [mul_div_mul_right _ _ hpower]

theorem Trimmed.value_eq {full short : Numeral} (h : Trimmed full short) : short.value = full.value := by
  unfold value
  rw [h.negative, h.absValue_eq]

end Numeral

end ManagedRuntime
