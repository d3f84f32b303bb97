import ManagedRuntime.Number.Fixed
import ManagedRuntime.Proofs.Text.Stripping

/-!
# Printed digits

* `PlainDigits` : digits without needless zeros in front;
* `digitUnits` : the units of a number in decimal, which are such digits and spell the number;
* `paddedUnits` : the same with zeros in front, up to a number of places;
* `map_unit_signed` : the units of printed characters with a sign.
-/

namespace ManagedRuntime

set_option autoImplicit false

open LeadingNumber
open Utf16 (single)

/-- At least one digit, and no zero in front of others. -/
structure PlainDigits (ds : List UInt16) : Prop where
  digits : ∀ d ∈ ds, isDigit d = true
  ne_nil : ds ≠ []
  leading : ds.head? = some (unit '0') → ds = [unit '0']

/-- The unit of a minus sign, if there is one. -/
def signUnits (negative : Bool) : List UInt16 := if negative then [unit '-'] else []

theorem signed_signUnits (negative : Bool) : Signed (signUnits negative) negative := by
  cases negative
  · exact .absent
  · exact .minus

/-! ## Characters and units -/

section Characters

variable {cs : List Char} {n : Nat}

/-- ASCII characters are those of their units. -/
theorem map_single_unit (h : ∀ c ∈ cs, c.toNat < 0x80) : (cs.map unit).map single = cs := by
  have hself : ∀ c ∈ cs, (single ∘ unit) c = id c := by
    intro c hc
    exact Utf16.single_unit (h c hc)
  rw [List.map_map, List.map_congr_left hself, List.map_id]

theorem encode_of_ascii (h : ∀ c ∈ cs, c.toNat < 0x80) : Utf16.encode cs = cs.map unit := by
  have hascii : ∀ u ∈ cs.map unit, u.toNat < 0x80 := by
    intro u hu
    obtain ⟨c, hc, rfl⟩ := List.mem_map.1 hu
    rw [Utf16.toNat_unit (h c hc)]
    exact h c hc
  have hunits := Blank.encode_map_single hascii
  rwa [map_single_unit h] at hunits

theorem ascii_of_isDigit_char {c : Char} (h : c.isDigit = true) : c.toNat < 0x80 := by
  rw [Utf16.isDigit_char_iff] at h
  omega

theorem isDigit_unit {c : Char} (h : c.isDigit = true) : isDigit (unit c) = true := by
  have hascii := ascii_of_isDigit_char h
  rw [Utf16.isDigit_iff, Utf16.toNat_unit hascii]
  rwa [Utf16.isDigit_char_iff] at h

theorem ascii_signed {negative : Bool} (h : ∀ c ∈ cs, c.toNat < 0x80) :
    ∀ c ∈ Decimal.signed negative cs, c.toNat < 0x80 := by
  cases negative with
  | false => exact h
  | true => exact List.forall_mem_cons.2 ⟨by decide, h⟩

/-- The units of printed characters behind their sign. -/
theorem map_unit_signed (negative : Bool) (cs : List Char) :
    (Decimal.signed negative cs).map unit = signUnits negative ++ cs.map unit := by
  cases negative <;> rfl

/-! ## Digits -/

/-- The units of a number in decimal. -/
def digitUnits (n : Nat) : List UInt16 := (Nat.toDigits 10 n).map unit

theorem isDigit_of_mem_toDigits {c : Char} (h : c ∈ Nat.toDigits 10 n) : c.isDigit = true :=
  Nat.isDigit_of_mem_toDigits (by decide) (by decide) h

theorem isDigit_digitUnits (n : Nat) : ∀ d ∈ digitUnits n, isDigit d = true := by
  intro d hd
  obtain ⟨c, hc, rfl⟩ := List.mem_map.1 hd
  exact isDigit_unit (isDigit_of_mem_toDigits hc)

theorem digitsValue_digitUnits (n : Nat) : digitsValue (digitUnits n) = n := by
  have hchars : (digitUnits n).map single = Nat.toDigits 10 n := by
    apply map_single_unit
    intro c hc
    exact ascii_of_isDigit_char (isDigit_of_mem_toDigits hc)
  rw [← value_map_single (isDigit_digitUnits n), hchars]
  exact Nat.ofDigitChars_ten_toDigits

theorem digitUnits_ne_nil (n : Nat) : digitUnits n ≠ [] := by
  unfold digitUnits
  simp

/-- The last digit is split off. -/
theorem digitUnits_of_ten_le (h : 10 ≤ n) : digitUnits n = digitUnits (n / 10) ++ digitUnits (n % 10) := by
  unfold digitUnits
  rw [Nat.toDigits_of_base_le (by decide) h, List.map_append, Nat.toDigits_of_lt_base (Nat.mod_lt n (by decide))]

theorem head?_digitUnits (h : 0 < n) : (digitUnits n).head? ≠ some (unit '0') := by
  induction n using Nat.strong_induction_on with
  | _ n ih =>
    by_cases hlt : n < 10
    · have hall : ∀ n < 10, 0 < n → (digitUnits n).head? ≠ some (unit '0') := by decide
      exact hall n hlt h
    · have hten : 10 ≤ n := Nat.le_of_not_lt hlt
      rw [digitUnits_of_ten_le hten, List.head?_append_of_ne_nil _ (digitUnits_ne_nil _)]
      exact ih (n / 10) (by omega) (by omega)

theorem plainDigits_digitUnits (n : Nat) : PlainDigits (digitUnits n) where
  digits := isDigit_digitUnits n
  ne_nil := digitUnits_ne_nil n
  leading := by
    obtain rfl | hpos := Nat.eq_zero_or_pos n
    · intro _
      decide
    · intro hhead
      exact absurd hhead (head?_digitUnits hpos)

/-! ## Digits with zeros in front -/

theorem digitsValue_append (ds es : List UInt16) :
    digitsValue (ds ++ es) = digitsValue ds * 10 ^ es.length + digitsValue es := by
  unfold digitsValue
  rw [List.reverse_append, List.map_append, Nat.ofDigits_append, List.length_map, List.length_reverse, Nat.add_comm,
    Nat.mul_comm]

theorem digitsValue_replicate (k : Nat) : digitsValue (List.replicate k (unit '0')) = 0 := by
  have hdigits : ∀ d ∈ List.replicate k (unit '0'), isDigit d = true := by
    intro d hd
    rw [List.eq_of_mem_replicate hd]
    decide
  rw [digitsValue_eq_zero_iff hdigits]
  intro d hd
  exact List.eq_of_mem_replicate hd

/-- The units of a number in a number of places. -/
def paddedUnits (places n : Nat) : List UInt16 :=
  List.replicate (places - (digitUnits n).length) (unit '0') ++ digitUnits n

theorem map_unit_zeroPadded (places n : Nat) : (Fixed.zeroPadded places n).map unit = paddedUnits places n := by
  unfold Fixed.zeroPadded paddedUnits digitUnits
  rw [List.map_append, List.map_replicate, List.length_map]

theorem isDigit_zeroPadded (places n : Nat) : ∀ c ∈ Fixed.zeroPadded places n, c.isDigit = true := by
  intro c hc
  obtain hc | hc := List.mem_append.1 hc
  · rw [List.eq_of_mem_replicate hc]
    decide
  · exact isDigit_of_mem_toDigits hc

theorem isDigit_paddedUnits (places n : Nat) : ∀ d ∈ paddedUnits places n, isDigit d = true := by
  intro d hd
  rw [← map_unit_zeroPadded] at hd
  obtain ⟨c, hc, rfl⟩ := List.mem_map.1 hd
  exact isDigit_unit (isDigit_zeroPadded places n c hc)

theorem length_paddedUnits {places n : Nat} (hplaces : 0 < places) (hn : n < 10 ^ places) :
    (paddedUnits places n).length = places := by
  have hle : (digitUnits n).length ≤ places := by
    unfold digitUnits
    rw [List.length_map]
    exact (Nat.length_toDigits_le_iff (by decide) hplaces).2 hn
  unfold paddedUnits
  rw [List.length_append, List.length_replicate]
  omega

theorem digitsValue_paddedUnits (places n : Nat) : digitsValue (paddedUnits places n) = n := by
  unfold paddedUnits
  rw [digitsValue_append, digitsValue_replicate, digitsValue_digitUnits, Nat.zero_mul, Nat.zero_add]

end Characters

end ManagedRuntime
