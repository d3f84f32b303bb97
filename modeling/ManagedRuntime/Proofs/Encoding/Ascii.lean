import Mathlib.Data.List.Induction
import Mathlib.Data.Nat.Digits.Defs
import ManagedRuntime.Number.Leading
import ManagedRuntime.Proofs.Encoding.Utf16

/-!
# ASCII units and their characters

Numbers are found by their units and then read by their characters, which for ASCII are the same.

* `decode_ascii` : the characters of ASCII units;
* `isDigit_single`, `isWhiteSpace_single` : a unit and its character are of the same class;
* `digitsValue` : the number that decimal digits spell;
* `value_map_single` : it is the one that is read off the characters.
-/

namespace ManagedRuntime

set_option autoImplicit false

open LeadingNumber

namespace Utf16

variable {u : UInt16} {us : List UInt16}

/-! ## Characters -/

theorem toNat_single (h : u.toNat < 0x80) : (single u).toNat = u.toNat := toNat_ofNat_of_valid (by omega)

theorem single_unit {c : Char} (h : c.toNat < 0x80) : single (unit c) = c := by
  rw [single, unit, Nat.toUInt16_eq, UInt16.toNat_ofNat', Nat.mod_eq_of_lt (by omega)]
  exact Char.ofNat_toNat c

theorem toNat_unit {c : Char} (h : c.toNat < 0x80) : (unit c).toNat = c.toNat := by
  rw [unit, Nat.toUInt16_eq, UInt16.toNat_ofNat', Nat.mod_eq_of_lt (by omega)]

/-- The character of an ASCII unit is known by its unit. -/
theorem single_eq_iff {c : Char} (hu : u.toNat < 0x80) (hc : c.toNat < 0x80) : single u = c ↔ u = unit c := by
  constructor
  · rintro rfl
    rw [unit, toNat_single hu]
    simp
  · rintro rfl
    exact single_unit hc

theorem decode_ascii (h : ∀ u ∈ us, u.toNat < 0x80) : decode us = us.map single := by
  induction us with
  | nil => rfl
  | cons u us ih =>
    rw [List.forall_mem_cons] at h
    have hu : isSurrogate u = false := by
      rw [isSurrogate_eq_false]
      omega
    rw [decode_single hu, ih h.2, List.map_cons]

/-! ## Classes of units -/

theorem isSpace_iff : Blank.isSpace u = true ↔ u.toNat = 32 ∨ 9 ≤ u.toNat ∧ u.toNat ≤ 13 := by
  simp [Blank.isSpace, UInt16.le_iff_toNat_le, ← UInt16.toNat_inj]

theorem isDigit_iff : isDigit u = true ↔ 48 ≤ u.toNat ∧ u.toNat ≤ 57 := by
  have hzero : (unit '0').toNat = 48 := rfl
  have hnine : (unit '9').toNat = 57 := rfl
  simp [isDigit, UInt16.le_iff_toNat_le, hzero, hnine]

theorem isDigit_char_iff {c : Char} : c.isDigit = true ↔ 48 ≤ c.toNat ∧ c.toNat ≤ 57 := by
  simp [Char.isDigit, UInt32.le_iff_toNat_le]

theorem isWhiteSpace_iff {c : Char} (h : c.toNat < 0x80) :
    Blank.isWhiteSpace c = true ↔ c.toNat = 32 ∨ 9 ≤ c.toNat ∧ c.toNat ≤ 13 := by
  simp [Blank.isWhiteSpace, Blank.whiteSpace]
  omega

theorem ascii_of_isSpace (h : Blank.isSpace u = true) : u.toNat < 0x80 := by
  rw [isSpace_iff] at h
  omega

theorem ascii_of_isDigit (h : isDigit u = true) : u.toNat < 0x80 := by
  rw [isDigit_iff] at h
  omega

theorem isDigit_single (h : u.toNat < 0x80) : (single u).isDigit = isDigit u := by
  rw [Bool.eq_iff_iff, isDigit_char_iff, isDigit_iff, toNat_single h]

theorem isWhiteSpace_single (h : u.toNat < 0x80) : Blank.isWhiteSpace (single u) = Blank.isSpace u := by
  rw [Bool.eq_iff_iff, isWhiteSpace_iff (by rwa [toNat_single h]), isSpace_iff, toNat_single h]

end Utf16

/-! ## Decimal digits -/

/-- The number that decimal digits spell, the last one standing for units. -/
def digitsValue (ds : List UInt16) : Nat := Nat.ofDigits 10 (ds.reverse.map fun d => d.toNat - 48)

theorem digitsValue_concat (ds : List UInt16) (d : UInt16) :
    digitsValue (ds ++ [d]) = 10 * digitsValue ds + (d.toNat - 48) := by
  rw [digitsValue, List.reverse_concat, List.map_cons, Nat.ofDigits_cons, ← digitsValue, Nat.add_comm]

theorem value_map_single {ds : List UInt16} (h : ∀ d ∈ ds, isDigit d = true) :
    Decimal.value (ds.map Utf16.single) = digitsValue ds := by
  induction ds using List.reverseRecOn with
  | nil => rfl
  | append_singleton ds d ih =>
    rw [List.forall_mem_append, List.forall_mem_singleton] at h
    have hd : (Utf16.single d).toNat = d.toNat := Utf16.toNat_single (Utf16.ascii_of_isDigit h.2)
    rw [digitsValue_concat, ← ih h.1, Decimal.value, List.map_append, Nat.ofDigitChars_append, ← Decimal.value]
    show 10 * _ + ((Utf16.single d).toNat - 48) = _
    rw [hd]

/-- Only zeros spell zero. -/
theorem digitsValue_eq_zero_iff {ds : List UInt16} (h : ∀ d ∈ ds, isDigit d = true) :
    digitsValue ds = 0 ↔ ∀ d ∈ ds, d = unit '0' := by
  induction ds using List.reverseRecOn with
  | nil => simp [digitsValue]
  | append_singleton ds d ih =>
    rw [List.forall_mem_append, List.forall_mem_singleton] at h
    have hd := Utf16.isDigit_iff.1 h.2
    have hzero : d.toNat - 48 = 0 ↔ d = unit '0' := by
      rw [← UInt16.toNat_inj]
      show _ ↔ d.toNat = 48
      omega
    rw [digitsValue_concat, List.forall_mem_append, List.forall_mem_singleton, ← ih h.1, ← hzero]
    omega

end ManagedRuntime
