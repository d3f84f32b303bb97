import ManagedRuntime.Proofs.Number.LeadingFloat

/-!
# Letter case in numbers

The words for numbers and the mark of a power of ten may be spelled in small letters and in capitals. No reader of
numbers tells the two apart, because each of its parts commutes with making all letters small.

* `decode_map_lowerUnit` : the characters of a text in small letters;
* `Literal.number?_map_toLower`, `LeadingNumber.floatLength?_map_lowerUnit` : a number keeps its value and its length;
* `SameReadings`, `sameReadings_of_lowerCase` : texts that differ only in the case of letters read alike;
* `Recased` : what `Text.upperCase` and `Text.lowerCase` change and what they keep;
* `letter_case_ignored` : all of this for every text.
-/

namespace ManagedRuntime

set_option autoImplicit false

open LeadingNumber (isDigit unit toNat_lowerUnit)
open Text (lowerUnit upperUnit)
open Utf16 (single pair decode isHigh isLow isSurrogate)

/-! ## Units -/

section Units

variable {u : UInt16}

theorem toNat_upperUnit (u : UInt16) :
    (upperUnit u).toNat = if 97 ≤ u.toNat ∧ u.toNat ≤ 122 then u.toNat - 32 else u.toNat := by
  unfold upperUnit
  simp only [UInt16.le_iff_toNat_le]
  show (if 97 ≤ u.toNat ∧ u.toNat ≤ 122 then u - 32 else u).toNat = _
  split
  next h =>
    have hle : (32 : UInt16) ≤ u := UInt16.le_iff_toNat_le.2 (Nat.le_trans (by decide) h.1)
    rw [UInt16.toNat_sub_of_le _ _ hle]
    rfl
  next => rfl

theorem lowerUnit_upperUnit (u : UInt16) : lowerUnit (upperUnit u) = lowerUnit u := by
  rw [← UInt16.toNat_inj, toNat_lowerUnit, toNat_lowerUnit, toNat_upperUnit]
  split_ifs <;> omega

theorem upperUnit_lowerUnit (u : UInt16) : upperUnit (lowerUnit u) = upperUnit u := by
  rw [← UInt16.toNat_inj, toNat_upperUnit, toNat_upperUnit, toNat_lowerUnit]
  split_ifs <;> omega

theorem lowerUnit_lowerUnit (u : UInt16) : lowerUnit (lowerUnit u) = lowerUnit u := by
  rw [← UInt16.toNat_inj, toNat_lowerUnit, toNat_lowerUnit]
  split_ifs <;> omega

theorem isSpace_comp_lowerUnit : Blank.isSpace ∘ lowerUnit = Blank.isSpace := by
  funext u
  rw [Function.comp_apply, Bool.eq_iff_iff, Utf16.isSpace_iff, Utf16.isSpace_iff, toNat_lowerUnit]
  split_ifs <;> omega

theorem isDigit_comp_lowerUnit : isDigit ∘ lowerUnit = isDigit := by
  funext u
  rw [Function.comp_apply, Bool.eq_iff_iff, Utf16.isDigit_iff, Utf16.isDigit_iff, toNat_lowerUnit]
  split_ifs <;> omega

/-- The signs and the point come before all letters. -/
theorem lowerUnit_eq_unit_iff {c : Char} (hc : c.toNat < 65) : lowerUnit u = unit c ↔ u = unit c := by
  rw [← UInt16.toNat_inj, ← UInt16.toNat_inj, toNat_lowerUnit, Utf16.toNat_unit (by omega)]
  split_ifs <;> omega

theorem lowerUnit_mark_iff : lowerUnit u = unit 'e' ∨ lowerUnit u = unit 'E' ↔ u = unit 'e' ∨ u = unit 'E' := by
  simp only [← UInt16.toNat_inj, toNat_lowerUnit]
  show _ = 101 ∨ _ = 69 ↔ _ = 101 ∨ _ = 69
  split_ifs <;> omega

/-- Only ASCII units are letters here. -/
theorem lowerUnit_of_le (h : 0x80 ≤ u.toNat) : lowerUnit u = u := by
  rw [← UInt16.toNat_inj, toNat_lowerUnit, if_neg (by omega)]

theorem upperUnit_of_le (h : 0x80 ≤ u.toNat) : upperUnit u = u := by
  rw [← UInt16.toNat_inj, toNat_upperUnit, if_neg (by omega)]

@[simp] theorem isHigh_lowerUnit (u : UInt16) : isHigh (lowerUnit u) = isHigh u := by
  rw [Bool.eq_iff_iff, Utf16.isHigh_iff, Utf16.isHigh_iff, toNat_lowerUnit]
  split_ifs <;> omega

@[simp] theorem isLow_lowerUnit (u : UInt16) : isLow (lowerUnit u) = isLow u := by
  rw [Bool.eq_iff_iff, Utf16.isLow_iff, Utf16.isLow_iff, toNat_lowerUnit]
  split_ifs <;> omega

@[simp] theorem isSurrogate_lowerUnit (u : UInt16) : isSurrogate (lowerUnit u) = isSurrogate u := by
  simp [isSurrogate]

end Units

/-! ## Characters -/

section Characters

variable {c d : Char} {ds : List Char}

theorem toNat_toLower (c : Char) :
    c.toLower.toNat = if 65 ≤ c.toNat ∧ c.toNat ≤ 90 then c.toNat + 32 else c.toNat := by
  unfold Char.toLower
  split
  next h =>
    have hletter : 65 ≤ c.toNat ∧ c.toNat ≤ 90 := by simpa [UInt32.le_iff_toNat_le] using h
    rw [if_pos hletter]
    show (c.val + 32).toNat = c.toNat + 32
    rw [UInt32.toNat_add]
    show (c.toNat + 32) % 4294967296 = c.toNat + 32
    omega
  next h =>
    have hletter : ¬ (65 ≤ c.toNat ∧ c.toNat ≤ 90) := by simpa [UInt32.le_iff_toNat_le] using h
    rw [if_neg hletter]

theorem toLower_toLower (c : Char) : c.toLower.toLower = c.toLower := by
  rw [← Char.toNat_inj, toNat_toLower, toNat_toLower]
  split_ifs <;> omega

theorem isDigit_comp_toLower : Char.isDigit ∘ Char.toLower = Char.isDigit := by
  funext c
  rw [Function.comp_apply, Bool.eq_iff_iff, Utf16.isDigit_char_iff, Utf16.isDigit_char_iff, toNat_toLower]
  split_ifs <;> omega

theorem isWhiteSpace_comp_toLower : Blank.isWhiteSpace ∘ Char.toLower = Blank.isWhiteSpace := by
  funext c
  rw [Function.comp_apply, Bool.eq_iff_iff]
  simp only [Blank.isWhiteSpace, Blank.whiteSpace, List.any_cons, List.any_nil, Bool.or_eq_true, Bool.and_eq_true,
    decide_eq_true_eq, Bool.or_false, toNat_toLower]
  split_ifs <;> omega

theorem toLower_eq_iff (hd : d.toNat < 65) : c.toLower = d ↔ c = d := by
  rw [← Char.toNat_inj, ← Char.toNat_inj, toNat_toLower]
  split_ifs <;> omega

theorem toLower_mark_iff : c.toLower = 'e' ∨ c.toLower = 'E' ↔ c = 'e' ∨ c = 'E' := by
  simp only [← Char.toNat_inj, toNat_toLower]
  show _ = 101 ∨ _ = 69 ↔ _ = 101 ∨ _ = 69
  split_ifs <;> omega

/-- Digits have no case. -/
theorem map_toLower_of_digits (h : ds.all Char.isDigit = true) : ds.map Char.toLower = ds := by
  have hsame : ∀ d ∈ ds, d.toLower = id d := by
    intro d hd
    have hdigit := Utf16.isDigit_char_iff.1 (List.all_eq_true.1 h d hd)
    rw [id, ← Char.toNat_inj, toNat_toLower, if_neg (by omega)]
  rw [List.map_congr_left hsame, List.map_id]

theorem all_isDigit_map_toLower (ds : List Char) : (ds.map Char.toLower).all Char.isDigit = ds.all Char.isDigit := by
  rw [List.all_map, isDigit_comp_toLower]

theorem takeWhile_isDigit_map_toLower (cs : List Char) :
    (cs.map Char.toLower).takeWhile Char.isDigit = cs.takeWhile Char.isDigit := by
  rw [List.takeWhile_map, isDigit_comp_toLower]
  exact map_toLower_of_digits List.all_takeWhile

theorem dropWhile_isDigit_map_toLower (cs : List Char) :
    (cs.map Char.toLower).dropWhile Char.isDigit = (cs.dropWhile Char.isDigit).map Char.toLower := by
  rw [List.dropWhile_map, isDigit_comp_toLower]

end Characters

/-! ## The characters of a text -/

section Decoding

variable {u v : UInt16}

theorem single_lowerUnit (h : isSurrogate u = false) : single (lowerUnit u) = (single u).toLower := by
  have hlt := u.toNat_lt
  have hlower := toNat_lowerUnit u
  rw [Utf16.isSurrogate_eq_false] at h
  have hsingle : (single u).toNat = u.toNat := Utf16.toNat_ofNat_of_valid (by omega)
  have hsmall : (single (lowerUnit u)).toNat = (lowerUnit u).toNat := by
    apply Utf16.toNat_ofNat_of_valid
    split_ifs at hlower <;> omega
  rw [← Char.toNat_inj, toNat_toLower, hsmall, hsingle, hlower]

/-- The characters above U+FFFF have no case here. -/
theorem toLower_pair (hhigh : isHigh u = true) (hlow : isLow v = true) : (pair u v).toLower = pair u v := by
  rw [Utf16.isHigh_iff] at hhigh
  rw [Utf16.isLow_iff] at hlow
  have hpair : (pair u v).toNat = 0x10000 + (u.toNat - 0xD800) * 0x400 + (v.toNat - 0xDC00) :=
    Utf16.toNat_ofNat_of_valid (by omega)
  rw [← Char.toNat_inj, toNat_toLower, if_neg (by omega)]

theorem decode_map_lowerUnit (us : List UInt16) : decode (us.map lowerUnit) = (decode us).map Char.toLower := by
  fun_induction decode us with
  | case1 => rfl
  | case2 u h => simp [decode, h]
  | case3 u h => simp [decode, h, single_lowerUnit (Bool.eq_false_iff.2 h)]
  | case4 u v rest h ih =>
    obtain ⟨hhigh, hlow⟩ := Bool.and_eq_true_iff.1 h
    have hu : lowerUnit u = u := lowerUnit_of_le (Nat.le_trans (by decide) ((Utf16.isHigh_iff u).1 hhigh).1)
    have hv : lowerUnit v = v := lowerUnit_of_le (Nat.le_trans (by decide) ((Utf16.isLow_iff v).1 hlow).1)
    simp [decode, hhigh, hlow, hu, hv, toLower_pair hhigh hlow, ih]
  | case5 u v rest hpair h ih =>
    rw [List.map_cons] at ih
    simp [decode, hpair, h, ih]
  | case6 u v rest hpair h ih =>
    rw [List.map_cons] at ih
    simp [decode, hpair, h, ih, single_lowerUnit (Bool.eq_false_iff.2 h)]

theorem characters_lowerCase (t : Text) : t.lowerCase.characters = t.characters.map Char.toLower :=
  decode_map_lowerUnit t.units

theorem strip_map_toLower (cs : List Char) :
    Blank.strip (cs.map Char.toLower) = (Blank.strip cs).map Char.toLower := by
  simp only [Blank.strip, Blank.stripStart, Blank.dropEnd, List.dropWhile_map, ← List.map_reverse,
    isWhiteSpace_comp_toLower]

end Decoding

/-! ## Values -/

namespace Decimal

theorem splitSign_of_ne {c : Char} (cs : List Char) (hplus : c ≠ '+') (hminus : c ≠ '-') :
    splitSign (c :: cs) = (false, c :: cs) := by
  unfold splitSign
  split
  next heq => exact absurd (List.cons.inj heq).1 hplus
  next heq => exact absurd (List.cons.inj heq).1 hminus
  next => rfl

theorem splitSign_map_toLower (cs : List Char) : splitSign (cs.map Char.toLower) =
    ((splitSign cs).1, (splitSign cs).2.map Char.toLower) := by
  cases cs with
  | nil => rfl
  | cons c cs =>
    by_cases hplus : c = '+'
    · rw [hplus]
      rfl
    by_cases hminus : c = '-'
    · rw [hminus]
      rfl
    have hplus' : c.toLower ≠ '+' := fun h => hplus ((toLower_eq_iff (by decide)).1 h)
    have hminus' : c.toLower ≠ '-' := fun h => hminus ((toLower_eq_iff (by decide)).1 h)
    rw [List.map_cons, splitSign_of_ne _ hplus' hminus', splitSign_of_ne _ hplus hminus, List.map_cons]

theorem parse?_map_toLower (cs : List Char) : parse? (cs.map Char.toLower) = parse? cs := by
  unfold parse?
  rw [splitSign_map_toLower]
  dsimp only
  by_cases h : (splitSign cs).2.all Char.isDigit = true
  · rw [map_toLower_of_digits h]
  · simp only [all_isDigit_map_toLower, h, Bool.false_eq_true, and_false, if_false]

end Decimal

namespace Literal

theorem ofWord?_map_toLower (cs : List Char) : ofWord? (cs.map Char.toLower) = ofWord? cs := by
  have hcomp : Char.toLower ∘ Char.toLower = Char.toLower := funext toLower_toLower
  rw [ofWord?, List.map_map, hcomp, ← ofWord?]

theorem splitMantissa_map_toLower (cs : List Char) : splitMantissa (cs.map Char.toLower) =
    ((splitMantissa cs).1, (splitMantissa cs).2.1, (splitMantissa cs).2.2.map Char.toLower) := by
  unfold splitMantissa
  dsimp only
  rw [takeWhile_isDigit_map_toLower, dropWhile_isDigit_map_toLower]
  cases cs.dropWhile Char.isDigit with
  | nil => rfl
  | cons c rest =>
    by_cases hpoint : c = '.'
    · have hlower : Char.toLower '.' = '.' := rfl
      simp only [hpoint, List.map_cons, hlower, takeWhile_isDigit_map_toLower, dropWhile_isDigit_map_toLower]
    · have hlower : c.toLower ≠ '.' := fun h => hpoint ((toLower_eq_iff (by decide)).1 h)
      simp [hpoint, hlower]

theorem exponent?_map_toLower (cs : List Char) : exponent? (cs.map Char.toLower) = exponent? cs := by
  cases cs with
  | nil => rfl
  | cons mark rest =>
    rw [List.map_cons, exponent?, exponent?, Decimal.splitSign_map_toLower]
    simp only [toLower_mark_iff]
    by_cases h : (Decimal.splitSign rest).2.all Char.isDigit = true
    · rw [map_toLower_of_digits h]
    · simp only [all_isDigit_map_toLower, h, Bool.false_eq_true, and_false, if_false]

theorem ofDigits?_map_toLower (cs : List Char) : ofDigits? (cs.map Char.toLower) = ofDigits? cs := by
  unfold ofDigits?
  rw [splitMantissa_map_toLower]
  dsimp only
  rw [exponent?_map_toLower]

theorem number?_map_toLower (cs : List Char) : number? (cs.map Char.toLower) = number? cs := by
  unfold number? parse?
  rw [Decimal.splitSign_map_toLower]
  dsimp only
  rw [ofWord?_map_toLower, ofDigits?_map_toLower]

end Literal

namespace LeadingNumber

theorem mantissaDigits_map_toLower (cs : List Char) : mantissaDigits (cs.map Char.toLower) = mantissaDigits cs := by
  have hmark : (fun c : Char => decide (c ≠ 'e' ∧ c ≠ 'E')) ∘ Char.toLower = fun c => decide (c ≠ 'e' ∧ c ≠ 'E') := by
    funext c
    simp only [Function.comp_apply, ← not_or, toLower_mark_iff]
  unfold mantissaDigits
  rw [List.takeWhile_map, hmark, List.filter_map, isDigit_comp_toLower]
  exact map_toLower_of_digits (List.all_eq_true.2 fun c hc => List.of_mem_filter hc)

theorem isOutOfRange_map_toLower (cs : List Char) (x : Binary64) :
    isOutOfRange (cs.map Char.toLower) x = isOutOfRange cs x := by
  rw [isOutOfRange, mantissaDigits_map_toLower, ← isOutOfRange]

/-! ## Lengths -/

section Lengths

variable (us : List UInt16)

theorem countSpaces_map_lowerUnit : countSpaces (us.map lowerUnit) = countSpaces us := by
  rw [countSpaces, List.takeWhile_map, isSpace_comp_lowerUnit, List.length_map, ← countSpaces]

theorem countDigits_map_lowerUnit : countDigits (us.map lowerUnit) = countDigits us := by
  rw [countDigits, List.takeWhile_map, isDigit_comp_lowerUnit, List.length_map, ← countDigits]

theorem countSign_map_lowerUnit : countSign (us.map lowerUnit) = countSign us := by
  cases us with
  | nil => rfl
  | cons u us =>
    have hplus : lowerUnit u = unit '+' ↔ u = unit '+' := lowerUnit_eq_unit_iff (by decide)
    have hminus : lowerUnit u = unit '-' ↔ u = unit '-' := lowerUnit_eq_unit_iff (by decide)
    simp only [List.map_cons, countSign, hplus, hminus]

theorem countLead_map_lowerUnit : countLead (us.map lowerUnit) = countLead us := by
  rw [countLead, countSpaces_map_lowerUnit, ← List.map_drop, countSign_map_lowerUnit, ← countLead]

theorem integerLength?_map_lowerUnit : integerLength? (us.map lowerUnit) = integerLength? us := by
  unfold integerLength?
  dsimp only
  rw [countLead_map_lowerUnit, ← List.map_drop, countDigits_map_lowerUnit]

theorem wordLength?_map_lowerUnit : wordLength? (us.map lowerUnit) = wordLength? us := by
  have hcomp : lowerUnit ∘ lowerUnit = lowerUnit := funext lowerUnit_lowerUnit
  unfold wordLength?
  rw [List.map_map, hcomp]

theorem mantissaLength?_map_lowerUnit : mantissaLength? (us.map lowerUnit) = mantissaLength? us := by
  unfold mantissaLength?
  dsimp only
  rw [countDigits_map_lowerUnit, ← List.map_drop]
  cases us.drop (countDigits us) with
  | nil => rfl
  | cons u rest =>
    have hpoint : lowerUnit u = unit '.' ↔ u = unit '.' := lowerUnit_eq_unit_iff (by decide)
    simp only [List.map_cons, hpoint, countDigits_map_lowerUnit]

theorem exponentLength_map_lowerUnit : exponentLength (us.map lowerUnit) = exponentLength us := by
  cases us with
  | nil => rfl
  | cons mark rest =>
    simp only [List.map_cons, exponentLength, countSign_map_lowerUnit, ← List.map_drop, countDigits_map_lowerUnit,
      lowerUnit_mark_iff]

theorem decimalLength?_map_lowerUnit : decimalLength? (us.map lowerUnit) = decimalLength? us := by
  unfold decimalLength?
  rw [mantissaLength?_map_lowerUnit]
  congr 1
  funext n
  rw [← List.map_drop, exponentLength_map_lowerUnit]

theorem floatLength?_map_lowerUnit : floatLength? (us.map lowerUnit) = floatLength? us := by
  unfold floatLength?
  dsimp only
  rw [countLead_map_lowerUnit, ← List.map_drop, wordLength?_map_lowerUnit, decimalLength?_map_lowerUnit]

end Lengths

theorem spelling_lowerCase (t : Text) (n : Nat) : spelling t.lowerCase n = (spelling t n).map Char.toLower := by
  unfold spelling Text.lowerCase
  rw [← List.map_take, decode_map_lowerUnit, Blank.stripStart, List.dropWhile_map, isWhiteSpace_comp_toLower]
  rfl

theorem placeAfter_lowerCase (t : Text) (n : Nat) : placeAfter t.lowerCase n = placeAfter t n := by
  rw [placeAfter, Text.lowerCase, List.length_map, ← placeAfter]

theorem integer_lowerCase (t : Text) : integer t.lowerCase = integer t := by
  unfold integer
  simp only [spelling_lowerCase, Decimal.parse?_map_toLower, placeAfter_lowerCase]
  rw [show t.lowerCase.units = t.units.map lowerUnit from rfl, integerLength?_map_lowerUnit]

theorem float_lowerCase (t : Text) : float t.lowerCase = float t := by
  unfold float
  simp only [spelling_lowerCase, Literal.number?_map_toLower, isOutOfRange_map_toLower, placeAfter_lowerCase]
  rw [show t.lowerCase.units = t.units.map lowerUnit from rfl, floatLength?_map_lowerUnit]

end LeadingNumber

theorem Decimal.read_lowerCase (t : Text) : Decimal.read t.lowerCase = Decimal.read t := by
  rw [Decimal.read, Decimal.read, characters_lowerCase, strip_map_toLower, Decimal.parse?_map_toLower]

theorem Literal.read_lowerCase (t : Text) : Literal.read t.lowerCase = Literal.read t := by
  rw [Literal.read, Literal.read, characters_lowerCase, strip_map_toLower, Literal.number?_map_toLower]

/-! ## All readers of numbers -/

/-- All readers of numbers answer the same, be it a number or a refusal. -/
structure SameReadings (s t : Text) : Prop where
  integer : Decimal.read s = Decimal.read t
  float : Literal.read s = Literal.read t
  leadingInteger : LeadingNumber.integer s = LeadingNumber.integer t
  leadingFloat : LeadingNumber.float s = LeadingNumber.float t

theorem sameReadings_lowerCase (t : Text) : SameReadings t.lowerCase t where
  integer := Decimal.read_lowerCase t
  float := Literal.read_lowerCase t
  leadingInteger := LeadingNumber.integer_lowerCase t
  leadingFloat := LeadingNumber.float_lowerCase t

namespace SameReadings

variable {s t r : Text}

theorem symm (h : SameReadings s t) : SameReadings t s :=
  ⟨h.integer.symm, h.float.symm, h.leadingInteger.symm, h.leadingFloat.symm⟩

theorem trans (h : SameReadings s t) (h' : SameReadings t r) : SameReadings s r where
  integer := h.integer.trans h'.integer
  float := h.float.trans h'.float
  leadingInteger := h.leadingInteger.trans h'.leadingInteger
  leadingFloat := h.leadingFloat.trans h'.leadingFloat

end SameReadings

/-- Texts that differ only in the case of their letters read alike. -/
theorem sameReadings_of_lowerCase {s t : Text} (h : s.lowerCase = t.lowerCase) : SameReadings s t := by
  have ht := sameReadings_lowerCase t
  rw [← h] at ht
  exact (sameReadings_lowerCase s).symm.trans ht

/-! ## Changing the case -/

/-- A text in capitals and in small letters. -/
structure Recased (t : Text) : Prop where
  upperLower : t.lowerCase.upperCase = t.upperCase
  lowerUpper : t.upperCase.lowerCase = t.lowerCase
  noSmall : ∀ u ∈ t.upperCase.units, ¬ (unit 'a' ≤ u ∧ u ≤ unit 'z')
  noCapital : ∀ u ∈ t.lowerCase.units, ¬ (unit 'A' ≤ u ∧ u ≤ unit 'Z')
  length : t.upperCase.units.length = t.units.length ∧ t.lowerCase.units.length = t.units.length
  /-- Units that are not ASCII stay where they are. -/
  kept : ∀ (i : Nat) (u : UInt16), t.units[i]? = some u → 0x80 ≤ u →
    t.upperCase.units[i]? = some u ∧ t.lowerCase.units[i]? = some u

theorem lowerCase_upperCase (t : Text) : t.upperCase.lowerCase = t.lowerCase := by
  simp [Text.lowerCase, Text.upperCase, lowerUnit_upperUnit]

theorem recased (t : Text) : Recased t where
  upperLower := by simp [Text.lowerCase, Text.upperCase, upperUnit_lowerUnit]
  lowerUpper := lowerCase_upperCase t
  noSmall := by
    intro v hv
    obtain ⟨u, -, rfl⟩ := List.mem_map.1 hv
    rw [UInt16.le_iff_toNat_le, UInt16.le_iff_toNat_le, toNat_upperUnit]
    show ¬ (97 ≤ _ ∧ _ ≤ 122)
    split_ifs <;> omega
  noCapital := by
    intro v hv
    obtain ⟨u, -, rfl⟩ := List.mem_map.1 hv
    rw [UInt16.le_iff_toNat_le, UInt16.le_iff_toNat_le, toNat_lowerUnit]
    show ¬ (65 ≤ _ ∧ _ ≤ 90)
    split_ifs <;> omega
  length := ⟨List.length_map _, List.length_map _⟩
  kept := by
    intro i u hu hle
    have hle : 0x80 ≤ u.toNat := UInt16.le_iff_toNat_le.1 hle
    simp [Text.upperCase, Text.lowerCase, hu, upperUnit_of_le hle, lowerUnit_of_le hle]

/--
**Letter case is ignored.** All readers of numbers answer the same for a text, for it in capitals and in small
letters, and for every other text that differs from it only in the case of letters.
-/
theorem letter_case_ignored (t : Text) :
    Recased t ∧ SameReadings t.upperCase t ∧ SameReadings t.lowerCase t ∧
      ∀ s : Text, s.lowerCase = t.lowerCase → SameReadings s t :=
  ⟨recased t, sameReadings_of_lowerCase (lowerCase_upperCase t), sameReadings_lowerCase t,
    fun _ => sameReadings_of_lowerCase⟩

/-- A number that is too small is refused, whichever way the mark of its power of ten is written. -/
theorem letter_case_ignored_tooSmall :
    (Text.ofString "1E-999").lowerCase = (Text.ofString "1e-999").lowerCase ∧
    LeadingNumber.float (Text.ofString "1E-999") = (.zero, 1) ∧
    LeadingNumber.float (Text.ofString "1e-999") = (.zero, 1) := by
  obtain ⟨-, -, -, hreadings⟩ := letter_case_ignored (Text.ofString "1e-999")
  have hsmall : LeadingNumber.float (Text.ofString "1e-999") = (.zero, 1) := by decide +kernel
  exact ⟨by decide, (hreadings (Text.ofString "1E-999") (by decide)).leadingFloat.trans hsmall, hsmall⟩

end ManagedRuntime
