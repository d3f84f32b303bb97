import ManagedRuntime.Proofs.Number.Binary64
import ManagedRuntime.Proofs.Number.IntegerText
import ManagedRuntime.Proofs.Number.Numeral

/-!
# Fixed notation

* `FixedNotation` : the numeral that comes nearest to a number with a given number of decimals;
* `fixedNotation_printed` : it is what is printed;
* `stripZeros_eq` : the zeros at the end of the fraction are left out, and the point if nothing is left behind it;
* `fixed_notation` : the texts with a number of decimals in a field, and those without zeros at the end.
-/

namespace ManagedRuntime

set_option autoImplicit false

open LeadingNumber

/-- A numeral with the sign of `x` and a number of decimals. No number with as many decimals is nearer to `x`, and the
last digit is even where another one is as near. -/
structure FixedNotation (x : Binary64) (decimals : Nat) (n : Numeral) : Prop where
  negative : n.negative = x.isNegative
  places : n.fraction.length = decimals
  nearest : ∀ k : ℤ, |n.value - x.value| ≤ |(k : ℚ) / 10 ^ decimals - x.value|
  even : ∀ k : ℤ, (k : ℚ) / 10 ^ decimals ≠ n.value →
    |(k : ℚ) / 10 ^ decimals - x.value| = |n.value - x.value| → ∀ d ∈ n.digits.getLast?, Even (d.toNat - 48)

section

variable (x : Binary64) (decimals : Nat)

/-! ## Digits -/

/-- The digits that are printed, as a numeral. -/
def printed : Numeral := .ofCount x.isNegative decimals (Fixed.units x decimals)

theorem units_nearest : NearestMultiple (1 / 10 ^ decimals) x.absValue (Fixed.units x decimals : ℕ) := by
  have hpower : (0 : ℚ) < 10 ^ decimals := by positivity
  apply roundDiv_nearest x.denominator_pos (by positivity)
  rw [← Binary64.numerator_div_denominator, Nat.pow_eq]
  push_cast
  field_simp

theorem absValue_printed : (printed x decimals).absValue = Fixed.units x decimals / 10 ^ decimals :=
  Numeral.absValue_ofCount _ _ _

/-- With its sign, what is printed is a nearest multiple of the last decimal. -/
theorem exists_nearest_printed : ∃ count : ℤ, NearestMultiple (1 / 10 ^ decimals) x.value count ∧
    (printed x decimals).value = count * (1 / 10 ^ decimals) ∧
    (Even count → Even (digitsValue (printed x decimals).digits)) := by
  have hnegative : (printed x decimals).negative = x.isNegative := rfl
  have hdigits : digitsValue (printed x decimals).digits = Fixed.units x decimals := Numeral.digitsValue_ofCount _ _ _
  unfold Numeral.value Binary64.value
  rw [hnegative, absValue_printed, hdigits]
  split
  · refine ⟨-(Fixed.units x decimals : ℕ), (units_nearest x decimals).neg, ?_, ?_⟩
    · rw [Int.cast_neg, Int.cast_natCast, mul_one_div, neg_div]
    · rw [even_neg, Int.even_coe_nat]
      exact id
  · refine ⟨(Fixed.units x decimals : ℕ), units_nearest x decimals, ?_, ?_⟩
    · rw [Int.cast_natCast, mul_one_div]
    · rw [Int.even_coe_nat]
      exact id

theorem fixedNotation_printed : FixedNotation x decimals (printed x decimals) := by
  obtain ⟨count, hnearest, hvalue, heven⟩ := exists_nearest_printed x decimals
  constructor
  · rfl
  · exact Numeral.length_fraction_ofCount _ _ _
  · intro k
    rw [hvalue, ← mul_one_div (k : ℚ)]
    exact hnearest.nearest k
  · intro k hne htie
    rw [hvalue, ← mul_one_div (k : ℚ)] at hne htie
    apply Numeral.even_lastDigit
    apply heven
    apply hnearest.even k _ htie
    rintro rfl
    exact hne rfl

/-! ## Characters -/

theorem ascii_fixedDigits : ∀ c ∈ Fixed.digits x decimals, c.toNat < 0x80 := by
  apply ascii_signed
  refine List.forall_mem_append.2 ⟨?_, ?_⟩
  · intro c hc
    exact ascii_of_isDigit_char (isDigit_of_mem_toDigits hc)
  · unfold Fixed.fraction
    split
    · exact List.forall_mem_nil _
    · refine List.forall_mem_cons.2 ⟨by decide, ?_⟩
      intro c hc
      exact ascii_of_isDigit_char (isDigit_zeroPadded _ _ c hc)

/-- Both leave the point out where there are no decimals. -/
theorem body_printed : (printed x decimals).body = digitUnits (Fixed.units x decimals / 10 ^ decimals) ++
    (Fixed.fraction decimals (Fixed.units x decimals % 10 ^ decimals)).map unit := by
  have hlength : (printed x decimals).fraction.length = decimals := Numeral.length_fraction_ofCount _ _ _
  unfold Fixed.fraction
  obtain ⟨hfraction, hbody⟩ | ⟨hfraction, hbody⟩ := (printed x decimals).body_cases
  · have hnone : decimals = 0 := by
      rw [← hlength, hfraction, List.length_nil]
    rw [hbody, if_pos hnone, List.map_nil, List.append_nil]
    rfl
  · have hne : decimals ≠ 0 := by
      rw [← hlength, ne_eq, List.length_eq_zero_iff]
      exact hfraction
    have hpadded : (printed x decimals).fraction = paddedUnits decimals (Fixed.units x decimals % 10 ^ decimals) :=
      if_neg hne
    rw [hbody, if_neg hne, List.map_cons, map_unit_zeroPadded, hpadded]
    rfl

theorem map_unit_fixedDigits : (Fixed.digits x decimals).map unit = (printed x decimals).units := by
  unfold Fixed.digits
  dsimp only
  rw [map_unit_signed, List.map_append, Nat.pow_eq, Numeral.units, body_printed]
  rfl

end

/-! ## Zeros at the end -/

/-- Zeros behind the kept fraction are dropped, and then the point if no fraction is kept. -/
theorem stripZeros_eq {front kept : List Char} (zeros : Nat) (hfront : Stops (· == '.') front.reverse)
    (hkept : Stops (· == '0') kept.reverse) (hdigits : ∀ c ∈ kept, c.isDigit = true) :
    Fixed.stripZeros (front ++ '.' :: (kept ++ List.replicate zeros '0')) =
      front ++ if kept = [] then [] else '.' :: kept := by
  have hzeros : ∀ c ∈ List.replicate zeros '0', (c == '0') = true := by
    intro c hc
    rw [List.eq_of_mem_replicate hc]
    decide
  have hends : Stops (· == '0') (front ++ '.' :: kept).reverse := by
    rw [List.reverse_append, List.reverse_cons, List.append_assoc]
    exact stops_append hkept fun _ => stops_cons.2 (by decide)
  have hdropped : Blank.dropEnd (· == '0') (front ++ '.' :: (kept ++ List.replicate zeros '0')) =
      front ++ '.' :: kept := by
    have hsplit : front ++ '.' :: (kept ++ List.replicate zeros '0') =
        (front ++ '.' :: kept) ++ List.replicate zeros '0' := by simp
    rw [hsplit, Blank.dropEnd_append_of_stops hzeros hends]
  have hpoint : (front ++ '.' :: (kept ++ List.replicate zeros '0')).contains '.' = true := by simp
  unfold Fixed.stripZeros
  rw [if_pos hpoint, hdropped]
  by_cases hne : kept = []
  · rw [hne, if_pos rfl, List.append_nil]
    exact Blank.dropEnd_append_of_stops (List.forall_mem_singleton.2 rfl) hfront
  · rw [if_neg hne]
    have hlast : Stops (· == '.') (front ++ '.' :: kept).reverse := by
      rw [List.reverse_append, List.reverse_cons, List.append_assoc]
      apply stops_append
      · apply stops_of_forall
        intro c hc
        rw [beq_eq_false_iff_ne]
        rintro rfl
        exact absurd (hdigits '.' (List.mem_reverse.1 hc)) (by decide)
      · intro hnil
        exact absurd (List.reverse_eq_nil_iff.1 hnil) hne
    have hnone : ∀ c ∈ ([] : List Char), (c == '.') = true := List.forall_mem_nil _
    have hwhole := Blank.dropEnd_append_of_stops hnone hlast
    rwa [List.append_nil] at hwhole

theorem signed_append (negative : Bool) (cs ds : List Char) :
    Decimal.signed negative (cs ++ ds) = Decimal.signed negative cs ++ ds := by
  unfold Decimal.signed
  split
  · rw [List.cons_append]
  · rfl

/-- No point stands in front of the fraction. -/
theorem stops_whole (negative : Bool) (n : Nat) :
    Stops (· == '.') (Decimal.signed negative (Nat.toDigits 10 n)).reverse := by
  apply stops_of_forall
  intro c hc
  have hmem := List.mem_reverse.1 hc
  unfold Decimal.signed at hmem
  rw [beq_eq_false_iff_ne]
  rintro rfl
  have hdigit : '.' ∈ Nat.toDigits 10 n := by
    split at hmem
    · obtain h | h := List.mem_cons.1 hmem
      · exact absurd h (by decide)
      · exact h
    · exact hmem
  exact absurd (isDigit_of_mem_toDigits hdigit) (by decide)

/-- What is left without the zeros at the end of the fraction. -/
theorem exists_trimmed (x : Binary64) : ∃ short, Numeral.Trimmed (printed x 15) short ∧
    (Fixed.stripZeros (Fixed.digits x 15)).map unit = short.units := by
  obtain ⟨back, hsplit, hback, hkept⟩ :=
    Blank.exists_dropEnd (· == '0') (Fixed.zeroPadded 15 (Fixed.units x 15 % 10 ^ 15))
  generalize Blank.dropEnd (· == '0') (Fixed.zeroPadded 15 (Fixed.units x 15 % 10 ^ 15)) = kept at hsplit hkept
  have hzeros : back = List.replicate back.length '0' := by
    apply List.eq_replicate_of_mem
    intro c hc
    exact beq_iff_eq.1 (hback c hc)
  have hdigits : ∀ c ∈ kept, c.isDigit = true := by
    intro c hc
    apply isDigit_zeroPadded
    rw [hsplit]
    exact List.mem_append_left _ hc
  have hstripped : Fixed.stripZeros (Fixed.digits x 15) =
      Decimal.signed x.isNegative (Nat.toDigits 10 (Fixed.units x 15 / 10 ^ 15)) ++
        if kept = [] then [] else '.' :: kept := by
    rw [← stripZeros_eq back.length (stops_whole _ _) hkept hdigits, ← hzeros, ← hsplit, ← signed_append]
    rfl
  refine ⟨{
    negative := x.isNegative
    whole := digitUnits (Fixed.units x 15 / 10 ^ 15)
    fraction := kept.map unit
    plain := plainDigits_digitUnits _
    fraction_digits := ?_ }, ⟨?_, ?_, ⟨back.length, ?_⟩, ?_⟩, ?_⟩
  · intro d hd
    obtain ⟨c, hc, rfl⟩ := List.mem_map.1 hd
    exact isDigit_unit (hdigits c hc)
  · rfl
  · rfl
  · show paddedUnits 15 (Fixed.units x 15 % 10 ^ 15) = kept.map unit ++ List.replicate back.length (unit '0')
    rw [← map_unit_zeroPadded, hsplit, List.map_append, ← List.map_replicate, ← hzeros]
  · intro hlast
    rw [List.getLast?_map, Option.map_eq_some_iff] at hlast
    obtain ⟨c, hc, hunit⟩ := hlast
    have hzero : c = '0' := by
      have hascii := ascii_of_isDigit_char (hdigits c (List.mem_of_mem_getLast? hc))
      rw [← Utf16.single_unit hascii, hunit]
      decide
    rw [← List.head?_reverse] at hc
    have hstop := hkept c hc
    rw [hzero] at hstop
    exact absurd hstop (by decide)
  · rw [hstripped, List.map_append, map_unit_signed]
    unfold Numeral.units Numeral.body
    rw [List.append_assoc, apply_ite (List.map unit)]
    simp only [List.map_eq_nil_iff, List.map_nil, List.map_cons]
    rfl

/-! ## Texts -/

theorem mem_of_mem_stripZeros {cs : List Char} {c : Char} (h : c ∈ Fixed.stripZeros cs) : c ∈ cs := by
  have hdropped : ∀ (p : Char → Bool) (cs : List Char), c ∈ Blank.dropEnd p cs → c ∈ cs := by
    intro p cs hc
    obtain ⟨back, hcs, -, -⟩ := Blank.exists_dropEnd p cs
    rw [hcs]
    exact List.mem_append_left _ hc
  unfold Fixed.stripZeros at h
  split at h
  · exact hdropped _ _ (hdropped _ _ h)
  · exact h

section Texts

variable {x : Binary64} {width decimals : Int32}

/-- A finite number without zeros at its end. -/
theorem units_toText_of_isFinite (h : x.isFinite = true) :
    (Fixed.toText x).units = (Fixed.stripZeros (Fixed.digits x 15)).map unit := by
  have hascii : ∀ c ∈ Fixed.stripZeros (Fixed.digits x 15), c.toNat < 0x80 := by
    intro c hc
    exact ascii_fixedDigits x 15 c (mem_of_mem_stripZeros hc)
  unfold Fixed.toText
  rw [if_neg (Binary64.not_isNaN_of_isFinite h), if_neg (Binary64.not_isInfinite_of_isFinite h)]
  exact encode_of_ascii hascii

/-- The body of a finite number. -/
theorem body_of_isFinite {places : Nat} (h : x.isFinite = true) (hplaces : places ≤ Layout.limit) :
    Fixed.body x places = .ok (Fixed.digits x places) := by
  unfold Fixed.body Layout.bounded
  rw [if_neg (Binary64.not_isNaN_of_isFinite h), if_neg (Binary64.not_isInfinite_of_isFinite h), if_pos hplaces]
  rfl

/-- A body in a field that is no wider than the limit. -/
theorem inField_of_body {size places : Nat} {cs : List Char}
    (hsize : (if decimals < 0 then (0, 6) else (Word.toSize width, Word.toSize decimals)) = (size, places))
    (hlimit : size ≤ Layout.limit) (hbody : Fixed.body x places = .ok cs) :
    Fixed.inField x width decimals = .ok (Text.ofCharacters (List.replicate (size - cs.length) ' ' ++ cs)) := by
  unfold Fixed.inField
  rw [hsize]
  dsimp only
  rw [hbody]
  show (Layout.padded size cs >>= fun cs => .ok (Text.ofCharacters cs)) = _
  rw [padded_eq hlimit]
  rfl

/-- A finite number in a field. -/
theorem fixed_inField (width decimals : Int32) (h : x.isFinite = true) (hwidth : width.toInt ≤ 65535)
    (hnonneg : 0 ≤ decimals.toInt) (hdecimals : decimals.toInt ≤ 65535) : ∃ t, Fixed.inField x width decimals = .ok t ∧
      t.units = List.replicate (width.toInt - (printed x decimals.toInt.toNat).units.length).toNat (unit ' ') ++
        (printed x decimals.toInt.toNat).units := by
  have hnot : ¬ decimals < 0 := by
    rw [Int32.lt_iff_toInt_lt, not_lt]
    exact hnonneg
  refine ⟨_, inField_of_body (if_neg hnot) (toSize_le_limit hwidth)
    (body_of_isFinite h (toSize_le_limit hdecimals)), ?_⟩
  rw [units_field (ascii_fixedDigits _ _), fill_eq, map_unit_fixedDigits]
  rfl

end Texts

/--
**Fixed notation.** A finite number is printed in a field as the numeral that comes nearest to it with the given
number of decimals, behind as many blanks as are missing. Without a field it has fifteen decimals, of which the zeros
at the end are left out, and the point where no decimal is left; this changes neither the integer digits nor the
number that is denoted.
-/
theorem fixed_notation {x : Binary64} (hx : x.isFinite = true) :
    (∀ width decimals : Int32, width.toInt ≤ 65535 → 0 ≤ decimals.toInt → decimals.toInt ≤ 65535 →
      ∃ t n, Fixed.inField x width decimals = .ok t ∧ FixedNotation x decimals.toInt.toNat n ∧
        t.units = List.replicate (width.toInt - n.units.length).toNat (unit ' ') ++ n.units ∧
        (t.units.length : ℤ) = max width.toInt n.units.length) ∧
    ∃ t full short, Fixed.inField x 0 15 = .ok t ∧ FixedNotation x 15 full ∧ t.units = full.units ∧
      Numeral.Trimmed full short ∧ (Fixed.toText x).units = short.units ∧ short.value = full.value ∧
      (Fixed.toText x).units.getLast? ≠ some (unit '.') := by
  constructor
  · intro width decimals hwidth hnonneg hdecimals
    obtain ⟨t, hfield, hunits⟩ := fixed_inField width decimals hx hwidth hnonneg hdecimals
    refine ⟨t, printed x decimals.toInt.toNat, hfield, fixedNotation_printed x _, hunits, ?_⟩
    rw [hunits, List.length_append, List.length_replicate]
    omega
  · obtain ⟨t, hfield, hunits⟩ := fixed_inField 0 15 hx (by decide) (by decide) (by decide)
    rw [show (15 : Int32).toInt.toNat = 15 by decide, show (0 : Int32).toInt = 0 by decide] at hunits
    obtain ⟨short, htrimmed, hstripped⟩ := exists_trimmed x
    have htext : (Fixed.toText x).units = short.units := (units_toText_of_isFinite hx).trans hstripped
    refine ⟨t, printed x 15, short, hfield, fixedNotation_printed x 15, ?_, htrimmed, htext, htrimmed.value_eq, ?_⟩
    · have hnone : (0 - ((printed x 15).units.length : ℤ)).toNat = 0 := by omega
      rw [hunits, hnone, List.replicate_zero, List.nil_append]
    · rw [htext]
      intro hlast
      exact absurd (short.isDigit_getLast _ hlast) (by decide)

/-- Halfway between two integers the even one is printed, and fifteen decimals show the number itself. -/
theorem fixed_notation_halfway : (⟨0xC004000000000000⟩ : Binary64).isFinite = true ∧
    (∃ n, FixedNotation ⟨0xC004000000000000⟩ 0 n ∧
      "   -2".toList.map unit = List.replicate (5 - (n.units.length : ℤ)).toNat (unit ' ') ++ n.units) ∧
    ∃ full short, FixedNotation ⟨0xC004000000000000⟩ 15 full ∧ Numeral.Trimmed full short ∧
      full.units = "-2.500000000000000".toList.map unit ∧ short.units = "-2.5".toList.map unit := by
  have hfinite : (⟨0xC004000000000000⟩ : Binary64).isFinite = true := by decide
  have hrounded : Fixed.inField ⟨0xC004000000000000⟩ 5 0 = .ok ⟨"   -2".toList.map unit⟩ := by decide +kernel
  have hexact : Fixed.inField ⟨0xC004000000000000⟩ 0 15 = .ok ⟨"-2.500000000000000".toList.map unit⟩ := by
    decide +kernel
  have hshort : (Fixed.toText ⟨0xC004000000000000⟩).units = "-2.5".toList.map unit := by decide +kernel
  obtain ⟨hfield, t, full, short, ht, hfull, hunits, htrimmed, htext, -⟩ := fixed_notation hfinite
  obtain ⟨s, n, hs, hn, hpadded, -⟩ := hfield 5 0 (by decide) (by decide) (by decide)
  rw [hrounded, Except.ok.injEq] at hs
  rw [hexact, Except.ok.injEq] at ht
  subst hs ht
  exact ⟨hfinite, ⟨n, hn, hpadded⟩, full, short, hfull, htrimmed, hunits.symm, htext.symm.trans hshort⟩

end ManagedRuntime
