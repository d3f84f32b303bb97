import ManagedRuntime.Proofs.Number.FixedNotation
import ManagedRuntime.Proofs.Number.LeadingFloat
import ManagedRuntime.Proofs.Number.NearestBinary

/-!
# Reading printed numbers back

* `reads_number` : both ways of reading take a number behind spaces as a whole;
* `Approximates` : numerals that are no further from a number than every other one with as many decimals;
* `Approximates.not_lost`, `Approximates.nearest_literal` : these are never out of range, and are read as the nearest
  number;
* `Printed`, `printed_reads_back` : what a number is printed as, and what is read from it.
-/

namespace ManagedRuntime

set_option autoImplicit false

open LeadingNumber

/-! ## Numbers behind spaces -/

section Numbers

variable {t : Text} {spaces sign body : List UInt16} {negative : Bool} {literal : Literal}

theorem longestNumber_of_units (hunits : t.units = spaces ++ (sign ++ body))
    (hspaces : ∀ u ∈ spaces, Blank.isSpace u = true) (hsigned : Signed sign negative) (hbody : Body body literal) :
    LongestNumber t.units t.units [] negative literal where
  units := (List.append_nil _).symm
  grammar := by
    rw [hunits]
    exact .intro hspaces hsigned hbody
  longest other tail hother _ := by
    rw [hother, List.length_append]
    omega

/-- Both ways of reading take a number behind spaces as a whole, unless its value is lost. -/
theorem reads_number (hunits : t.units = spaces ++ (sign ++ body)) (hspaces : ∀ u ∈ spaces, Blank.isSpace u = true)
    (hsigned : Signed sign negative) (hbody : Body body literal) (hlost : ¬ literal.Lost negative) :
    float t = (literal.toBinary64 negative, 0) ∧ Literal.read t = .ok (literal.toBinary64 negative) := by
  have hascii : ∀ u ∈ sign ++ body, u.toNat < 0x80 := List.forall_mem_append.2 ⟨hsigned.ascii, hbody.ascii⟩
  have hword : ∀ u ∈ sign ++ body, Blank.isSpace u = false := by
    refine List.forall_mem_append.2 ⟨?_, hbody.not_isSpace⟩
    intro u hu
    have hge := hsigned.ge u hu
    rw [← Bool.not_eq_true, Utf16.isSpace_iff]
    omega
  have hnone : ∀ u ∈ ([] : List UInt16), Blank.isSpace u = true := List.forall_mem_nil _
  have hparts : t.units = spaces ++ ((sign ++ body) ++ []) := by rw [hunits, List.append_nil]
  have hcs : t.characters = (spaces ++ ((sign ++ body) ++ [])).map Utf16.single := by
    rw [← hparts]
    exact Utf16.decode_ascii (Blank.ascii_of_parts hparts hspaces hnone hascii)
  have hlongest := longestNumber_of_units hunits hspaces hsigned hbody
  constructor
  · rw [hlongest.float_of_not_lost hlost, placeAfter_eq_zero.2 rfl]
  · unfold Literal.read
    rw [hcs, (Blank.stripped_map_single hspaces hnone hascii hword).strip_eq, number?_of_body hsigned hbody]

end Numbers

/-! ## Numerals -/

/-- A numeral with the sign of `x` and the value of a nearest multiple of some power of ten. -/
structure Approximates (x : Binary64) (n : Numeral) : Prop where
  negative : n.negative = x.isNegative
  nearest : ∃ decimals count : ℕ,
    NearestMultiple (1 / 10 ^ decimals) x.absValue count ∧ n.absValue = count / 10 ^ decimals

theorem approximates_printed (x : Binary64) (decimals : Nat) : Approximates x (printed x decimals) where
  negative := rfl
  nearest := ⟨decimals, Fixed.units x decimals, units_nearest x decimals, absValue_printed x decimals⟩

namespace Approximates

variable {x : Binary64} {n : Numeral} (h : Approximates x n)

include h

theorem of_trimmed {short : Numeral} (htrimmed : Numeral.Trimmed n short) : Approximates x short where
  negative := htrimmed.negative.trans h.negative
  nearest := by
    rw [htrimmed.absValue_eq]
    exact h.nearest

/-- The largest number is a multiple of every step, so rounding does not pass it. -/
theorem le_largest (hx : x.isFinite = true) : n.absValue ≤ Binary64.largest := by
  obtain ⟨decimals, count, hnearest, hvalue⟩ := h.nearest
  obtain ⟨m, hm⟩ := Binary64.exists_largest
  have hpower : (0 : ℚ) < 10 ^ decimals := by positivity
  have hbound : x.absValue ≤ ((m * 10 ^ decimals : ℤ) : ℚ) * (1 / 10 ^ decimals) := by
    push_cast
    rw [mul_assoc, mul_one_div_cancel hpower.ne', mul_one, ← hm]
    exact Binary64.absValue_le_largest hx
  have hcount := hnearest.le_of_le (by positivity) hbound
  rw [hvalue, hm, div_le_iff₀ hpower]
  exact_mod_cast hcount

/-- What is not zero is not printed below half of the least number, as twice as much would be nearer. -/
theorem eq_zero_of_small (hsmall : 2 * n.absValue ≤ 2 ^ (-1074 : ℤ)) : n.absValue = 0 := by
  obtain ⟨decimals, count, hnearest, hvalue⟩ := h.nearest
  have hpower : (0 : ℚ) < 10 ^ decimals := by positivity
  by_cases hzero : x.absValue = 0
  · have hcount : (count : ℤ) ≤ 0 := by
      apply hnearest.le_of_le (by positivity)
      rw [hzero, Int.cast_zero, zero_mul]
    have hnone : count = 0 := by omega
    rw [hvalue, hnone, Nat.cast_zero, zero_div]
  · have hleast := Binary64.le_absValue hzero
    have hdouble := hnearest.nearest (2 * count)
    have hnonneg : 0 ≤ n.absValue := by
      rw [hvalue]
      positivity
    have hsteps : ((count : ℤ) : ℚ) * (1 / 10 ^ decimals) = n.absValue := by
      rw [hvalue, Int.cast_natCast, mul_one_div]
    rw [Int.cast_mul, Int.cast_ofNat, mul_assoc, hsteps, abs_of_nonpos (by linarith), abs_of_nonpos (by linarith)]
      at hdouble
    linarith

theorem nearestMagnitude_literal (hx : x.isFinite = true) :
    Binary64.NearestMagnitude n.absValue (n.literal.toBinary64 n.negative) := by
  have hvalue : (digitsValue n.digits : ℚ) * 10 ^ (-(n.fraction.length : ℤ)) = n.absValue := by
    unfold Numeral.absValue
    rw [zpow_neg, zpow_natCast, div_eq_mul_inv]
  unfold Numeral.literal
  rw [← hvalue]
  apply Binary64.toBinary64_nearest
  rw [hvalue]
  exact h.le_largest hx

theorem isNegative_literal : (n.literal.toBinary64 n.negative).isNegative = x.isNegative :=
  Binary64.isNegative_toBinary64.trans h.negative

/-- It is read as the nearest number. -/
theorem nearest_literal (hx : x.isFinite = true) : (n.literal.toBinary64 n.negative).Nearest n.value := by
  have hnearest := (h.nearestMagnitude_literal hx).signed
  rwa [h.isNegative_literal, ← h.negative] at hnearest

/-- Zero is only read from zeros. -/
theorem zeros_of_isZero (hx : x.isFinite = true) (hzero : (n.literal.toBinary64 n.negative).isZero = true) :
    ∀ d ∈ n.digits, d = unit '0' := by
  have hnonneg : 0 ≤ n.absValue := by
    unfold Numeral.absValue
    positivity
  have hvalue := h.eq_zero_of_small ((h.nearestMagnitude_literal hx).le_of_isZero hnonneg hzero)
  have hpower : (10 : ℚ) ^ n.fraction.length ≠ 0 := by positivity
  unfold Numeral.absValue at hvalue
  rw [div_eq_zero_iff, or_iff_left hpower, Nat.cast_eq_zero] at hvalue
  exact (digitsValue_eq_zero_iff n.isDigit_digits).1 hvalue

theorem not_lost (hx : x.isFinite = true) : ¬ n.literal.Lost n.negative := by
  rintro (hinfinite | ⟨hne, hzero⟩)
  · exact Binary64.not_isInfinite_of_isFinite (h.nearestMagnitude_literal hx).isFinite hinfinite
  · exact hne ((digitsValue_eq_zero_iff n.isDigit_digits).2 (h.zeros_of_isZero hx hzero))

end Approximates

/-! ## Printed texts -/

/-- The texts that a number is printed as, in fields and with decimals up to the limit. -/
inductive Printed (x : Binary64) : Text → Prop where
  | plain : Printed x (Fixed.toText x)
  | field {width decimals : Int32} {t : Text} : width.toInt ≤ 65535 → decimals.toInt ≤ 65535 →
    Fixed.inField x width decimals = .ok t → Printed x t

section Printed

variable {x : Binary64} {t : Text} {width decimals : Int32}

/-- A field within the limits is blanks and a body. -/
theorem exists_field (x : Binary64) (hwidth : width.toInt ≤ 65535) (hdecimals : decimals.toInt ≤ 65535) :
    ∃ places, places ≤ Layout.limit ∧ ∀ cs, Fixed.body x places = .ok cs →
      ∃ k, Fixed.inField x width decimals = .ok (Text.ofCharacters (List.replicate k ' ' ++ cs)) := by
  by_cases hnegative : decimals < 0
  · refine ⟨6, by decide, ?_⟩
    intro cs hbody
    exact ⟨_, inField_of_body (if_pos hnegative) (by decide) hbody⟩
  · refine ⟨Word.toSize decimals, toSize_le_limit hdecimals, ?_⟩
    intro cs hbody
    exact ⟨_, inField_of_body (if_neg hnegative) (toSize_le_limit hwidth) hbody⟩

/-- What holds of the units of the plain text and of all bodies holds of what is printed, behind blanks. -/
theorem Printed.exists_units (P : List UInt16 → Prop) (h : Printed x t) (hplain : P (Fixed.toText x).units)
    (hbody : ∀ places ≤ Layout.limit, ∃ cs, Fixed.body x places = .ok cs ∧ (∀ c ∈ cs, c.toNat < 0x80) ∧
      P (cs.map unit)) :
    ∃ k us, t.units = List.replicate k (unit ' ') ++ us ∧ P us := by
  cases h with
  | plain => exact ⟨0, _, rfl, hplain⟩
  | field hwidth hdecimals hfield =>
    obtain ⟨places, hplaces, hcases⟩ := exists_field x hwidth hdecimals
    obtain ⟨cs, hcs, hascii, hunits⟩ := hbody places hplaces
    obtain ⟨k, hk⟩ := hcases cs hcs
    rw [hfield, Except.ok.injEq] at hk
    refine ⟨k, cs.map unit, ?_, hunits⟩
    rw [hk, units_field hascii]

/-! ### Finite numbers -/

theorem Printed.units_of_isFinite (h : Printed x t) (hx : x.isFinite = true) :
    ∃ k n, t.units = List.replicate k (unit ' ') ++ n.units ∧ Approximates x n := by
  have hplain : ∃ n : Numeral, (Fixed.toText x).units = n.units ∧ Approximates x n := by
    obtain ⟨short, htrimmed, hunits⟩ := exists_trimmed x
    exact ⟨short, (units_toText_of_isFinite hx).trans hunits, (approximates_printed x 15).of_trimmed htrimmed⟩
  have hbody : ∀ places ≤ Layout.limit, ∃ cs, Fixed.body x places = .ok cs ∧ (∀ c ∈ cs, c.toNat < 0x80) ∧
      ∃ n : Numeral, cs.map unit = n.units ∧ Approximates x n := by
    intro places hplaces
    exact ⟨_, body_of_isFinite hx hplaces, ascii_fixedDigits x places, _, map_unit_fixedDigits x places,
      approximates_printed x places⟩
  obtain ⟨k, us, hunits, n, rfl, hn⟩ :=
    h.exists_units (fun us => ∃ n : Numeral, us = n.units ∧ Approximates x n) hplain hbody
  exact ⟨k, n, hunits, hn⟩

/-! ### Infinities and NaN -/

theorem toText_of_isNaN (hx : x.isNaN = true) : Fixed.toText x = Text.ofCharacters "NaN".toList := by
  unfold Fixed.toText
  rw [if_pos hx]

theorem body_of_isNaN (hx : x.isNaN = true) (places : Nat) : Fixed.body x places = .ok "nan".toList := by
  unfold Fixed.body
  rw [if_pos hx]

theorem Printed.units_of_isNaN (h : Printed x t) (hx : x.isNaN = true) :
    ∃ k us, t.units = List.replicate k (unit ' ') ++ us ∧ SpellsWord us "nan" := by
  have hmem : ("nan", Literal.nan) ∈ Literal.words := by decide
  apply h.exists_units (SpellsWord · "nan")
  · rw [toText_of_isNaN hx, spellsWord_iff hmem]
    decide
  · intro places _
    refine ⟨_, body_of_isNaN hx places, fun c hc => (letter_of_mem_words hmem hc).1, ?_⟩
    rw [spellsWord_iff hmem]
    decide

theorem toText_of_isInfinite (hx : x.isInfinite = true) :
    Fixed.toText x = Text.ofCharacters (Decimal.signed x.isNegative "inf".toList) := by
  unfold Fixed.toText
  rw [if_neg (Binary64.not_isNaN_of_isInfinite hx), if_pos hx]

theorem body_of_isInfinite (hx : x.isInfinite = true) (places : Nat) :
    Fixed.body x places = .ok (Decimal.signed x.isNegative "inf".toList) := by
  unfold Fixed.body
  rw [if_neg (Binary64.not_isNaN_of_isInfinite hx), if_pos hx]

theorem Printed.units_of_isInfinite (h : Printed x t) (hx : x.isInfinite = true) :
    ∃ k, t.units = List.replicate k (unit ' ') ++ (signUnits x.isNegative ++ "inf".toList.map unit) := by
  have hmem : ("inf", Literal.infinity) ∈ Literal.words := by decide
  have hascii : ∀ c ∈ Decimal.signed x.isNegative "inf".toList, c.toNat < 0x80 := by
    apply ascii_signed
    intro c hc
    exact (letter_of_mem_words hmem hc).1
  have hunits := map_unit_signed x.isNegative "inf".toList
  have hplain : (Fixed.toText x).units = signUnits x.isNegative ++ "inf".toList.map unit := by
    rw [toText_of_isInfinite hx, ← hunits]
    exact encode_of_ascii hascii
  obtain ⟨k, us, ht, rfl⟩ := h.exists_units (· = signUnits x.isNegative ++ "inf".toList.map unit) hplain
    fun places _ => ⟨_, body_of_isInfinite hx places, hascii, hunits⟩
  exact ⟨k, ht⟩

end Printed

/-! ## Reading back -/

/-- What is read from a text that `x` is printed as. -/
structure ReadBack (x : Binary64) (t : Text) (y : Binary64) : Prop where
  float : LeadingNumber.float t = (y, 0)
  read : Literal.read t = .ok y
  nan : x.isNaN = true → y.isNaN = true
  infinite : x.isInfinite = true → y = x
  finite : x.isFinite = true → y.isFinite = true ∧ y.isNegative = x.isNegative
  /-- The numeral that is printed behind blanks, and what is read from it. -/
  numeral : x.isFinite = true → ∃ (k : ℕ) (n : Numeral),
    t.units = List.replicate k (unit ' ') ++ n.units ∧ y.Nearest n.value ∧
    (y.isZero = true → ∀ d ∈ n.digits, d = unit '0')

section ReadBack

variable {x : Binary64} {t : Text}

theorem Printed.readBack_of_isFinite (h : Printed x t) (hx : x.isFinite = true) : ∃ y, ReadBack x t y := by
  obtain ⟨k, n, hunits, hn⟩ := h.units_of_isFinite hx
  obtain ⟨hfloat, hread⟩ :=
    reads_number hunits isSpace_of_mem_replicate (signed_signUnits n.negative) n.body_literal (hn.not_lost hx)
  have hnearest := hn.nearest_literal hx
  exact ⟨n.literal.toBinary64 n.negative, {
    float := hfloat
    read := hread
    nan := fun hnan => absurd hnan (Binary64.not_isNaN_of_isFinite hx)
    infinite := fun hinfinite => absurd hinfinite (Binary64.not_isInfinite_of_isFinite hx)
    finite := fun _ => ⟨hnearest.isFinite, hn.isNegative_literal⟩
    numeral := fun _ => ⟨k, n, hunits, hnearest, hn.zeros_of_isZero hx⟩ }⟩

theorem Printed.readBack_of_isNaN (h : Printed x t) (hx : x.isNaN = true) : ∃ y, ReadBack x t y := by
  have hmem : ("nan", Literal.nan) ∈ Literal.words := by decide
  obtain ⟨k, us, hunits, hword⟩ := h.units_of_isNaN hx
  obtain ⟨hfloat, hread⟩ := reads_number hunits isSpace_of_mem_replicate .absent (.word hmem hword) id
  exact ⟨.nan, {
    float := hfloat
    read := hread
    nan := fun _ => by decide
    infinite := fun h => absurd hx (Binary64.not_isNaN_of_isInfinite h)
    finite := fun h => absurd hx (Binary64.not_isNaN_of_isFinite h)
    numeral := fun h => absurd hx (Binary64.not_isNaN_of_isFinite h) }⟩

theorem Printed.readBack_of_isInfinite (h : Printed x t) (hx : x.isInfinite = true) : ∃ y, ReadBack x t y := by
  have hmem : ("inf", Literal.infinity) ∈ Literal.words := by decide
  have hword : SpellsWord ("inf".toList.map unit) "inf" := by
    rw [spellsWord_iff hmem]
    decide
  have hsame : Literal.infinity.toBinary64 x.isNegative = x := by
    have hmagnitude : x.magnitude = Binary64.infinite := of_decide_eq_true hx
    unfold Literal.toBinary64
    rw [← hmagnitude, Binary64.ofMagnitude_eq]
  obtain ⟨k, hunits⟩ := h.units_of_isInfinite hx
  obtain ⟨hfloat, hread⟩ :=
    reads_number hunits isSpace_of_mem_replicate (signed_signUnits x.isNegative) (.word hmem hword) id
  rw [hsame] at hfloat hread
  exact ⟨x, {
    float := hfloat
    read := hread
    nan := id
    infinite := fun _ => rfl
    finite := fun h => absurd hx (Binary64.not_isInfinite_of_isFinite h)
    numeral := fun h => absurd hx (Binary64.not_isInfinite_of_isFinite h) }⟩

/-- Every number has a body for every number of decimals within the limit. -/
theorem exists_body (x : Binary64) {places : Nat} (hplaces : places ≤ Layout.limit) :
    ∃ cs, Fixed.body x places = .ok cs := by
  obtain hx | hx | hx := Binary64.class_cases x
  · exact ⟨_, body_of_isFinite hx hplaces⟩
  · exact ⟨_, body_of_isInfinite hx places⟩
  · exact ⟨_, body_of_isNaN hx places⟩

end ReadBack

/--
**Printed numbers are read back.** Every number is printed in every field and with all decimals up to the limit, and
both ways of reading take what is printed as a whole and agree. NaN and the infinities come back as they are, and of
a finite number the number that is nearest to the printed numeral, with its sign; it is never infinite, and zero only
where all printed digits are.
-/
theorem printed_reads_back (x : Binary64) :
    (∀ width decimals : Int32, width.toInt ≤ 65535 → decimals.toInt ≤ 65535 →
      ∃ t, Fixed.inField x width decimals = .ok t) ∧
    ∀ t, Printed x t → ∃ y, ReadBack x t y := by
  constructor
  · intro width decimals hwidth hdecimals
    obtain ⟨places, hplaces, hfield⟩ := exists_field x hwidth hdecimals
    obtain ⟨cs, hcs⟩ := exists_body x hplaces
    obtain ⟨k, hk⟩ := hfield cs hcs
    exact ⟨_, hk⟩
  · intro t ht
    obtain hx | hx | hx := Binary64.class_cases x
    · exact ht.readBack_of_isFinite hx
    · exact ht.readBack_of_isInfinite hx
    · exact ht.readBack_of_isNaN hx

/-- The least number below zero with as many decimals as show one digit of it. -/
theorem printed_reads_back_least : (12 : Int32).toInt ≤ 65535 ∧ (324 : Int32).toInt ≤ 65535 ∧
    ∃ t, Fixed.inField ⟨0x8000000000000001⟩ 12 324 = .ok t ∧
      ReadBack ⟨0x8000000000000001⟩ t ⟨0x8000000000000001⟩ := by
  obtain ⟨hfield, hread⟩ := printed_reads_back ⟨0x8000000000000001⟩
  obtain ⟨t, ht⟩ := hfield 12 324 (by decide) (by decide)
  obtain ⟨y, hy⟩ := hread t (.field (by decide) (by decide) ht)
  have hprinted : Fixed.inField ⟨0x8000000000000001⟩ 12 324 =
      .ok ⟨"-0.".toList.map unit ++ List.replicate 323 (unit '0') ++ [unit '5']⟩ := by decide +kernel
  have hvalue : Literal.read ⟨"-0.".toList.map unit ++ List.replicate 323 (unit '0') ++ [unit '5']⟩ =
      .ok ⟨0x8000000000000001⟩ := by decide +kernel
  rw [hprinted, Except.ok.injEq] at ht
  have hsame := hy.read
  rw [← ht, hvalue, Except.ok.injEq] at hsame
  subst hsame
  refine ⟨by decide, by decide, t, ?_, hy⟩
  rw [hprinted, ht]

end ManagedRuntime
