import ManagedRuntime.Proofs.Number.LongestMatch

/-!
# Floating-point numbers at the beginning of a text

* `LongestNumber` : the longest beginning of some units that the grammar of numbers has, and the rest;
* `FloatAnswer` : the value and the code of a text that begins with a number;
* `float_reads_longest` : the longest number is what is read, and a text that begins with none is refused.
-/

namespace ManagedRuntime.LeadingNumber

set_option autoImplicit false

section

variable {us number rest : List UInt16} {negative : Bool} {literal : Literal}

/-! ## The longest number -/

/-- The longest number at the beginning of some units, with its sign and its literal, and the rest. -/
structure LongestNumber (us number rest : List UInt16) (negative : Bool) (literal : Literal) : Prop where
  units : us = number ++ rest
  grammar : Number number negative literal
  longest : ∀ other tail, us = other ++ tail → (∃ negative literal, Number other negative literal) →
    other.length ≤ number.length

theorem LongestNumber.floatLength?_eq (h : LongestNumber us number rest negative literal) :
    floatLength? us = some number.length := by
  obtain ⟨n, hn, hle⟩ := (floatLength?_finds us).longest number rest h.units ⟨negative, literal, h.grammar⟩
  obtain ⟨other, tail, hus, hother, rfl⟩ := (floatLength?_finds us).found n hn
  rw [hn, Nat.le_antisymm (h.longest other tail hus hother) hle]

theorem longestNumber_of_length (hus : us = number ++ rest) (hnumber : Number number negative literal)
    (h : floatLength? us = some number.length) : LongestNumber us number rest negative literal where
  units := hus
  grammar := hnumber
  longest other tail hother hgrammar := by
    obtain ⟨n, hn, hle⟩ := (floatLength?_finds us).longest other tail hother hgrammar
    rw [h, Option.some.injEq] at hn
    rwa [hn]

theorem exists_longestNumber {n : Nat} (h : floatLength? us = some n) :
    ∃ number rest negative literal, LongestNumber us number rest negative literal := by
  obtain ⟨number, rest, hus, ⟨negative, literal, hnumber⟩, rfl⟩ := (floatLength?_finds us).found n h
  exact ⟨number, rest, negative, literal, longestNumber_of_length hus hnumber h⟩

theorem not_number_of_floatLength? (h : floatLength? us = none) :
    ∀ other tail, us = other ++ tail → ¬ ∃ negative literal, Number other negative literal := by
  intro other tail hus hother
  obtain ⟨n, hn, -⟩ := (floatLength?_finds us).longest other tail hus hother
  rw [h] at hn
  cases hn

/-! ## Value and code -/

/-- What is answered for a text that begins with a number and goes on with `rest`. -/
structure FloatAnswer (t : Text) (number rest : List UInt16) (negative : Bool) (literal : Literal) : Prop where
  consumed : floatLength? t.units = some number.length
  /-- The characters of the number are not refused. -/
  parsed : Literal.number? (spelling t number.length) = some (literal.toBinary64 negative)
  /-- The value, and 0 or the place of the first unit that is not part of the number. -/
  read : ¬ literal.Lost negative → (float t).1 = literal.toBinary64 negative ∧
    (float t).2.toInt = if rest = [] then 0 else (number.length : Int) + 1
  lost : float t = (.zero, 1) ↔ literal.Lost negative
  failed : (float t).2 = 1 ↔ literal.Lost negative
  whole : (float t).2 = 0 ↔ ¬ literal.Lost negative ∧ rest = []
  /-- Infinities, NaN and zeros are always read. -/
  named : literal = .infinity ∨ literal = .nan ∨ (∃ exponent, literal = .decimal 0 exponent) → ¬ literal.Lost negative

namespace LongestNumber

variable {t : Text} (h : LongestNumber t.units number rest negative literal)

include h

/-- What is parsed is the number without the spaces in front of it. -/
theorem spelling_eq_body : ∃ sign body, Signed sign negative ∧ Body body literal ∧
    spelling t number.length = (sign ++ body).map Utf16.single := by
  obtain @⟨spaces, sign, body, _, _, hspaces, hsigned, hbody⟩ := h.grammar
  have hstop : Stops Blank.isSpace (sign ++ body) := hsigned.stops_isSpace (body.append_nil ▸ hbody.stops_isSpace)
  exact ⟨sign, body, hsigned, hbody, spelling_eq h.units hspaces hstop
    (List.forall_mem_append.2 ⟨hsigned.ascii, hbody.ascii⟩)⟩

theorem number?_spelling : Literal.number? (spelling t number.length) = some (literal.toBinary64 negative) := by
  obtain ⟨sign, body, hsigned, hbody, hspelling⟩ := h.spelling_eq_body
  rw [hspelling, number?_of_body hsigned hbody]

theorem isOutOfRange_spelling :
    isOutOfRange (spelling t number.length) (literal.toBinary64 negative) = true ↔ literal.Lost negative := by
  obtain ⟨sign, body, hsigned, hbody, hspelling⟩ := h.spelling_eq_body
  rw [hspelling, isOutOfRange_iff hsigned hbody]

theorem float_of_lost (hlost : literal.Lost negative) : float t = (.zero, 1) := by
  rw [float, h.floatLength?_eq]
  dsimp only
  rw [h.number?_spelling]
  exact if_pos (h.isOutOfRange_spelling.2 hlost)

theorem float_of_not_lost (hlost : ¬ literal.Lost negative) :
    float t = (literal.toBinary64 negative, placeAfter t number.length) := by
  rw [float, h.floatLength?_eq]
  dsimp only
  rw [h.number?_spelling]
  exact if_neg fun hrange => hlost (h.isOutOfRange_spelling.1 hrange)

theorem ne_nil : number ≠ [] := by
  obtain ⟨-, -, hbody⟩ := h.grammar
  obtain ⟨u, tail, rfl, -⟩ := hbody.exists_cons
  simp

theorem answer (ht : t.units.length ≤ Word.largest) : FloatAnswer t number rest negative literal where
  consumed := h.floatLength?_eq
  parsed := h.number?_spelling
  read hlost := by
    rw [h.float_of_not_lost hlost]
    exact ⟨rfl, toInt_placeAfter ht h.units⟩
  lost := by
    refine ⟨fun hfloat => ?_, h.float_of_lost⟩
    by_contra hlost
    rw [h.float_of_not_lost hlost] at hfloat
    exact placeAfter_ne_one ht h.units h.ne_nil (congrArg Prod.snd hfloat)
  failed := by
    refine ⟨fun hfloat => ?_, fun hlost => congrArg Prod.snd (h.float_of_lost hlost)⟩
    by_contra hlost
    rw [h.float_of_not_lost hlost] at hfloat
    exact placeAfter_ne_one ht h.units h.ne_nil hfloat
  whole := by
    by_cases hlost : literal.Lost negative
    · rw [h.float_of_lost hlost]
      exact iff_of_false (by decide) fun hall => hall.1 hlost
    · rw [h.float_of_not_lost hlost, placeAfter_eq_zero_iff ht h.units]
      exact ⟨fun hrest => ⟨hlost, hrest⟩, And.right⟩
  named := by
    rintro (rfl | rfl | ⟨exponent, rfl⟩)
    · exact id
    · exact id
    · exact Literal.not_lost_of_zero negative exponent

end LongestNumber

end

/--
**Floating-point numbers at the beginning of a text.** A text that begins with no number is refused, and the longest
number that it begins with is read, unless its value is lost.
-/
theorem float_reads_longest (t : Text) (ht : t.units.length ≤ Word.largest) :
    ((∃ number rest negative literal, LongestNumber t.units number rest negative literal) ∨
      (∀ other tail, t.units = other ++ tail → ¬ ∃ negative literal, Number other negative literal) ∧
        floatLength? t.units = none ∧ float t = (.zero, 1)) ∧
    ∀ number rest negative literal, LongestNumber t.units number rest negative literal →
      FloatAnswer t number rest negative literal := by
  refine ⟨?_, fun _ _ _ _ h => h.answer ht⟩
  cases hlength : floatLength? t.units with
  | none => exact .inr ⟨not_number_of_floatLength? hlength, rfl, by rw [float, hlength]⟩
  | some n => exact .inl (exists_longestNumber hlength)

/-- The mark of a power of ten that has no digits is not part of the number, and a point needs no digits in front. -/
theorem float_reads_longest_dangling :
    (⟨"\t-.5e+x".toList.map unit⟩ : Text).units.length ≤ Word.largest ∧
    LongestNumber ("\t-.5e+x".toList.map unit) ("\t-.5".toList.map unit) ("e+x".toList.map unit) true
      (.decimal 5 (-1)) ∧
    float ⟨"\t-.5e+x".toList.map unit⟩ = (⟨0xBFE0000000000000⟩, 5) := by
  have hmantissa : Mantissa ([] ++ unit '.' :: [unit '5']) ([] ++ [unit '5']) 1 :=
    .pointed (List.cons_ne_nil _ _) nofun (List.forall_mem_singleton.2 rfl)
  have hnumber : Number ([unit '\t'] ++ ([unit '-'] ++ ([unit '.', unit '5'] ++ []))) true (.decimal 5 (-1)) :=
    .intro (List.forall_mem_singleton.2 rfl) .minus (.decimal hmantissa .absent)
  have hlongest : LongestNumber ("\t-.5e+x".toList.map unit) ("\t-.5".toList.map unit) ("e+x".toList.map unit) true
      (.decimal 5 (-1)) :=
    longestNumber_of_length rfl hnumber (by decide)
  have hanswer := (float_reads_longest ⟨_⟩ (by decide)).2 _ _ _ _ hlongest
  obtain ⟨hvalue, hplace⟩ := hanswer.read (by decide +kernel)
  exact ⟨by decide, hlongest, Prod.ext (hvalue.trans (by decide +kernel)) (Int32.toInt_inj.1 hplace)⟩

/-- A large power of ten loses a value, and of zero it is zero. -/
example : float ⟨"1e999".toList.map unit⟩ = (.zero, 1) ∧
    float ⟨"-0e999".toList.map unit⟩ = (⟨0x8000000000000000⟩, 0) := by decide +kernel

end ManagedRuntime.LeadingNumber
