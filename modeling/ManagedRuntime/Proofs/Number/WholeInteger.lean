import ManagedRuntime.Proofs.Number.LeadingInteger
import ManagedRuntime.Proofs.Text.Stripping

/-!
# Texts that are an integer

A text is read as a whole, or an integer is read at its beginning and should leave nothing behind.

* `SpellsInteger` : a sign and digits, and the integer that they spell;
* `read_eq_ok_iff` : what is read as a whole is these between `White_Space`, unpaired surrogates being left out;
* `integer_eq_zero_iff` : nothing is left behind exactly if space units and these are all of the text;
* `whole_integers_agree` : the two agree on texts whose blanks are space units, up to unpaired surrogates.
-/

namespace ManagedRuntime

set_option autoImplicit false

open LeadingNumber
open Utf16 (single)

/-! ## Spelled integers -/

/-- The units of an optional sign and at least one digit, and the integer that they spell. -/
inductive SpellsInteger : List UInt16 → Int → Prop where
  | intro {sign digits : List UInt16} {negative : Bool} : Signed sign negative → digits ≠ [] →
    (∀ d ∈ digits, isDigit d = true) → SpellsInteger (sign ++ digits) (signedValue negative digits)

section

variable {us word front back : List UInt16} {i : Int} {w : Int32} {t : Text}

namespace SpellsInteger

variable (h : SpellsInteger word i)

include h

/-- Signs and digits are ASCII units behind the space. -/
theorem bounds : ∀ u ∈ word, 43 ≤ u.toNat ∧ u.toNat ≤ 57 := by
  obtain ⟨hsigned, -, hdigits⟩ := h
  refine List.forall_mem_append.2 ⟨?_, ?_⟩
  · intro u hu
    exact ⟨hsigned.ge u hu, hsigned.le u hu⟩
  · intro u hu
    have hdigit := hdigits u hu
    rw [Utf16.isDigit_iff] at hdigit
    omega

theorem ascii : ∀ u ∈ word, u.toNat < 0x80 := by
  intro u hu
  have hbounds := h.bounds u hu
  omega

theorem not_isSpace : ∀ u ∈ word, Blank.isSpace u = false := by
  intro u hu
  have hbounds := h.bounds u hu
  rw [← Bool.not_eq_true, Utf16.isSpace_iff]
  omega

theorem not_isWhiteSpace : ∀ c ∈ word.map single, Blank.isWhiteSpace c = false := by
  intro c hc
  obtain ⟨u, hu, rfl⟩ := List.mem_map.1 hc
  rw [Utf16.isWhiteSpace_single (h.ascii u hu), h.not_isSpace u hu]

end SpellsInteger

/-! ## Reading characters -/

theorem toWord?_eq_some_iff : Decimal.toWord? i = some w ↔ i = w.toInt := by
  constructor
  · intro h
    unfold Decimal.toWord? at h
    split at h
    next hfits =>
      rw [← Option.some.inj h]
      exact (Int32.toInt_ofInt_of_le hfits.1 (Int.lt_add_one_of_le hfits.2)).symm
    next => cases h
  · rintro rfl
    unfold Decimal.toWord?
    rw [if_pos ⟨Int32.minValue_le_toInt w, Int32.toInt_le w⟩, Int32.ofInt_toInt]

theorem splitSign_cases (cs : List Char) :
    ∃ sign, Signed sign (Decimal.splitSign cs).1 ∧ cs = sign.map single ++ (Decimal.splitSign cs).2 := by
  unfold Decimal.splitSign
  split
  · exact ⟨[unit '+'], .plus, rfl⟩
  · exact ⟨[unit '-'], .minus, rfl⟩
  · exact ⟨[], .absent, rfl⟩

/-- Characters that are digits are those of digit units. -/
theorem exists_digits {cs : List Char} (h : cs.all Char.isDigit = true) :
    ∃ digits : List UInt16, cs = digits.map single ∧ ∀ d ∈ digits, isDigit d = true := by
  rw [List.all_eq_true] at h
  have hascii : ∀ c ∈ cs, c.toNat < 0x80 := by
    intro c hc
    have hdigit := Utf16.isDigit_char_iff.1 (h c hc)
    omega
  refine ⟨cs.map unit, ?_, ?_⟩
  · have hself : ∀ c ∈ cs, (single ∘ unit) c = id c := by
      intro c hc
      exact Utf16.single_unit (hascii c hc)
    rw [List.map_map, List.map_congr_left hself, List.map_id]
  · intro d hd
    obtain ⟨c, hc, rfl⟩ := List.mem_map.1 hd
    rw [← Utf16.isDigit_single (by rw [Utf16.toNat_unit (hascii c hc)]; exact hascii c hc),
      Utf16.single_unit (hascii c hc), h c hc]

theorem parse?_eq_some_iff {cs : List Char} :
    Decimal.parse? cs = some w ↔ ∃ word, cs = word.map single ∧ SpellsInteger word w.toInt := by
  constructor
  · intro h
    obtain ⟨sign, hsigned, hcs⟩ := splitSign_cases cs
    unfold Decimal.parse? at h
    dsimp only at h
    split at h
    next hbody =>
      obtain ⟨digits, hdigits, hall⟩ := exists_digits hbody.2
      have hne : digits ≠ [] := by
        rintro rfl
        exact hbody.1 hdigits
      rw [toWord?_eq_some_iff, hdigits, value_map_single hall] at h
      refine ⟨sign ++ digits, ?_, ?_⟩
      · rw [List.map_append, ← hdigits, ← hcs]
      · rw [← h]
        exact .intro hsigned hne hall
    next => cases h
  · rintro ⟨word, rfl, h⟩
    generalize hi : w.toInt = i at h
    obtain ⟨hsigned, hne, hall⟩ := h
    rw [parse?_signed hsigned hall hne, toWord?_eq_some_iff, hi]

theorem read_eq_ok : Decimal.read t = .ok w ↔ Decimal.parse? (Blank.strip t.characters) = some w := by
  unfold Decimal.read
  split
  next v hv => rw [hv, Except.ok.injEq, Option.some.injEq]
  next hnone =>
    rw [hnone]
    exact iff_of_false nofun nofun

/-- What is read as a whole is a sign and digits between characters that are blank. -/
theorem read_eq_ok_iff : Decimal.read t = .ok w ↔ ∃ front word back,
    t.characters = front ++ (word.map single ++ back) ∧ (∀ c ∈ front, Blank.isWhiteSpace c = true) ∧
      (∀ c ∈ back, Blank.isWhiteSpace c = true) ∧ SpellsInteger word w.toInt := by
  rw [read_eq_ok, parse?_eq_some_iff]
  constructor
  · rintro ⟨word, hstrip, hword⟩
    obtain ⟨front, back, h⟩ := Blank.stripped_strip t.characters
    rw [hstrip] at h
    exact ⟨front, word, back, h.items, h.front, h.back, hword⟩
  · rintro ⟨front, word, back, hcs, hfront, hback, hword⟩
    refine ⟨word, ?_, hword⟩
    rw [hcs]
    exact (Blank.stripped_of_forall hfront hword.not_isWhiteSpace hback).strip_eq

/-- Spaces around a sign and digits do not matter. -/
theorem read_of_spaces (hcs : t.characters = (front ++ (word ++ back)).map single)
    (hfront : ∀ u ∈ front, Blank.isSpace u = true) (hback : ∀ u ∈ back, Blank.isSpace u = true)
    (hword : SpellsInteger word w.toInt) : Decimal.read t = .ok w := by
  have hstripped := Blank.stripped_map_single hfront hback hword.ascii hword.not_isSpace
  rw [read_eq_ok, hcs, hstripped.strip_eq]
  exact parse?_eq_some_iff.2 ⟨word, rfl, hword⟩

/-! ## Reading at the beginning -/

theorem placeAfter_eq_zero {n : Nat} : placeAfter t n = 0 ↔ n = t.units.length := by
  unfold placeAfter
  split
  next h => exact iff_of_true rfl h
  next h =>
    refine iff_of_false ?_ h
    intro hzero
    have hplace := Word.toInt_saturate (n + 1)
    have hlargest : 1 ≤ Word.largest := by decide
    rw [hzero, Int32.toInt_zero] at hplace
    omega

theorem longestInteger_of_spaces {spaces sign digits : List UInt16} {negative : Bool}
    (hspaces : ∀ u ∈ spaces, Blank.isSpace u = true) (hsigned : Signed sign negative)
    (hdigits : ∀ d ∈ digits, isDigit d = true) (hne : digits ≠ []) :
    LongestInteger (spaces ++ (sign ++ digits)) spaces sign digits [] negative where
  units := by rw [List.append_nil]
  spaces := hspaces
  spaces_stop := by
    have hword : SpellsInteger (sign ++ digits) (signedValue negative digits) := .intro hsigned hne hdigits
    intro u hu
    apply hword.not_isSpace u
    simpa using List.mem_of_mem_head? hu
  signed := hsigned
  sign_stops _ := by
    rw [List.append_nil]
    exact stops_of_digits isSign_of_isDigit hdigits
  digits := hdigits
  digits_stop := stops_nil

/-- Nothing is left behind exactly if spaces, a sign and digits are all of the text. -/
theorem integer_eq_zero_iff : integer t = (w, 0) ↔ ∃ spaces word, t.units = spaces ++ word ∧
    (∀ u ∈ spaces, Blank.isSpace u = true) ∧ SpellsInteger word w.toInt := by
  constructor
  · intro h
    obtain ⟨spaces, sign, digits, rest, negative, hlongest⟩ := exists_longestInteger t.units
    by_cases hrefused : digits = [] ∨ ¬ Fits (signedValue negative digits)
    · rw [hlongest.integer_of_refused hrefused] at h
      cases congrArg Prod.snd h
    · rw [not_or, not_not] at hrefused
      obtain ⟨v, hinteger, hv⟩ := hlongest.integer_of_read hrefused.1 hrefused.2
      rw [h, Prod.mk.injEq] at hinteger
      obtain ⟨rfl, hplace⟩ := hinteger
      have hlength := placeAfter_eq_zero.1 hplace.symm
      have hrest : rest = [] := by
        have hall := congrArg List.length hlongest.units_eq
        rw [List.length_append] at hall
        apply List.eq_nil_of_length_eq_zero
        omega
      refine ⟨spaces, sign ++ digits, ?_, hlongest.spaces, ?_⟩
      · rw [hlongest.units_eq, hrest, List.append_nil, List.append_assoc]
      · rw [hv]
        exact .intro hlongest.signed hrefused.1 hlongest.digits
  · rintro ⟨spaces, word, hunits, hspaces, hword⟩
    generalize hi : w.toInt = i at hword
    obtain @⟨sign, digits, negative, hsigned, hne, hdigits⟩ := hword
    have hlongest : LongestInteger t.units spaces sign digits [] negative := by
      rw [hunits]
      exact longestInteger_of_spaces hspaces hsigned hdigits hne
    have hfits : Fits (signedValue negative digits) := by
      rw [← hi]
      exact ⟨Int32.minValue_le_toInt w, Int32.toInt_le w⟩
    obtain ⟨v, hinteger, hv⟩ := hlongest.integer_of_read hne hfits
    have hplace : placeAfter t (spaces ++ sign ++ digits).length = 0 := by
      rw [placeAfter_eq_zero, hunits, List.append_assoc]
    rw [hinteger, hplace, Int32.toInt_inj.1 (hv.trans hi.symm)]

/-! ## Agreement -/

/-- A trimmed text that is an integer stood between spaces. -/
theorem integer_trim_eq_zero_iff : integer t.trim = (w, 0) ↔ ∃ front word back, t.units = front ++ (word ++ back) ∧
    (∀ u ∈ front, Blank.isSpace u = true) ∧ (∀ u ∈ back, Blank.isSpace u = true) ∧ SpellsInteger word w.toInt := by
  rw [integer_eq_zero_iff]
  constructor
  · rintro ⟨spaces, word, htrim, hspaces, hword⟩
    obtain ⟨front, back, h⟩ := Blank.stripped_trim t
    refine ⟨front ++ spaces, word, back, ?_, List.forall_mem_append.2 ⟨h.front, hspaces⟩, h.back, hword⟩
    rw [h.items, htrim]
    simp only [List.append_assoc]
  · rintro ⟨front, word, back, hunits, hfront, hback, hword⟩
    refine ⟨[], word, ?_, List.forall_mem_nil _, hword⟩
    have h := Blank.stripped_of_forall hfront hword.not_isSpace hback
    rw [← hunits] at h
    rw [h.trim_eq]
    rfl

theorem wellFormed_of_integer_trim (h : integer t.trim = (w, 0)) : Utf16.WellFormed t.units := by
  obtain ⟨front, word, back, hunits, hfront, hback, hword⟩ := integer_trim_eq_zero_iff.1 h
  rw [← Blank.encode_map_single (Blank.ascii_of_parts hunits hfront hback hword.ascii)]
  exact Utf16.wellFormed_encode _

/-- The units of what is read as a whole, where all blanks are space units. -/
theorem read_eq_ok_iff_units (hplain : Blank.Plain t.characters) : Decimal.read t = .ok w ↔ ∃ front word back,
    Utf16.withoutUnpaired t.units = front ++ (word ++ back) ∧ (∀ u ∈ front, Blank.isSpace u = true) ∧
      (∀ u ∈ back, Blank.isSpace u = true) ∧ SpellsInteger word w.toInt := by
  have hwithout : Utf16.withoutUnpaired t.units = Utf16.encode t.characters := (Utf16.encode_decode t.units).symm
  constructor
  · intro h
    obtain ⟨front, word, back, hcs, hfront, hback, hword⟩ := read_eq_ok_iff.1 h
    have hstripped := Blank.stripped_of_forall hfront hword.not_isWhiteSpace hback
    rw [← hcs] at hstripped
    have hunits := hstripped.encode hplain
    refine ⟨Utf16.encode front, word, Utf16.encode back, ?_, hunits.front, hunits.back, hword⟩
    rw [hwithout, hunits.items, Blank.encode_map_single hword.ascii]
  · rintro ⟨front, word, back, hunits, hfront, hback, hword⟩
    have hascii := Blank.ascii_of_parts (t := ⟨Utf16.withoutUnpaired t.units⟩) hunits hfront hback hword.ascii
    have hcs : t.characters = (front ++ (word ++ back)).map single := by
      rw [← hunits, ← Utf16.decode_ascii hascii, hwithout, Utf16.decode_encode]
    exact read_of_spaces hcs hfront hback hword

end

/--
**Whole integers.** On texts whose blanks are all space units, reading a text as a whole and trimming it for an
integer at its beginning that leaves nothing behind accept the same once the unpaired surrogates are left out. What
is read is a sign and digits between spaces, and an unpaired surrogate is the one thing that only the reading as a
whole passes over.
-/
theorem whole_integers_agree (t : Text) (w : Int32) (hplain : Blank.Plain t.characters) :
    (Decimal.read t = .ok w ↔ integer (Text.trim ⟨Utf16.withoutUnpaired t.units⟩) = (w, 0)) ∧
    (integer t.trim = (w, 0) ↔ Decimal.read t = .ok w ∧ Utf16.WellFormed t.units) ∧
    (Decimal.read t = .ok w → ∃ front word back, Utf16.withoutUnpaired t.units = front ++ (word ++ back) ∧
      (∀ u ∈ front, Blank.isSpace u = true) ∧ (∀ u ∈ back, Blank.isSpace u = true) ∧
      SpellsInteger word w.toInt) := by
  refine ⟨?_, ?_, (read_eq_ok_iff_units hplain).1⟩
  · rw [read_eq_ok_iff_units hplain, integer_trim_eq_zero_iff]
  · constructor
    · intro h
      have hformed := wellFormed_of_integer_trim h
      refine ⟨?_, hformed⟩
      rw [read_eq_ok_iff_units hplain, (Utf16.withoutUnpaired_eq_iff t.units).2 hformed]
      exact integer_trim_eq_zero_iff.1 h
    · rintro ⟨hread, hformed⟩
      rw [read_eq_ok_iff_units hplain, (Utf16.withoutUnpaired_eq_iff t.units).2 hformed] at hread
      exact integer_trim_eq_zero_iff.2 hread

/-- An unpaired surrogate among the digits, between a tab and a space. -/
theorem whole_integers_agree_surrogate : Blank.Plain (Text.characters ⟨[0x09, 0x2D, 0xD800, 0x30, 0x37, 0x20]⟩) ∧
    Decimal.read ⟨[0x09, 0x2D, 0xD800, 0x30, 0x37, 0x20]⟩ = .ok (-7) ∧
    integer (Text.trim ⟨[0x09, 0x2D, 0x30, 0x37, 0x20]⟩) = (-7, 0) := by
  have hplain : Blank.Plain (Text.characters ⟨[0x09, 0x2D, 0xD800, 0x30, 0x37, 0x20]⟩) :=
    Blank.plain_of_ascii (Blank.ascii_of_all (by decide))
  have hagree := (whole_integers_agree ⟨[0x09, 0x2D, 0xD800, 0x30, 0x37, 0x20]⟩ (-7) hplain).1
  have hread : Decimal.read ⟨[0x09, 0x2D, 0xD800, 0x30, 0x37, 0x20]⟩ = .ok (-7) := by decide
  exact ⟨hplain, hread, hagree.1 hread⟩

/-- Digits with an unpaired surrogate among them are read as a whole, but begin an integer that leaves something
behind. -/
theorem surrogate_passed_over : ¬ ∀ (t : Text) (w : Int32), Blank.Plain t.characters →
    (Decimal.read t = .ok w ↔ integer t.trim = (w, 0)) := by
  intro h
  have hplain : Blank.Plain (Text.characters ⟨[0x31, 0xD800, 0x32]⟩) :=
    Blank.plain_of_ascii (Blank.ascii_of_all (by decide))
  have hread : Decimal.read ⟨[0x31, 0xD800, 0x32]⟩ = .ok 12 := by decide
  have hinteger : integer (Text.trim ⟨[0x31, 0xD800, 0x32]⟩) ≠ (12, 0) := by decide
  exact hinteger ((h ⟨[0x31, 0xD800, 0x32]⟩ 12 hplain).1 hread)

end ManagedRuntime
