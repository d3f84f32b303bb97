import ManagedRuntime.Proofs.Number.Digits
import ManagedRuntime.Proofs.Number.WholeInteger

/-!
# Printed integers

* `units_toText` : a word is printed as a minus sign, where it is negative, and plain digits;
* `integer_inField` : and in a field behind the blanks that bring it to the width;
* `reads_printed` : behind any spaces both ways of reading give the word back;
* `integer_text_round_trip` : printing and reading, and what else is read as a word.
-/

namespace ManagedRuntime

set_option autoImplicit false

open LeadingNumber
open Utf16 (single)

section

variable {w width : Int32} {t : Text}

/-! ## Printing -/

theorem ascii_digits (w : Int32) : ∀ c ∈ Decimal.digits w, c.toNat < 0x80 := by
  apply ascii_signed
  intro c hc
  exact ascii_of_isDigit_char (isDigit_of_mem_toDigits hc)

theorem map_unit_digits (w : Int32) :
    (Decimal.digits w).map unit = signUnits (decide (w < 0)) ++ digitUnits w.toInt.natAbs := by
  unfold Decimal.digits
  rw [map_unit_signed, digitUnits]

theorem units_toText (w : Int32) :
    (Decimal.toText w).units = signUnits (decide (w < 0)) ++ digitUnits w.toInt.natAbs := by
  show Utf16.encode (Decimal.digits w) = _
  rw [encode_of_ascii (ascii_digits w), map_unit_digits]

theorem signedValue_digitUnits (w : Int32) : signedValue (decide (w < 0)) (digitUnits w.toInt.natAbs) = w.toInt := by
  have hzero : w < 0 ↔ w.toInt < 0 := Int32.lt_iff_toInt_lt
  unfold signedValue
  rw [digitsValue_digitUnits]
  simp only [decide_eq_true_eq, hzero]
  split <;> omega

theorem spellsInteger_toText (w : Int32) : SpellsInteger (Decimal.toText w).units w.toInt := by
  have hword := SpellsInteger.intro (signed_signUnits (decide (w < 0))) (digitUnits_ne_nil w.toInt.natAbs)
    (isDigit_digitUnits w.toInt.natAbs)
  rwa [signedValue_digitUnits, ← units_toText] at hword

/-! ## Fields -/

theorem toSize_le_limit (h : width.toInt ≤ 65535) : Word.toSize width ≤ Layout.limit := by
  unfold Word.toSize Layout.limit
  omega

/-- The number of blanks in front of printed characters. -/
theorem fill_eq (width : Int32) (cs : List Char) :
    Word.toSize width - cs.length = (width.toInt - (cs.map unit).length).toNat := by
  rw [List.length_map]
  unfold Word.toSize
  omega

theorem padded_eq {width : Nat} (h : width ≤ Layout.limit) (cs : List Char) :
    Layout.padded width cs = .ok (List.replicate (width - cs.length) ' ' ++ cs) := by
  unfold Layout.padded Layout.bounded
  rw [if_pos h]
  rfl

/-- The units of printed characters in a field. -/
theorem units_field {cs : List Char} (h : ∀ c ∈ cs, c.toNat < 0x80) (k : Nat) :
    (Text.ofCharacters (List.replicate k ' ' ++ cs)).units = List.replicate k (unit ' ') ++ cs.map unit := by
  have hascii : ∀ c ∈ List.replicate k ' ' ++ cs, c.toNat < 0x80 := by
    intro c hc
    obtain hc | hc := List.mem_append.1 hc
    · rw [List.eq_of_mem_replicate hc]
      decide
    · exact h c hc
  show Utf16.encode _ = _
  rw [encode_of_ascii hascii, List.map_append, List.map_replicate]

theorem isSpace_of_mem_replicate {k : Nat} : ∀ u ∈ List.replicate k (unit ' '), Blank.isSpace u = true := by
  intro u hu
  rw [List.eq_of_mem_replicate hu]
  decide

theorem integer_inField (h : width.toInt ≤ 65535) : ∃ t, Layout.integer w width = .ok t ∧
    t.units = List.replicate (width.toInt - (Decimal.toText w).units.length).toNat (unit ' ') ++
      (Decimal.toText w).units := by
  have hunits : (Decimal.toText w).units = (Decimal.digits w).map unit := by
    rw [units_toText, map_unit_digits]
  refine ⟨Text.ofCharacters (List.replicate (Word.toSize width - (Decimal.digits w).length) ' ' ++ Decimal.digits w),
    ?_, ?_⟩
  · unfold Layout.integer
    rw [padded_eq (toSize_le_limit h)]
    rfl
  · rw [units_field (ascii_digits w), hunits, fill_eq]

/-! ## Reading back -/

/-- Both ways of reading give back a printed word behind spaces. -/
theorem reads_printed {spaces : List UInt16} (hunits : t.units = spaces ++ (Decimal.toText w).units)
    (hspaces : ∀ u ∈ spaces, Blank.isSpace u = true) : Decimal.read t = .ok w ∧ integer t = (w, 0) := by
  have hword := spellsInteger_toText w
  have hparts : t.units = spaces ++ ((Decimal.toText w).units ++ []) := by rw [hunits, List.append_nil]
  have hcs : t.characters = (spaces ++ ((Decimal.toText w).units ++ [])).map single := by
    rw [← hparts]
    exact Utf16.decode_ascii (Blank.ascii_of_parts hparts hspaces (List.forall_mem_nil _) hword.ascii)
  constructor
  · exact read_of_spaces hcs hspaces (List.forall_mem_nil _) hword
  · exact integer_eq_zero_iff.2 ⟨spaces, _, hunits, hspaces, hword⟩

/-- What is read as a whole, by the units that are left without the unpaired surrogates. -/
theorem read_iff_withoutUnpaired : Decimal.read t = .ok w ↔ ∃ front word back,
    Utf16.withoutUnpaired t.units = Utf16.encode front ++ (word ++ Utf16.encode back) ∧
      (∀ c ∈ front, Blank.isWhiteSpace c = true) ∧ (∀ c ∈ back, Blank.isWhiteSpace c = true) ∧
      SpellsInteger word w.toInt := by
  have hwithout : Utf16.withoutUnpaired t.units = Utf16.encode t.characters := (Utf16.encode_decode t.units).symm
  rw [read_eq_ok_iff, hwithout]
  constructor
  · rintro ⟨front, word, back, hcs, hfront, hback, hword⟩
    refine ⟨front, word, back, ?_, hfront, hback, hword⟩
    rw [hcs, Utf16.encode_append, Utf16.encode_append, Blank.encode_map_single hword.ascii]
  · rintro ⟨front, word, back, hunits, hfront, hback, hword⟩
    refine ⟨front, word, back, ?_, hfront, hback, hword⟩
    rw [← Blank.encode_map_single hword.ascii, ← Utf16.encode_append, ← Utf16.encode_append] at hunits
    rw [← Utf16.decode_encode t.characters, hunits, Utf16.decode_encode]

end

/--
**Integers and their texts.** A word is printed as plain digits behind a minus sign where it is negative, and in a
field behind as many blanks as are missing; both ways of reading give it back. And what reads as a word is exactly a
sign and digits with its value between `White_Space`, once the unpaired surrogates are left out.
-/
theorem integer_text_round_trip (w : Int32) :
    (∃ ds, (Decimal.toText w).units = signUnits (decide (w < 0)) ++ ds ∧ PlainDigits ds ∧
      signedValue (decide (w < 0)) ds = w.toInt) ∧
    (Decimal.read (Decimal.toText w) = .ok w ∧ integer (Decimal.toText w) = (w, 0)) ∧
    (∀ width : Int32, width.toInt ≤ 65535 → ∃ t, Layout.integer w width = .ok t ∧
      t.units = List.replicate (width.toInt - (Decimal.toText w).units.length).toNat (unit ' ') ++
        (Decimal.toText w).units ∧
      Decimal.read t = .ok w ∧ integer t = (w, 0)) ∧
    ∀ t : Text, Decimal.read t = .ok w ↔ ∃ front word back,
      Utf16.withoutUnpaired t.units = Utf16.encode front ++ (word ++ Utf16.encode back) ∧
        (∀ c ∈ front, Blank.isWhiteSpace c = true) ∧ (∀ c ∈ back, Blank.isWhiteSpace c = true) ∧
        SpellsInteger word w.toInt := by
  refine ⟨⟨_, units_toText w, plainDigits_digitUnits _, signedValue_digitUnits w⟩, ?_, ?_, ?_⟩
  · have hunits : (Decimal.toText w).units = [] ++ (Decimal.toText w).units := rfl
    exact reads_printed hunits (List.forall_mem_nil _)
  · intro width hwidth
    obtain ⟨t, hfield, hunits⟩ := integer_inField hwidth
    exact ⟨t, hfield, hunits, reads_printed hunits isSpace_of_mem_replicate⟩
  · intro t
    exact read_iff_withoutUnpaired

/-- The least word in a field of fourteen units, and the same behind leading zeros. -/
theorem integer_text_round_trip_least : (14 : Int32).toInt ≤ 65535 ∧
    (Decimal.toText (-2147483648)).units = "-2147483648".toList.map unit ∧
    (∃ t, Layout.integer (-2147483648) 14 = .ok t ∧ t.units = "   -2147483648".toList.map unit ∧
      integer t = (-2147483648, 0)) ∧
    Decimal.read ⟨[0x2003] ++ "-002147483648".toList.map unit ++ [0xDC00, 0x0A]⟩ = .ok (-2147483648) := by
  obtain ⟨-, -, hfield, hread⟩ := integer_text_round_trip (-2147483648)
  obtain ⟨t, hprinted, hunits, -, hinteger⟩ := hfield 14 (by decide)
  refine ⟨by decide, by decide, ⟨t, hprinted, hunits.trans (by decide), hinteger⟩, ?_⟩
  have hword : SpellsInteger ("-002147483648".toList.map unit) (signedValue true ("002147483648".toList.map unit)) :=
    .intro .minus (by decide) (List.all_eq_true.1 (by decide))
  have hvalue : signedValue true ("002147483648".toList.map unit) = (-2147483648 : Int32).toInt := by decide
  rw [hvalue] at hword
  refine (hread _).2 ⟨[Char.ofNat 0x2003], _, [Char.ofNat 0x0A], by decide, ?_, ?_, hword⟩
  · exact List.forall_mem_singleton.2 (by decide)
  · exact List.forall_mem_singleton.2 (by decide)

end ManagedRuntime
