import ManagedRuntime.Proofs.Encoding.Concatenation
import ManagedRuntime.Proofs.Number.LeadingFloat
import ManagedRuntime.Proofs.Number.LeadingInteger
import ManagedRuntime.Proofs.Text.Stripping

/-!
# Trimming a text that is read as a number

Space units are trimmed from a text, and the readers of whole numbers strip the `White_Space` of its characters.

* `Trims` : what the three functions that trim leave of a text, and how they go together;
* `strip_characters_trim` : the readers strip what trimming would remove, and so see the same characters;
* `Moved` : two answers with the same value, where the place of what follows has moved;
* `LeadingNumber.integer_of_spaces`, `LeadingNumber.float_of_spaces` : spaces in front move the place;
* `trimming_keeps_numbers` : all of this for every text.
-/

namespace ManagedRuntime

set_option autoImplicit false

open Blank (Stripped isSpace isWhiteSpace)

/-! ## Trimming -/

/-- What trimming leaves of a text. -/
structure Trims (t : Text) : Prop where
  /-- Spaces, then what is left, which neither begins nor ends with a space, then spaces. -/
  parts : ∃ front back, Stripped isSpace t.units front t.trim.units back
  only (front core back : List UInt16) : Stripped isSpace t.units front core back → t.trim = ⟨core⟩
  leftOfRight : t.trimRight.trimLeft = t.trim
  rightOfLeft : t.trimLeft.trimRight = t.trim
  left : t.trimLeft.trimLeft = t.trimLeft
  right : t.trimRight.trimRight = t.trimRight
  both : t.trim.trim = t.trim

namespace Text

variable (t : Text)

theorem trimLeft_trimRight : t.trimRight.trimLeft = t.trim := by
  obtain ⟨front, back, h⟩ := Blank.stripped_trim t
  exact congrArg Text.mk (h.dropWhile_dropEnd.trans rfl)

theorem trimLeft_idempotent : t.trimLeft.trimLeft = t.trimLeft :=
  congrArg Text.mk (dropWhile_of_stops (stops_dropWhile isSpace t.units))

theorem trimRight_idempotent : t.trimRight.trimRight = t.trimRight :=
  congrArg Text.mk (Blank.dropEnd_idempotent isSpace t.units)

/-- The second time, there is nothing left to trim at either end. -/
theorem trim_idempotent : t.trim.trim = t.trim := by
  have hleft : t.trim.trimLeft = t.trim := by rw [← trimLeft_trimRight, trimLeft_idempotent]
  have hright : t.trim.trimRight = t.trim := t.trimLeft.trimRight_idempotent
  rw [trim, hleft, hright]

theorem trims : Trims t where
  parts := Blank.stripped_trim t
  only _ _ _ h := h.trim_eq
  leftOfRight := t.trimLeft_trimRight
  rightOfLeft := rfl
  left := t.trimLeft_idempotent
  right := t.trimRight_idempotent
  both := t.trim_idempotent

theorem exists_spaces : ∃ spaces, t.units = spaces ++ t.trimLeft.units ∧ ∀ u ∈ spaces, isSpace u = true :=
  ⟨t.units.takeWhile isSpace, List.takeWhile_append_dropWhile.symm, fun _ hu => List.mem_takeWhile_imp hu⟩

end Text

/-! ## Characters between spaces -/

section Spaces

variable {spaces us : List UInt16} (hspaces : ∀ u ∈ spaces, isSpace u = true)

include hspaces

theorem not_isSurrogate_of_spaces {u : UInt16} (hu : u ∈ spaces) : Utf16.isHigh u = false ∧ Utf16.isLow u = false :=
  Bool.or_eq_false_iff.1 (Blank.not_isSurrogate_of_ascii (Utf16.ascii_of_isSpace (hspaces u hu)))

theorem decode_spaces_append : Utf16.decode (spaces ++ us) = Utf16.decode spaces ++ Utf16.decode us := by
  apply Utf16.decode_append
  rintro ⟨hhigh, -⟩
  obtain ⟨u, hu, hhigh⟩ := (Option.any_eq_true ..).1 hhigh
  rw [(not_isSurrogate_of_spaces hspaces (List.mem_of_getLast? hu)).1] at hhigh
  cases hhigh

theorem decode_append_spaces : Utf16.decode (us ++ spaces) = Utf16.decode us ++ Utf16.decode spaces := by
  apply Utf16.decode_append
  rintro ⟨-, hlow⟩
  obtain ⟨u, hu, hlow⟩ := (Option.any_eq_true ..).1 hlow
  rw [(not_isSurrogate_of_spaces hspaces (List.mem_of_head? hu)).2] at hlow
  cases hlow

theorem isWhiteSpace_decode_spaces : ∀ c ∈ Utf16.decode spaces, isWhiteSpace c = true := by
  rw [Utf16.decode_ascii fun u hu => Utf16.ascii_of_isSpace (hspaces u hu)]
  intro c hc
  obtain ⟨u, hu, rfl⟩ := List.mem_map.1 hc
  rw [Utf16.isWhiteSpace_single (Utf16.ascii_of_isSpace (hspaces u hu)), hspaces u hu]

end Spaces

/-- The space units are gone before the blanks are stripped, which include them. -/
theorem strip_characters_trim (t : Text) : Blank.strip t.trim.characters = Blank.strip t.characters := by
  obtain ⟨front, back, h⟩ := Blank.stripped_trim t
  have hcharacters : t.characters = Utf16.decode front ++ (t.trim.characters ++ Utf16.decode back) := by
    rw [Text.characters, h.items, decode_spaces_append h.front, decode_append_spaces h.back]
    rfl
  obtain ⟨front', back', hstrip⟩ := Blank.stripped_strip t.trim.characters
  rw [hcharacters]
  exact (hstrip.surround (isWhiteSpace_decode_spaces h.front) (isWhiteSpace_decode_spaces h.back)).strip_eq.symm

theorem read_trim_integer (t : Text) : Decimal.read t.trim = Decimal.read t := by
  rw [Decimal.read, Decimal.read, strip_characters_trim]

theorem read_trim_float (t : Text) : Literal.read t.trim = Literal.read t := by
  rw [Literal.read, Literal.read, strip_characters_trim]

/-! ## Numbers at the beginning -/

/-- The same answer for a text that has `removed` units less in front. -/
structure Moved {α : Type} (removed : Nat) (whole short : α × Int32) : Prop where
  value : short.1 = whole.1
  kept : whole.2 = 0 ∨ whole.2 = 1 → short.2 = whole.2
  /-- All other codes are places, and have moved. -/
  moved : whole.2 ≠ 0 → whole.2 ≠ 1 → 1 < short.2.toInt ∧ short.2.toInt = whole.2.toInt - removed

theorem Moved.of_refused {α : Type} (removed : Nat) (v : α) : Moved removed (v, 1) (v, 1) where
  value := rfl
  kept _ := rfl
  moved _ h := absurd rfl h

namespace LeadingNumber

section Lengths

variable {spaces us : List UInt16} (hspaces : ∀ u ∈ spaces, isSpace u = true)

include hspaces

theorem countSpaces_append : countSpaces (spaces ++ us) = spaces.length + countSpaces us := by
  rw [countSpaces, List.takeWhile_append_of_pos hspaces, List.length_append, ← countSpaces]

theorem countLead_append : countLead (spaces ++ us) = spaces.length + countLead us := by
  rw [countLead, countSpaces_append hspaces, List.drop_length_add_append, Nat.add_assoc, ← countLead]

theorem integerLength?_append : integerLength? (spaces ++ us) = (integerLength? us).map (spaces.length + ·) := by
  rw [integerLength?, countLead_append hspaces, List.drop_length_add_append, integerLength?, Option.map_map]
  congr 1
  funext n
  exact Nat.add_assoc ..

theorem floatLength?_append : floatLength? (spaces ++ us) = (floatLength? us).map (spaces.length + ·) := by
  rw [floatLength?, countLead_append hspaces, List.drop_length_add_append, floatLength?, Option.map_map]
  congr 1
  funext n
  exact Nat.add_assoc ..

end Lengths

theorem exists_of_integerLength? {us : List UInt16} {n : Nat} (h : integerLength? us = some n) :
    ∃ number rest, us = number ++ rest ∧ number ≠ [] ∧ number.length = n := by
  obtain ⟨spaces, sign, digits, rest, negative, hlongest⟩ := exists_longestInteger us
  rw [hlongest.integerLength?_eq] at h
  split at h
  next => cases h
  next hne => exact ⟨_, rest, hlongest.units_eq, List.append_ne_nil_of_right_ne_nil _ hne, Option.some.inj h⟩

theorem exists_of_floatLength? {us : List UInt16} {n : Nat} (h : floatLength? us = some n) :
    ∃ number rest, us = number ++ rest ∧ number ≠ [] ∧ number.length = n := by
  obtain ⟨number, rest, negative, literal, hlongest⟩ := exists_longestNumber h
  have hlength := hlongest.floatLength?_eq.symm.trans h
  have hne : number ≠ [] := LongestNumber.ne_nil (t := ⟨us⟩) hlongest
  exact ⟨number, rest, hlongest.units, hne, Option.some.inj hlength⟩

section Removed

variable {t s : Text} {spaces : List UInt16} (hunits : t.units = spaces ++ s.units)
  (hspaces : ∀ u ∈ spaces, isSpace u = true)

include hunits

/-- What is read is not empty, and so no place behind it is the first one. -/
theorem moved_placeAfter (ht : t.units.length ≤ Word.largest) {α : Type} {v : α} {number rest : List UInt16}
    (hshort : s.units = number ++ rest) (hne : number ≠ []) :
    Moved spaces.length (v, placeAfter t (spaces.length + number.length)) (v, placeAfter s number.length) := by
  have hwhole : t.units = (spaces ++ number) ++ rest := by rw [hunits, hshort, List.append_assoc]
  have hlength : t.units.length = spaces.length + s.units.length := by rw [hunits, List.length_append]
  have hwholeAt := toInt_placeAfter ht hwhole
  have hshortAt := toInt_placeAfter (by omega) hshort
  have hwholeZero := placeAfter_eq_zero_iff ht hwhole
  have hshortZero := placeAfter_eq_zero_iff (by omega) hshort
  have hwholeOne := placeAfter_ne_one ht hwhole (List.append_ne_nil_of_right_ne_nil spaces hne)
  have hpos := List.length_pos_iff.2 hne
  rw [List.length_append] at hwholeAt hwholeZero hwholeOne
  exact {
    value := rfl
    kept := by
      rintro (hzero | hone)
      · exact (hshortZero.2 (hwholeZero.1 hzero)).trans hzero.symm
      · exact absurd hone hwholeOne
    moved := by
      intro hzero _
      have hrest : rest ≠ [] := fun hrest => hzero (hwholeZero.2 hrest)
      rw [if_neg hrest] at hwholeAt hshortAt
      dsimp only
      omega }

include hspaces

theorem spelling_of_spaces (n : Nat) : spelling t (spaces.length + n) = spelling s n := by
  rw [spelling, hunits, List.take_length_add_append, decode_spaces_append hspaces, Blank.stripStart,
    List.dropWhile_append_of_pos (isWhiteSpace_decode_spaces hspaces)]
  rfl

theorem integer_of_spaces (ht : t.units.length ≤ Word.largest) : Moved spaces.length (integer t) (integer s) := by
  rw [integer, integer, hunits, integerLength?_append hspaces]
  cases hlength : integerLength? s.units with
  | none => exact .of_refused _ _
  | some n =>
    obtain ⟨number, rest, hshort, hne, rfl⟩ := exists_of_integerLength? hlength
    dsimp only [Option.map_some]
    rw [spelling_of_spaces hunits hspaces]
    cases Decimal.parse? (spelling s number.length) with
    | none => exact .of_refused _ _
    | some w => exact moved_placeAfter hunits ht hshort hne

theorem float_of_spaces (ht : t.units.length ≤ Word.largest) : Moved spaces.length (float t) (float s) := by
  rw [float, float, hunits, floatLength?_append hspaces]
  cases hlength : floatLength? s.units with
  | none => exact .of_refused _ _
  | some n =>
    obtain ⟨number, rest, hshort, hne, rfl⟩ := exists_of_floatLength? hlength
    dsimp only [Option.map_some]
    rw [spelling_of_spaces hunits hspaces]
    cases Literal.number? (spelling s number.length) with
    | none => exact .of_refused _ _
    | some x =>
      dsimp only
      split
      next => exact .of_refused _ _
      next => exact moved_placeAfter hunits ht hshort hne

end Removed

end LeadingNumber

/-! ## All readers of numbers -/

/-- What the readers of numbers answer for a text that has been trimmed. -/
structure TrimmedReadings (t : Text) : Prop where
  integer : Decimal.read t.trim = Decimal.read t
  float : Literal.read t.trim = Literal.read t
  leadingInteger :
    Moved (t.units.length - t.trimLeft.units.length) (LeadingNumber.integer t) (LeadingNumber.integer t.trimLeft)
  leadingFloat :
    Moved (t.units.length - t.trimLeft.units.length) (LeadingNumber.float t) (LeadingNumber.float t.trimLeft)

/--
**Trimming keeps numbers.** A text is what trimming leaves of it between spaces, whichever end is trimmed first, and
every reader of numbers answers the same for what is left. Only the place of what follows a number at the beginning
moves, by as many units as have been trimmed in front.
-/
theorem trimming_keeps_numbers (t : Text) (ht : t.units.length ≤ Word.largest) : Trims t ∧ TrimmedReadings t := by
  obtain ⟨spaces, hunits, hspaces⟩ := t.exists_spaces
  have hremoved : t.units.length - t.trimLeft.units.length = spaces.length := by
    rw [hunits, List.length_append, Nat.add_sub_cancel]
  refine ⟨t.trims, read_trim_integer t, read_trim_float t, ?_, ?_⟩
  · rw [hremoved]
    exact LeadingNumber.integer_of_spaces hunits hspaces ht
  · rw [hremoved]
    exact LeadingNumber.float_of_spaces hunits hspaces ht

/-- A line feed and spaces around a number, and an em space that is no space unit, with half of a pair behind it. -/
theorem trimming_keeps_numbers_emSpace :
    (⟨[0x0A, 0x20, 0x2D, 0x37, 0x2003, 0xD83D, 0x20]⟩ : Text).units.length ≤ Word.largest ∧
    (⟨[0x0A, 0x20, 0x2D, 0x37, 0x2003, 0xD83D, 0x20]⟩ : Text).trim = ⟨[0x2D, 0x37, 0x2003, 0xD83D]⟩ ∧
    Decimal.read ⟨[0x2D, 0x37, 0x2003, 0xD83D]⟩ = .ok (-7) ∧
    LeadingNumber.integer ⟨[0x0A, 0x20, 0x2D, 0x37, 0x2003, 0xD83D, 0x20]⟩ = (-7, 5) ∧
    LeadingNumber.integer ⟨[0x2D, 0x37, 0x2003, 0xD83D, 0x20]⟩ = (-7, 3) := by
  obtain ⟨-, hreadings⟩ :=
    trimming_keeps_numbers ⟨[0x0A, 0x20, 0x2D, 0x37, 0x2003, 0xD83D, 0x20]⟩ (by decide)
  have hplace := (hreadings.leadingInteger.moved (by decide) (by decide)).2
  refine ⟨by decide, rfl, hreadings.integer.trans (by decide), by decide, ?_⟩
  exact Prod.ext hreadings.leadingInteger.value (Int32.toInt_inj.1 hplace)

end ManagedRuntime
