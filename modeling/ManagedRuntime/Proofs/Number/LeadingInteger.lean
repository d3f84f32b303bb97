import ManagedRuntime.Proofs.Number.Scanning

/-!
# Integers at the beginning of a text

* `LongestInteger` : spaces, a sign and digits at the beginning of some units, as many of each as there are;
* `parse?_signed` : the characters of a sign and digits are refused only where their value is no word;
* `integer_reads_longest` : the value and the code of every text, by its longest beginning of this form.
-/

namespace ManagedRuntime.LeadingNumber

set_option autoImplicit false

/-! ## Values -/

/-- The integer that a sign and digits spell. -/
def signedValue (negative : Bool) (digits : List UInt16) : Int :=
  if negative then -(digitsValue digits : Int) else digitsValue digits

/-- An integer that is a word. -/
def Fits (i : Int) : Prop := -2147483648 ≤ i ∧ i ≤ 2147483647

instance (i : Int) : Decidable (Fits i) := inferInstanceAs (Decidable (_ ∧ _))

theorem toWord?_of_fits {i : Int} (h : Fits i) : ∃ w, Decimal.toWord? i = some w ∧ w.toInt = i :=
  ⟨.ofInt i, if_pos h, Int32.toInt_ofInt_of_le h.1 (Int.lt_add_one_of_le h.2)⟩

theorem toWord?_of_not_fits {i : Int} (h : ¬ Fits i) : Decimal.toWord? i = none := if_neg h

/-! ## Digits -/

section Digits

variable {us spaces sign digits rest : List UInt16} {negative : Bool}

theorem stops_of_digits {p : UInt16 → Bool} (hp : ∀ u, isDigit u = true → p u = false)
    (h : ∀ u ∈ digits, isDigit u = true) : Stops p digits :=
  fun u hu => hp u (h u (List.mem_of_mem_head? hu))

theorem isSign_of_isDigit (u : UInt16) (h : isDigit u = true) : isSign u = false := by
  rw [Utf16.isDigit_iff] at h
  have hplus : (unit '+').toNat = 43 := rfl
  have hminus : (unit '-').toNat = 45 := rfl
  simp only [isSign, ← UInt16.toNat_inj, decide_eq_false_iff_not]
  omega

/-- The reading of characters checks no more than the range. -/
theorem parse?_signed (hsigned : Signed sign negative) (hdigits : ∀ u ∈ digits, isDigit u = true)
    (hne : digits ≠ []) :
    Decimal.parse? ((sign ++ digits).map Utf16.single) = Decimal.toWord? (signedValue negative digits) := by
  have hascii : ∀ u ∈ digits, u.toNat < 0x80 := fun u hu => Utf16.ascii_of_isDigit (hdigits u hu)
  have hall : (digits.map Utf16.single).all Char.isDigit = true := by
    rw [List.all_map, List.all_eq_true]
    exact fun u hu => (Utf16.isDigit_single (hascii u hu)).trans (hdigits u hu)
  have hbody : digits.map Utf16.single ≠ [] := fun h => hne (List.map_eq_nil_iff.1 h)
  rw [Decimal.parse?, hsigned.splitSign_append hascii fun _ => stops_of_digits isSign_of_isDigit hdigits]
  exact (if_pos ⟨hbody, hall⟩).trans (by rw [value_map_single hdigits, signedValue])

/-! ## The longest beginning -/

/-- Spaces, a sign and digits at the beginning of some units, as many of each as there are, and the rest. -/
structure LongestInteger (us spaces sign digits rest : List UInt16) (negative : Bool) : Prop
    extends Leads us spaces sign (digits ++ rest) negative where
  digits : ∀ u ∈ digits, isDigit u = true
  digits_stop : Stops isDigit rest

theorem exists_longestInteger (us : List UInt16) :
    ∃ spaces sign digits rest negative, LongestInteger us spaces sign digits rest negative := by
  obtain ⟨spaces, sign, body, negative, h⟩ := exists_leads us
  obtain ⟨digits, rest, rfl, hdigits, hstop⟩ := exists_stops isDigit body
  exact ⟨spaces, sign, digits, rest, negative, h, hdigits, hstop⟩

namespace LongestInteger

variable (h : LongestInteger us spaces sign digits rest negative)

include h

theorem units_eq : us = (spaces ++ sign ++ digits) ++ rest := by
  rw [h.units]
  simp only [List.append_assoc]

theorem integerLength?_eq :
    integerLength? us = if digits = [] then none else some (spaces ++ sign ++ digits).length := by
  have hcount : countDigits (us.drop (countLead us)) = digits.length := by
    rw [h.drop_countLead, countDigits_append_of_stops h.digits h.digits_stop]
  rw [integerLength?, hcount, h.countLead_eq, positive?]
  by_cases hne : digits = []
  · rw [hne]
    rfl
  · rw [if_pos (List.length_pos_iff.2 hne), if_neg hne, @List.length_append _ (spaces ++ sign)]
    rfl

theorem parse?_spelling {t : Text} (ht : t.units = us) (hne : digits ≠ []) :
    Decimal.parse? (spelling t (spaces ++ sign ++ digits).length) =
      Decimal.toWord? (signedValue negative digits) := by
  have hunits : t.units = spaces ++ (sign ++ digits) ++ rest := by
    rw [ht, h.units_eq, List.append_assoc spaces]
  have hstop : Stops Blank.isSpace (sign ++ digits) := by
    have hspaces := h.spaces_stop
    rw [← List.append_assoc] at hspaces
    exact hspaces.of_append (List.append_ne_nil_of_right_ne_nil sign hne)
  have hascii : ∀ u ∈ sign ++ digits, u.toNat < 0x80 :=
    List.forall_mem_append.2 ⟨h.signed.ascii, fun u hu => Utf16.ascii_of_isDigit (h.digits u hu)⟩
  rw [List.append_assoc, spelling_eq hunits h.spaces hstop hascii, parse?_signed h.signed h.digits hne]

end LongestInteger

/-! ## Value and code -/

/-- What is answered for a text that begins with an integer `value` of `digits`, ends behind it at `stop` or goes on. -/
structure IntegerAnswer (t : Text) (stop : Nat) (digits rest : List UInt16) (value : Int) : Prop where
  /-- Without digits, or with a value that is no word, nothing is read. -/
  refused : digits = [] ∨ ¬ Fits value → integer t = (0, 1)
  /-- The value, and 0 or the place of the first unit that is not part of the number. -/
  read : digits ≠ [] → Fits value →
    (integer t).1.toInt = value ∧ (integer t).2.toInt = if rest = [] then 0 else (stop : Int) + 1
  whole : (integer t).2 = 0 ↔ digits ≠ [] ∧ Fits value ∧ rest = []
  failed : (integer t).2 = 1 ↔ digits = [] ∨ ¬ Fits value
  /-- Every other code names a unit of the text. -/
  followed : ∀ code, (integer t).2 = code → code ≠ 0 → code ≠ 1 → 2 ≤ code.toInt ∧ code.toInt ≤ t.units.length ∧
    t.units.drop (code.toInt - 1).toNat = rest ∧ rest ≠ []
  /-- What was found is read, unless it is out of range. -/
  parsed : digits ≠ [] → integerLength? t.units = some stop ∧
    (Decimal.parse? (spelling t stop) = none ↔ ¬ Fits value)

namespace LongestInteger

variable {t : Text} (h : LongestInteger t.units spaces sign digits rest negative)

include h

theorem integer_of_refused (hnone : digits = [] ∨ ¬ Fits (signedValue negative digits)) : integer t = (0, 1) := by
  rw [integer, h.integerLength?_eq]
  by_cases hne : digits = []
  · rw [if_pos hne]
  · have hrange : ¬ Fits (signedValue negative digits) := hnone.resolve_left hne
    rw [if_neg hne]
    dsimp only
    rw [h.parse?_spelling rfl hne, toWord?_of_not_fits hrange]

theorem integer_of_read (hne : digits ≠ []) (hfits : Fits (signedValue negative digits)) : ∃ w,
    integer t = (w, placeAfter t (spaces ++ sign ++ digits).length) ∧ w.toInt = signedValue negative digits := by
  obtain ⟨w, hword, hw⟩ := toWord?_of_fits hfits
  refine ⟨w, ?_, hw⟩
  rw [integer, h.integerLength?_eq, if_neg hne]
  dsimp only
  rw [h.parse?_spelling rfl hne, hword]

theorem parsed (hne : digits ≠ []) : integerLength? t.units = some (spaces ++ sign ++ digits).length ∧
    (Decimal.parse? (spelling t (spaces ++ sign ++ digits).length) = none ↔
      ¬ Fits (signedValue negative digits)) := by
  rw [h.integerLength?_eq, if_neg hne, h.parse?_spelling rfl hne]
  refine ⟨rfl, fun hnone hfits => ?_, toWord?_of_not_fits⟩
  obtain ⟨w, hword, -⟩ := toWord?_of_fits hfits
  rw [hword] at hnone
  cases hnone

theorem answer_of_refused (hnone : digits = [] ∨ ¬ Fits (signedValue negative digits)) :
    IntegerAnswer t (spaces ++ sign ++ digits).length digits rest (signedValue negative digits) := by
  have hinteger := h.integer_of_refused hnone
  have hnot : ¬ (digits ≠ [] ∧ Fits (signedValue negative digits)) := by
    rwa [ne_eq, not_and_or, not_not]
  exact {
    refused := fun _ => hinteger
    read := fun hne hfits => absurd ⟨hne, hfits⟩ hnot
    whole := by
      rw [hinteger]
      exact iff_of_false (by decide) fun hall => hnot ⟨hall.1, hall.2.1⟩
    failed := by
      rw [hinteger]
      exact iff_of_true rfl hnone
    followed := fun code hcode _ hone => absurd (hcode.symm.trans (congrArg Prod.snd hinteger)) hone
    parsed := h.parsed }

theorem answer_of_read (ht : t.units.length ≤ Word.largest) (hne : digits ≠ [])
    (hfits : Fits (signedValue negative digits)) :
    IntegerAnswer t (spaces ++ sign ++ digits).length digits rest (signedValue negative digits) := by
  obtain ⟨w, hinteger, hw⟩ := h.integer_of_read hne hfits
  have hplace := toInt_placeAfter ht h.units_eq
  have hzero := placeAfter_eq_zero_iff ht h.units_eq
  have hnotOne := placeAfter_ne_one ht h.units_eq (List.append_ne_nil_of_right_ne_nil _ hne)
  have hlength := congrArg List.length h.units_eq
  have hstop : 0 < (spaces ++ sign ++ digits).length :=
    List.length_pos_iff.2 (List.append_ne_nil_of_right_ne_nil _ hne)
  rw [List.length_append] at hlength
  generalize placeAfter t (spaces ++ sign ++ digits).length = code at hinteger hplace hzero hnotOne
  have hsuccess : ¬ (digits = [] ∨ ¬ Fits (signedValue negative digits)) := by
    rw [not_or, not_not]
    exact ⟨hne, hfits⟩
  exact {
    refused := fun hnone => absurd hnone hsuccess
    read := fun _ _ => by rw [hinteger]; exact ⟨hw, hplace⟩
    whole := by
      rw [hinteger, hzero]
      exact ⟨fun hrest => ⟨hne, hfits, hrest⟩, fun hall => hall.2.2⟩
    failed := by
      rw [hinteger]
      exact iff_of_false hnotOne hsuccess
    followed := by
      rintro _ rfl hcode -
      rw [hinteger] at hcode ⊢
      show 2 ≤ code.toInt ∧ code.toInt ≤ t.units.length ∧ t.units.drop (code.toInt - 1).toNat = rest ∧ rest ≠ []
      have hrest : rest ≠ [] := fun hrest => hcode (hzero.2 hrest)
      have hpos := List.length_pos_iff.2 hrest
      rw [if_neg hrest] at hplace
      have hdrop : (code.toInt - 1).toNat = (spaces ++ sign ++ digits).length := by omega
      refine ⟨by omega, by omega, ?_, hrest⟩
      rw [hdrop, h.units_eq, List.drop_left]
    parsed := h.parsed }

theorem answer (ht : t.units.length ≤ Word.largest) :
    IntegerAnswer t (spaces ++ sign ++ digits).length digits rest (signedValue negative digits) := by
  by_cases hnone : digits = [] ∨ ¬ Fits (signedValue negative digits)
  · exact h.answer_of_refused hnone
  · rw [not_or, not_not] at hnone
    exact h.answer_of_read ht hnone.1 hnone.2

end LongestInteger

end Digits

/--
**Integers at the beginning of a text.** Every text begins with spaces, a sign and digits, as many of each as there
are, and these determine what is read.
-/
theorem integer_reads_longest (t : Text) (ht : t.units.length ≤ Word.largest) :
    (∃ spaces sign digits rest negative, LongestInteger t.units spaces sign digits rest negative) ∧
    ∀ spaces sign digits rest negative, LongestInteger t.units spaces sign digits rest negative →
      IntegerAnswer t (spaces ++ sign ++ digits).length digits rest (signedValue negative digits) :=
  ⟨exists_longestInteger t.units, fun _ _ _ _ _ h => h.answer ht⟩

/-- The least word, behind blanks and with leading zeros; the digit that follows is no ASCII digit. -/
theorem integer_reads_longest_least :
    (⟨[0x09, 0x20, 0x2D] ++ ("002147483648".toList.map unit ++ [0x0663])⟩ : Text).units.length ≤ Word.largest ∧
    LongestInteger ([0x09, 0x20, 0x2D] ++ ("002147483648".toList.map unit ++ [0x0663])) [0x09, 0x20] [0x2D]
      ("002147483648".toList.map unit) [0x0663] true ∧
    (integer ⟨[0x09, 0x20, 0x2D] ++ ("002147483648".toList.map unit ++ [0x0663])⟩).1.toInt = -2147483648 ∧
    (integer ⟨[0x09, 0x20, 0x2D] ++ ("002147483648".toList.map unit ++ [0x0663])⟩).2.toInt = 16 := by
  have hlongest : LongestInteger ([0x09, 0x20, 0x2D] ++ ("002147483648".toList.map unit ++ [0x0663])) [0x09, 0x20]
      [0x2D] ("002147483648".toList.map unit) [0x0663] true :=
    { units := rfl
      spaces := List.forall_mem_cons.2 ⟨rfl, List.forall_mem_singleton.2 rfl⟩
      spaces_stop := stops_cons.2 rfl
      signed := .minus
      sign_stops := nofun
      digits := List.all_eq_true.1 (by decide)
      digits_stop := stops_cons.2 rfl }
  have hvalue : signedValue true ("002147483648".toList.map unit) = -2147483648 := by decide
  have hanswer := (integer_reads_longest ⟨_⟩ (by decide)).2 _ _ _ _ _ hlongest
  obtain ⟨hread, hplace⟩ := hanswer.read (by decide) (by decide)
  exact ⟨by decide, hlongest, hread.trans hvalue, hplace⟩

end ManagedRuntime.LeadingNumber
