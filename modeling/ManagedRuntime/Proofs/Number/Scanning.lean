import Mathlib.Data.List.TakeWhile
import ManagedRuntime.Proofs.Encoding.Ascii

/-!
# Scanning numbers

A number is found by counting units of one class after the other.

* `Stops` : a list does not go on with a class of units, so that counting ends in front of it;
* `Signed` : the units of an optional sign;
* `Leads` : spaces and a sign in front of the rest of a text, as many as there are;
* `exists_leads`, `Leads.countLead_eq` : every list of units has them, and they are what is counted;
* `spelling_eq` : the characters of what was counted, without the spaces.
-/

namespace ManagedRuntime

set_option autoImplicit false

/-! ## Counting -/

/-- A list that does not begin with an item of a class. -/
def Stops {α : Type} (p : α → Bool) (xs : List α) : Prop := ∀ x ∈ xs.head?, p x = false

section Stops

variable {α : Type} {p : α → Bool} {xs ys : List α}

theorem stops_nil : Stops p [] := by simp [Stops]

theorem stops_cons {x : α} : Stops p (x :: xs) ↔ p x = false := by simp [Stops]

theorem Stops.of_append (h : Stops p (xs ++ ys)) (hne : xs ≠ []) : Stops p xs := by
  cases xs with
  | nil => exact absurd rfl hne
  | cons x xs => exact stops_cons.2 (stops_cons.1 h)

theorem stops_of_forall (h : ∀ x ∈ xs, p x = false) : Stops p xs := fun x hx => h x (List.mem_of_mem_head? hx)

theorem stops_append (hxs : Stops p xs) (hys : xs = [] → Stops p ys) : Stops p (xs ++ ys) := by
  cases xs with
  | nil => exact hys rfl
  | cons x xs => exact stops_cons.2 (stops_cons.1 hxs)

theorem Stops.map {β : Type} {q : β → Bool} {f : α → β} (h : Stops p xs) (hf : ∀ x ∈ xs, q (f x) = p x) :
    Stops q (xs.map f) := by
  cases xs with
  | nil => exact stops_nil
  | cons x xs => exact stops_cons.2 ((hf x List.mem_cons_self).trans (stops_cons.1 h))

theorem stops_dropWhile (p : α → Bool) (xs : List α) : Stops p (xs.dropWhile p) := by
  induction xs with
  | nil => exact stops_nil
  | cons x xs ih =>
    rw [List.dropWhile_cons]
    split
    next => exact ih
    next h => exact stops_cons.2 (Bool.eq_false_iff.2 h)

/-- Every list begins with items of a class, as many as there are. -/
theorem exists_stops (p : α → Bool) (xs : List α) : ∃ ys zs, xs = ys ++ zs ∧ (∀ y ∈ ys, p y = true) ∧ Stops p zs :=
  ⟨xs.takeWhile p, xs.dropWhile p, List.takeWhile_append_dropWhile.symm, fun _ h => List.mem_takeWhile_imp h,
    stops_dropWhile p xs⟩

theorem takeWhile_of_stops (h : Stops p xs) : xs.takeWhile p = [] := by
  cases xs with
  | nil => rfl
  | cons x xs => rw [List.takeWhile_cons, if_neg (Bool.eq_false_iff.1 (stops_cons.1 h))]

theorem dropWhile_of_stops (h : Stops p xs) : xs.dropWhile p = xs := by
  cases xs with
  | nil => rfl
  | cons x xs => rw [List.dropWhile_cons, if_neg (Bool.eq_false_iff.1 (stops_cons.1 h))]

theorem takeWhile_append_of_stops (hxs : ∀ x ∈ xs, p x = true) (hys : Stops p ys) : (xs ++ ys).takeWhile p = xs := by
  rw [List.takeWhile_append_of_pos hxs, takeWhile_of_stops hys, List.append_nil]

theorem dropWhile_append_of_stops (hxs : ∀ x ∈ xs, p x = true) (hys : Stops p ys) : (xs ++ ys).dropWhile p = ys := by
  rw [List.dropWhile_append_of_pos hxs, dropWhile_of_stops hys]

end Stops

namespace LeadingNumber

variable {us spaces sign body ds rest : List UInt16} {negative : Bool}

theorem countDigits_append (h : ∀ d ∈ ds, isDigit d = true) :
    countDigits (ds ++ rest) = ds.length + countDigits rest := by
  rw [countDigits, List.takeWhile_append_of_pos h, List.length_append, ← countDigits]

theorem countDigits_of_stops (h : Stops isDigit us) : countDigits us = 0 := by
  rw [countDigits, takeWhile_of_stops h, List.length_nil]

theorem countDigits_append_of_stops (h : ∀ d ∈ ds, isDigit d = true) (hstops : Stops isDigit rest) :
    countDigits (ds ++ rest) = ds.length := by
  rw [countDigits_append h, countDigits_of_stops hstops, Nat.add_zero]

/-! ## Signs -/

/-- The units of an optional sign; the flag tells a minus sign. -/
inductive Signed : List UInt16 → Bool → Prop where
  | absent : Signed [] false
  | plus : Signed [unit '+'] false
  | minus : Signed [unit '-'] true

def isSign (u : UInt16) : Bool := u = unit '+' ∨ u = unit '-'

theorem exists_signed (us : List UInt16) :
    ∃ sign rest negative, us = sign ++ rest ∧ Signed sign negative ∧ (sign = [] → Stops isSign rest) := by
  cases us with
  | nil => exact ⟨[], [], false, rfl, .absent, fun _ => stops_nil⟩
  | cons u us =>
    by_cases hplus : u = unit '+'
    · exact ⟨[u], us, false, rfl, hplus ▸ .plus, nofun⟩
    by_cases hminus : u = unit '-'
    · exact ⟨[u], us, true, rfl, hminus ▸ .minus, nofun⟩
    · exact ⟨[], u :: us, false, rfl, .absent, fun _ => stops_cons.2 (by simp [isSign, hplus, hminus])⟩

theorem countSign_of_stops (h : Stops isSign us) : countSign us = 0 := by
  cases us with
  | nil => rfl
  | cons u us => exact if_neg (by simpa [isSign] using stops_cons.1 h)

namespace Signed

variable (h : Signed sign negative)

include h

theorem countSign_append (hstops : sign = [] → Stops isSign rest) : countSign (sign ++ rest) = sign.length := by
  cases h with
  | absent => exact countSign_of_stops (hstops rfl)
  | plus => rfl
  | minus => rfl

theorem le : ∀ u ∈ sign, u.toNat ≤ 57 := by
  cases h with
  | absent => exact nofun
  | plus => exact List.forall_mem_singleton.2 (by decide)
  | minus => exact List.forall_mem_singleton.2 (by decide)

theorem ge : ∀ u ∈ sign, 43 ≤ u.toNat := by
  cases h with
  | absent => exact nofun
  | plus => exact List.forall_mem_singleton.2 (by decide)
  | minus => exact List.forall_mem_singleton.2 (by decide)

theorem ascii : ∀ u ∈ sign, u.toNat < 0x80 := fun u hu => Nat.lt_of_le_of_lt (h.le u hu) (by decide)

theorem stops_isSpace (hrest : Stops Blank.isSpace rest) : Stops Blank.isSpace (sign ++ rest) := by
  cases h with
  | absent => exact hrest
  | plus => exact stops_cons.2 rfl
  | minus => exact stops_cons.2 rfl

theorem splitSign_append (hascii : ∀ u ∈ rest, u.toNat < 0x80) (hstops : sign = [] → Stops isSign rest) :
    Decimal.splitSign ((sign ++ rest).map Utf16.single) = (negative, rest.map Utf16.single) := by
  cases h with
  | plus => rfl
  | minus => rfl
  | absent =>
    cases rest with
    | nil => rfl
    | cons u rest =>
      have hu : u.toNat < 0x80 := hascii u List.mem_cons_self
      have hsign : isSign u = false := stops_cons.1 (hstops rfl)
      rw [isSign, decide_eq_false_iff_not, not_or] at hsign
      have hplus : Utf16.single u ≠ '+' := fun h => hsign.1 ((Utf16.single_eq_iff hu (by decide)).1 h)
      have hminus : Utf16.single u ≠ '-' := fun h => hsign.2 ((Utf16.single_eq_iff hu (by decide)).1 h)
      rw [List.nil_append, List.map_cons]
      unfold Decimal.splitSign
      split
      next heq => exact absurd (List.cons.inj heq).1 hplus
      next heq => exact absurd (List.cons.inj heq).1 hminus
      next => rfl

end Signed

/-! ## Spaces and a sign -/

/-- All the spaces at the beginning of some units, a sign if there is one, and what stands behind them. -/
structure Leads (us spaces sign body : List UInt16) (negative : Bool) : Prop where
  units : us = spaces ++ (sign ++ body)
  spaces : ∀ u ∈ spaces, Blank.isSpace u = true
  spaces_stop : Stops Blank.isSpace (sign ++ body)
  signed : Signed sign negative
  sign_stops : sign = [] → Stops isSign body

theorem exists_leads (us : List UInt16) : ∃ spaces sign body negative, Leads us spaces sign body negative := by
  obtain ⟨spaces, word, rfl, hspaces, hstop⟩ := exists_stops Blank.isSpace us
  obtain ⟨sign, body, negative, rfl, hsign, hbody⟩ := exists_signed word
  exact ⟨spaces, sign, body, negative, rfl, hspaces, hstop, hsign, hbody⟩

namespace Leads

variable (h : Leads us spaces sign body negative)

include h

theorem countLead_eq : countLead us = (spaces ++ sign).length := by
  have hspaces : countSpaces us = spaces.length := by
    rw [countSpaces, h.units, takeWhile_append_of_stops h.spaces h.spaces_stop]
  rw [countLead, hspaces, h.units, List.drop_left, h.signed.countSign_append h.sign_stops, List.length_append]

theorem drop_countLead : us.drop (countLead us) = body := by
  rw [h.countLead_eq, h.units, ← List.append_assoc, List.drop_left]

end Leads

/-- The characters of ASCII units behind spaces. -/
theorem spelling_eq {t : Text} {word : List UInt16} (hunits : t.units = spaces ++ word ++ rest)
    (hspaces : ∀ u ∈ spaces, Blank.isSpace u = true) (hstop : Stops Blank.isSpace word)
    (hascii : ∀ u ∈ word, u.toNat < 0x80) : spelling t (spaces ++ word).length = word.map Utf16.single := by
  have hall : ∀ u ∈ spaces ++ word, u.toNat < 0x80 :=
    List.forall_mem_append.2 ⟨fun u hu => Utf16.ascii_of_isSpace (hspaces u hu), hascii⟩
  have hblank : ∀ c ∈ spaces.map Utf16.single, Blank.isWhiteSpace c = true := by
    intro c hc
    obtain ⟨u, hu, rfl⟩ := List.mem_map.1 hc
    rw [Utf16.isWhiteSpace_single (Utf16.ascii_of_isSpace (hspaces u hu)), hspaces u hu]
  have hword : Stops Blank.isWhiteSpace (word.map Utf16.single) :=
    hstop.map fun u hu => Utf16.isWhiteSpace_single (hascii u hu)
  rw [spelling, hunits, List.take_left, Utf16.decode_ascii hall, List.map_append, Blank.stripStart,
    dropWhile_append_of_stops hblank hword]

/-! ## The place behind a number -/

section PlaceAfter

variable {t : Text} {number : List UInt16} (ht : t.units.length ≤ Word.largest) (hunits : t.units = number ++ rest)

include ht hunits

theorem toInt_placeAfter :
    (placeAfter t number.length).toInt = if rest = [] then 0 else (number.length : Int) + 1 := by
  have hlength : t.units.length = number.length + rest.length := by rw [hunits, List.length_append]
  unfold placeAfter
  split
  next h =>
    have hrest : rest = [] := List.eq_nil_of_length_eq_zero (by omega)
    rw [if_pos hrest]
    rfl
  next h =>
    have hrest : rest ≠ [] := by
      rintro rfl
      exact h (by simp [hlength])
    have hpos := List.length_pos_iff.2 hrest
    rw [if_neg hrest, Word.toInt_saturate]
    omega

theorem placeAfter_eq_zero_iff : placeAfter t number.length = 0 ↔ rest = [] := by
  have hzero : (0 : Int32).toInt = 0 := rfl
  rw [← Int32.toInt_inj, toInt_placeAfter ht hunits, hzero]
  split
  next hrest => exact iff_of_true rfl hrest
  next hrest => exact iff_of_false (by omega) hrest

/-- The place behind a number is not the first one. -/
theorem placeAfter_ne_one (hne : number ≠ []) : placeAfter t number.length ≠ 1 := by
  intro hcode
  have hplace := toInt_placeAfter ht hunits
  have hone : (1 : Int32).toInt = 1 := rfl
  have hpos := List.length_pos_iff.2 hne
  rw [hcode, hone] at hplace
  split at hplace <;> omega

end PlaceAfter

end LeadingNumber

end ManagedRuntime
