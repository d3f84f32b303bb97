import Mathlib.Data.Nat.Find
import ManagedRuntime.Proofs.Text.Editing
import ManagedRuntime.Text.Search

/-!
# The first occurrence

* `firstMatch_eq_some_iff`, `firstMatch_eq_none_iff` : searching a list finds the first place where another list begins;
* `OccursAt` : an index from which a text can be copied out of another one;
* `occursAt_iff` : there the units of the one begin with those of the other;
* `position_cases` : what is found is the least such index, and nothing is found only where there is none;
* `first_occurrence` : searching, and what it finds of a text in the middle of two others.
-/

namespace ManagedRuntime.Text

set_option autoImplicit false

/-! ## Lists of units -/

section Lists

variable {needle us : List UInt16} {n : Nat}

theorem firstMatch_of_begins (h : needle <+: us) : firstMatch needle us = some 0 := by
  cases us with
  | nil =>
    obtain rfl := List.prefix_nil.1 h
    rfl
  | cons u rest =>
    unfold firstMatch
    exact if_pos (List.isPrefixOf_iff_prefix.2 h)

theorem firstMatch_nil (h : ¬ needle <+: []) : firstMatch needle [] = none := by
  unfold firstMatch
  apply if_neg
  rwa [List.isEmpty_iff, ← List.prefix_nil]

theorem firstMatch_cons {u : UInt16} {rest : List UInt16} (h : ¬ needle <+: u :: rest) :
    firstMatch needle (u :: rest) = (firstMatch needle rest).map (· + 1) := by
  conv_lhs => unfold firstMatch
  apply if_neg
  rwa [List.isPrefixOf_iff_prefix]

/-- Where the needle begins at once, no other place is the first one. -/
theorem least_iff_of_begins (h : needle <+: us) :
    (needle <+: us.drop n ∧ ∀ k < n, ¬ needle <+: us.drop k) ↔ n = 0 := by
  constructor
  · rintro ⟨-, hleast⟩
    by_contra hne
    exact hleast 0 (by omega) h
  · rintro rfl
    exact ⟨h, by simp⟩

/-- The first place where the needle begins. -/
theorem firstMatch_eq_some_iff :
    firstMatch needle us = some n ↔ needle <+: us.drop n ∧ ∀ k < n, ¬ needle <+: us.drop k := by
  induction us generalizing n with
  | nil =>
    by_cases hhere : needle <+: []
    · rw [least_iff_of_begins hhere, firstMatch_of_begins hhere, Option.some.injEq, eq_comm]
    · rw [firstMatch_nil hhere]
      simp [hhere]
  | cons u rest ih =>
    by_cases hhere : needle <+: u :: rest
    · rw [least_iff_of_begins hhere, firstMatch_of_begins hhere, Option.some.injEq, eq_comm]
    · rw [firstMatch_cons hhere]
      cases n with
      | zero => simp [hhere]
      | succ n =>
        -- What does not begin here is first where it is first in the rest, one place further on.
        have hleast : (∀ k < n + 1, ¬ needle <+: (u :: rest).drop k) ↔ ∀ k < n, ¬ needle <+: rest.drop k := by
          constructor
          · intro h k hk
            exact h (k + 1) (by omega)
          · intro h k hk
            cases k with
            | zero => exact hhere
            | succ k => exact h k (by omega)
        rw [hleast, List.drop_succ_cons, ← ih]
        simp

theorem firstMatch_eq_none_iff : firstMatch needle us = none ↔ ∀ k, ¬ needle <+: us.drop k := by
  constructor
  · intro h k hk
    -- Of the places where the needle begins there is a least one, which would have been found.
    classical
    have hex : ∃ k, needle <+: us.drop k := ⟨k, hk⟩
    have hfound := firstMatch_eq_some_iff.2 ⟨Nat.find_spec hex, fun _ hlt => Nat.find_min hex hlt⟩
    rw [h] at hfound
    cases hfound
  · intro h
    cases hfound : firstMatch needle us with
    | none => rfl
    | some n => exact absurd (firstMatch_eq_some_iff.1 hfound).1 (h n)

end Lists

/-! ## Texts -/

/-- The needle lies within the haystack from an index on. -/
structure OccursAt (needle haystack : Text) (index : Int32) : Prop where
  one_le : 1 ≤ index.toInt
  fits : index.toInt + needle.length.toInt - 1 ≤ haystack.length.toInt
  copy : haystack.copy index needle.length = needle

/-- The least index at which the needle occurs. -/
structure FirstAt (needle haystack : Text) (index : Int32) : Prop where
  occurs : OccursAt needle haystack index
  least : ∀ other, OccursAt needle haystack other → index.toInt ≤ other.toInt

theorem FirstAt.unique {needle haystack : Text} {p q : Int32} (hp : FirstAt needle haystack p)
    (hq : FirstAt needle haystack q) : p = q := by
  have hle := hp.least q hq.occurs
  have hge := hq.least p hp.occurs
  apply Int32.toInt_inj.1
  omega

/-- What occurs can be taken out and put back. -/
theorem OccursAt.delete_insert {needle haystack : Text} {p : Int32} (h : OccursAt needle haystack p) :
    (haystack.delete p needle.length).insert needle p = haystack := by
  have hback := delete_insert_copy haystack p needle.length
  rwa [h.copy] at hback

section Texts

variable {needle haystack : Text} (hne : 1 ≤ needle.length.toInt) (hsize : haystack.units.length ≤ Word.largest)

include hne hsize

/-- A needle occurs where the units of the haystack begin with its own. -/
theorem occursAt_iff {p : Int32} :
    OccursAt needle haystack p ↔ 1 ≤ p.toInt ∧ needle.units <+: haystack.units.drop (p.toInt - 1).toNat := by
  have hneedle := toInt_length needle
  have hhaystack := toInt_length haystack
  constructor
  · rintro ⟨hone, -, hcopy⟩
    refine ⟨hone, ?_⟩
    have hunits := congrArg units hcopy
    rw [units_copy hone] at hunits
    rw [← hunits]
    exact List.take_prefix _ _
  · rintro ⟨hone, hbegins⟩
    have hle := hbegins.length_le
    rw [List.length_drop] at hle
    have hselected : haystack.selected p needle.length = needle.units.length := by
      unfold selected
      omega
    refine ⟨hone, by omega, ?_⟩
    apply ext_units
    rw [units_copy hone, hselected]
    exact (List.prefix_iff_eq_take.1 hbegins).symm

/-- A word counts every place where the needle begins. -/
theorem exists_occursAt {n : Nat} (h : needle.units <+: haystack.units.drop n) :
    ∃ p : Int32, p.toInt = n + 1 ∧ OccursAt needle haystack p := by
  have hneedle := toInt_length needle
  have hle := h.length_le
  rw [List.length_drop] at hle
  simp only [Word.largest] at *
  have hp : (Int32.ofInt (n + 1)).toInt = n + 1 := Int32.toInt_ofInt_of_le (by omega) (by omega)
  refine ⟨.ofInt (n + 1), hp, (occursAt_iff hne hsize).2 ⟨by omega, ?_⟩⟩
  rw [hp, Int.add_sub_cancel, Int.toNat_natCast]
  exact h

/-- The first occurrence is found, or there is none. -/
theorem position_cases : FirstAt needle haystack (position needle haystack) ∨
    position needle haystack = 0 ∧ ∀ p, ¬ OccursAt needle haystack p := by
  cases hfound : firstMatch needle.units haystack.units with
  | none =>
    right
    rw [firstMatch_eq_none_iff] at hfound
    constructor
    · unfold position
      rw [firstMatch_eq_none_iff.2 hfound]
    · intro p hp
      exact hfound _ ((occursAt_iff hne hsize).1 hp).2
  | some n =>
    left
    obtain ⟨hbegins, hleast⟩ := firstMatch_eq_some_iff.1 hfound
    obtain ⟨p, hp, hoccurs⟩ := exists_occursAt hne hsize hbegins
    have hfirst : FirstAt needle haystack p := by
      refine ⟨hoccurs, ?_⟩
      intro q hq
      obtain ⟨hone, hbegins⟩ := (occursAt_iff hne hsize).1 hq
      by_contra hlt
      exact hleast _ (by omega) hbegins
    have hposition : position needle haystack = p := by
      have hlt := p.toInt_lt
      have hsmall : n < Word.largest := by
        unfold Word.largest
        omega
      unfold position
      rw [hfound]
      dsimp only
      rw [if_pos hsmall]
      apply Int32.toInt_inj.1
      rw [Word.toInt_saturate, hp]
      omega
    rw [hposition]
    exact hfirst

theorem position_eq_iff {p : Int32} (hp : 0 < p.toInt) : position needle haystack = p ↔ FirstAt needle haystack p := by
  constructor
  · rintro rfl
    obtain hfirst | ⟨hzero, -⟩ := position_cases hne hsize
    · exact hfirst
    · rw [hzero] at hp
      exact absurd hp (by decide)
  · intro hfirst
    obtain hfound | ⟨-, hnone⟩ := position_cases hne hsize
    · exact hfound.unique hfirst
    · exact absurd hfirst.occurs (hnone p)

theorem position_eq_zero_iff : position needle haystack = 0 ↔ ∀ p, ¬ OccursAt needle haystack p := by
  constructor
  · intro hzero
    obtain hfirst | ⟨-, hnone⟩ := position_cases hne hsize
    · have hone := hfirst.occurs.one_le
      rw [hzero] at hone
      exact absurd hone (by decide)
    · exact hnone
  · intro hnone
    obtain hfirst | ⟨hzero, -⟩ := position_cases hne hsize
    · exact absurd hfirst.occurs (hnone _)
    · exact hzero

end Texts

/-- A text between two others is found where it stands, or before. -/
theorem firstAt_between {a needle b : Text} (hne : 1 ≤ needle.length.toInt)
    (hsize : (a ++ needle ++ b).units.length ≤ Word.largest) :
    FirstAt needle (a ++ needle ++ b) (position needle (a ++ needle ++ b)) ∧
      (position needle (a ++ needle ++ b)).toInt ≤ a.length.toInt + 1 := by
  have hstands : needle.units <+: (a ++ needle ++ b).units.drop a.units.length := by
    rw [units_append, units_append, List.append_assoc, List.drop_left]
    exact List.prefix_append _ _
  obtain ⟨p, hp, hoccurs⟩ := exists_occursAt hne hsize hstands
  have hlength := toInt_length a
  have hsum : (a ++ needle ++ b).units.length = a.units.length + needle.units.length + b.units.length := by
    rw [units_append, units_append, List.length_append, List.length_append]
  obtain hfirst | ⟨-, hnone⟩ := position_cases hne hsize
  · have hleast := hfirst.least p hoccurs
    exact ⟨hfirst, by omega⟩
  · exact absurd hoccurs (hnone p)

/--
**The first occurrence.** In a text whose units a word can count, a text that is not empty is found at the least index
from which it can be copied out, and at 0 only where there is no such index. Between two others it is found no later
than where it stands, and what is found can be deleted and inserted again.
-/
theorem first_occurrence :
    (∀ needle haystack : Text, 1 ≤ needle.length.toInt → haystack.units.length ≤ 2147483647 →
      (∀ p : Int32, 0 < p.toInt → (position needle haystack = p ↔ FirstAt needle haystack p)) ∧
      (position needle haystack = 0 ↔ ∀ p, ¬ OccursAt needle haystack p)) ∧
    ∀ a needle b : Text, 1 ≤ needle.length.toInt → (a ++ needle ++ b).units.length ≤ 2147483647 →
      1 ≤ (position needle (a ++ needle ++ b)).toInt ∧
      (position needle (a ++ needle ++ b)).toInt ≤ a.length.toInt + 1 ∧
      ((a ++ needle ++ b).delete (position needle (a ++ needle ++ b)) needle.length).insert needle
        (position needle (a ++ needle ++ b)) = a ++ needle ++ b := by
  constructor
  · intro needle haystack hne hsize
    exact ⟨fun p hp => position_eq_iff hne hsize hp, position_eq_zero_iff hne hsize⟩
  · intro a needle b hne hsize
    obtain ⟨hfirst, hbound⟩ := firstAt_between hne hsize
    exact ⟨hfirst.occurs.one_le, hbound, hfirst.occurs.delete_insert⟩

/-- A beginning of the needle stands in front of it, and the second half of a pair is found by itself. -/
theorem first_occurrence_overlapping :
    1 ≤ (⟨[0xDE00, 0xDE00, 0x62]⟩ : Text).length.toInt ∧
    ([0xD83D, 0xDE00] ++ [0xDE00, 0xDE00, 0x62] ++ [] : List UInt16).length ≤ 2147483647 ∧
    FirstAt ⟨[0xDE00, 0xDE00, 0x62]⟩ ⟨[0xD83D, 0xDE00, 0xDE00, 0xDE00, 0x62]⟩ 3 ∧
    (position ⟨[0xDE00, 0xDE00, 0x62]⟩ (⟨[0xD83D, 0xDE00]⟩ ++ ⟨[0xDE00, 0xDE00, 0x62]⟩ ++ ⟨[]⟩)).toInt ≤ 3 := by
  obtain ⟨hfound, hbetween⟩ := first_occurrence
  obtain ⟨hpositive, -⟩ :=
    hfound ⟨[0xDE00, 0xDE00, 0x62]⟩ ⟨[0xD83D, 0xDE00, 0xDE00, 0xDE00, 0x62]⟩ (by decide) (by decide)
  obtain ⟨-, hbound, -⟩ := hbetween ⟨[0xD83D, 0xDE00]⟩ ⟨[0xDE00, 0xDE00, 0x62]⟩ ⟨[]⟩ (by decide) (by decide)
  exact ⟨by decide, by decide, (hpositive 3 (by decide)).1 (by decide), hbound⟩

end ManagedRuntime.Text
