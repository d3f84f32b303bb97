import Mathlib.Data.List.Basic
import ManagedRuntime.Text.Basic

/-!
# Editing by index

* `units_copy`, `units_delete`, `units_insert` : what the three edits do to the units, from the index 1 on;
* `insertionPlace` : where an insertion really begins;
* `cut_paste` : what is copied and deleted at one place can be inserted there again, and what is inserted can be copied
  and deleted at the place where it begins.
-/

namespace ManagedRuntime.Text

set_option autoImplicit false

variable {t s : Text} {index count : Int32}

theorem ext_units (h : t.units = s.units) : t = s := congrArg mk h

theorem toInt_length (t : Text) : t.length.toInt = min t.units.length Word.largest := Word.toInt_saturate _

/-! ## One equation for each edit -/

/-- How many units are selected from an index on. -/
def selected (t : Text) (index count : Int32) : Nat := (min count.toInt (t.length.toInt - index.toInt + 1)).toNat

theorem units_copy (h : 1 ≤ index.toInt) :
    (t.copy index count).units = (t.units.drop (index.toInt - 1).toNat).take (t.selected index count) := by
  rw [copy, Int.max_eq_left h]
  rfl

/-- An index behind the text and a count that is not positive select no units. -/
theorem units_delete (h : 1 ≤ index.toInt) : (t.delete index count).units =
    t.units.take (index.toInt - 1).toNat ++ t.units.drop ((index.toInt - 1).toNat + t.selected index count) := by
  unfold delete
  split
  next hnone =>
    have hzero : t.selected index count = 0 := by
      rw [selected]
      omega
    rw [hzero, Nat.add_zero, List.take_append_drop]
  next => rfl

/-- A word behind the text is also behind its units, however many there are. -/
theorem units_insert (h : 1 ≤ index.toInt) : (t.insert s index).units =
    t.units.take (index.toInt - 1).toNat ++ s.units ++ t.units.drop (index.toInt - 1).toNat := by
  unfold insert
  rw [if_neg (by omega)]
  split
  next hbehind =>
    have hlength := toInt_length t
    have hindex := index.toInt_lt
    have hall : t.units.length ≤ (index.toInt - 1).toNat := by
      simp only [Word.largest] at hlength
      omega
    rw [List.take_of_length_le hall, List.drop_of_length_le hall, List.append_nil, units_append]
  next => rfl

theorem delete_of_lt_one (h : index.toInt < 1) : t.delete index count = t := if_pos (.inl h)

theorem insert_of_lt_one (h : index.toInt < 1) : t.insert s index = t := if_pos h

/-! ## Cut and paste -/

theorem delete_insert_copy (t : Text) (index count : Int32) :
    (t.delete index count).insert (t.copy index count) index = t := by
  by_cases hindex : index.toInt < 1
  · rw [delete_of_lt_one hindex, insert_of_lt_one hindex]
  · have hpositive : 1 ≤ index.toInt := by omega
    apply ext_units
    rw [units_insert hpositive, units_delete hpositive, units_copy hpositive]
    generalize (index.toInt - 1).toNat = before
    generalize t.selected index count = n
    have hshort : (t.units.take before).length < before → t.units.drop (before + n) = [] := by
      intro hlt
      rw [List.length_take] at hlt
      exact List.drop_of_length_le (by omega)
    have hfront : (t.units.take before ++ t.units.drop (before + n)).take before = t.units.take before := by
      rcases Nat.lt_or_ge (t.units.take before).length before with hlt | hle
      · rw [hshort hlt, List.append_nil, List.take_take, Nat.min_self]
      · rw [List.take_append_of_le_length hle, List.take_take, Nat.min_self]
    have hback : (t.units.take before ++ t.units.drop (before + n)).drop before = t.units.drop (before + n) := by
      rcases Nat.lt_or_ge (t.units.take before).length before with hlt | hle
      · rw [hshort hlt, List.append_nil, List.drop_of_length_le (Nat.le_of_lt hlt)]
      · rw [List.drop_append_of_le_length hle, List.drop_of_length_le (List.length_take_le ..), List.nil_append]
    rw [hfront, hback, List.append_assoc, ← List.drop_drop, List.take_append_drop, List.take_append_drop]

/-- The index of the first unit of what is inserted, which is at most one behind the text. -/
def insertionPlace (t : Text) (index : Int32) : Int32 := .ofInt (min index.toInt (t.length.toInt + 1))

section Insertion

variable (t s) (h : 1 ≤ index.toInt)

include h

theorem toInt_insertionPlace : (t.insertionPlace index).toInt = min index.toInt (t.length.toInt + 1) := by
  have hindex := index.toInt_lt
  have hlength := toInt_length t
  exact Int32.toInt_ofInt_of_le (by omega) (by omega)

theorem one_le_insertionPlace : 1 ≤ (t.insertionPlace index).toInt := by
  have hlength := toInt_length t
  rw [toInt_insertionPlace t h]
  omega

/-- An insertion begins within the text or right behind it. -/
theorem length_take_insertionPlace :
    (t.units.take ((t.insertionPlace index).toInt - 1).toNat).length = ((t.insertionPlace index).toInt - 1).toNat := by
  have hlength := toInt_length t
  rw [List.length_take, toInt_insertionPlace t h]
  omega

theorem units_insert_place : (t.insert s index).units =
    t.units.take ((t.insertionPlace index).toInt - 1).toNat ++ (s.units ++
      t.units.drop ((t.insertionPlace index).toInt - 1).toNat) := by
  have hlength := toInt_length t
  have hindex := index.toInt_lt
  simp only [Word.largest] at hlength
  rw [units_insert h, toInt_insertionPlace t h, List.append_assoc]
  rcases Nat.lt_or_ge t.units.length (index.toInt - 1).toNat with hlt | hle
  · have hend : (min index.toInt (t.length.toInt + 1) - 1).toNat = t.units.length := by omega
    rw [hend, List.take_of_length_le (Nat.le_of_lt hlt), List.drop_of_length_le (Nat.le_of_lt hlt), List.take_length,
      List.drop_length]
  · have hsame : (min index.toInt (t.length.toInt + 1) - 1).toNat = (index.toInt - 1).toNat := by omega
    rw [hsame]

variable (hfits : t.units.length + s.units.length ≤ Word.largest)

include hfits

/-- Where all units together can be counted by a word, what was inserted is selected as a whole. -/
theorem selected_insertion :
    (t.insert s index).selected (t.insertionPlace index) s.length = s.units.length := by
  have hunits := congrArg List.length (units_insert_place t s h)
  have hplace := length_take_insertionPlace t h
  have hone := one_le_insertionPlace t h
  have ht := toInt_length t
  have hs := toInt_length s
  have hboth := toInt_length (t.insert s index)
  simp only [List.length_append, List.length_take, List.length_drop] at hunits hplace
  simp only [Word.largest] at *
  rw [selected]
  omega

theorem copy_insertion : (t.insert s index).copy (t.insertionPlace index) s.length = s := by
  apply ext_units
  rw [units_copy (one_le_insertionPlace t h), selected_insertion t s h hfits, units_insert_place t s h,
    List.drop_left' (length_take_insertionPlace t h), List.take_left]

theorem delete_insertion : (t.insert s index).delete (t.insertionPlace index) s.length = t := by
  apply ext_units
  rw [units_delete (one_le_insertionPlace t h), selected_insertion t s h hfits, units_insert_place t s h,
    List.take_left' (length_take_insertionPlace t h), ← List.drop_drop,
    List.drop_left' (length_take_insertionPlace t h), List.drop_left, List.take_append_drop]

end Insertion

/--
**Cut and paste.** Whatever the index and the count are, a deleted part can be put back where it was. An insertion
leaves the units in front of its place and behind it in order, and there it can be copied and deleted as a whole.
-/
theorem cut_paste :
    (∀ (t : Text) (index count : Int32), (t.delete index count).insert (t.copy index count) index = t) ∧
    ∀ (t s : Text) (index : Int32), t.units.length + s.units.length ≤ Word.largest → 1 ≤ index.toInt →
      (t.insertionPlace index).toInt = min index.toInt (t.length.toInt + 1) ∧
      (t.insert s index).copy (t.insertionPlace index) s.length = s ∧
      (t.insert s index).delete (t.insertionPlace index) s.length = t ∧
      (t.insert s index).units = t.units.take ((t.insertionPlace index).toInt - 1).toNat ++ (s.units ++
        t.units.drop ((t.insertionPlace index).toInt - 1).toNat) :=
  ⟨delete_insert_copy, fun t s _ hfits h => ⟨toInt_insertionPlace t h, copy_insertion t s h hfits,
    delete_insertion t s h hfits, units_insert_place t s h⟩⟩

/-- Far past the end a text is appended, and its place is right behind the end. -/
theorem cut_paste_appended :
    [(0x61 : UInt16)].length + [(0x62 : UInt16), 0x63].length ≤ Word.largest ∧
    1 ≤ Int32.maxValue.toInt ∧ ((⟨[0x61]⟩ : Text).insertionPlace Int32.maxValue).toInt = 2 ∧
    ((⟨[0x61]⟩ : Text).insert ⟨[0x62, 0x63]⟩ Int32.maxValue).copy 2 2 = ⟨[0x62, 0x63]⟩ := by
  have hfits : [(0x61 : UInt16)].length + [(0x62 : UInt16), 0x63].length ≤ Word.largest := by decide
  obtain ⟨hplace, hcopy, -, -⟩ := cut_paste.2 ⟨[0x61]⟩ ⟨[0x62, 0x63]⟩ Int32.maxValue hfits (by decide)
  exact ⟨hfits, by decide, hplace, hcopy⟩

end ManagedRuntime.Text
