import ManagedRuntime.Proofs.Program.RaisingForms
import ManagedRuntime.Proofs.Text.Editing
import ManagedRuntime.SharedArray.Checked
import ManagedRuntime.SharedArray.Element
import ManagedRuntime.Text.Checked

/-!
# No index is out of bounds

* `slotChecked_eq` : the place of an index, computed by checked steps, is the one that the operations use;
* `copyChecked_eq`, `deleteChecked_eq`, `insertChecked_eq` : editing by index is never stuck;
* `getChecked_eq`, `setChecked_eq`, `copyRangeChecked_eq` : nor are reading, writing and copying in an array;
* `checked_steps` : whatever the lengths and the arguments are, checked steps give what the operations give, and which
  units and elements these select.
-/

namespace ManagedRuntime

set_option autoImplicit false

open Checked

/-! ## Words -/

theorem Word.toInt_min (a b : Int32) : (min a b).toInt = min a.toInt b.toInt := by
  show (if a ≤ b then a else b).toInt = _
  split <;> rename_i h <;> rw [Int32.le_iff_toInt_le] at h <;> omega

theorem Word.toInt_max (a b : Int32) : (max a b).toInt = max a.toInt b.toInt := by
  show (if a ≤ b then b else a).toInt = _
  split <;> rename_i h <;> rw [Int32.le_iff_toInt_le] at h <;> omega

theorem Word.saturate_eq (n : Nat) : (toWord? n).getD Int32.maxValue = Word.saturate n := by
  unfold toWord?
  split
  next h => rw [Option.getD_some, saturate, Nat.min_eq_left h]
  next h =>
    rw [saturate, Nat.min_eq_right (Nat.le_of_not_le h)]
    rfl

theorem Checked.sub_one_ok {index : Int32} (h : 1 ≤ index.toInt) :
    ∃ w, sub index 1 = .ok w ∧ toSize w = .ok (index.toInt - 1).toNat := by
  have hlt := index.toInt_lt
  have hone : (1 : Int32).toInt = 1 := rfl
  obtain ⟨w, hsub, hw⟩ := word_ok (i := index.toInt - (1 : Int32).toInt) (by omega) (by omega)
  exact ⟨w, hsub, by rw [toSize_ok (by omega), hw, hone]⟩

namespace Text

variable {t : Text} {index count : Int32} {bits : Nat}

/-! ## One unit -/

theorem lengthChecked_eq (t : Text) : t.lengthChecked = t.length := Word.saturate_eq _

theorem lt_of_slot_eq {i : Nat} (h : t.slot index = .ok i) : i < t.units.length := by
  have hlength := toInt_length t
  unfold slot at h
  split at h
  · cases h
    omega
  · cases h

theorem slotChecked_eq (t : Text) (index : Int32) : t.slotChecked index = .ok (t.slot index) := by
  have hone : (1 : Int32).toInt = 1 := rfl
  unfold slotChecked slot
  rw [lengthChecked_eq]
  split
  next h =>
    rw [Int32.lt_iff_toInt_lt, Int32.lt_iff_toInt_lt] at h
    rw [if_neg (by omega)]
  next h =>
    rw [Int32.lt_iff_toInt_lt, Int32.lt_iff_toInt_lt] at h
    have hfirst : 1 ≤ index.toInt := by omega
    obtain ⟨w, hsub, hsize⟩ := sub_one_ok hfirst
    rw [if_pos (by omega), hsub, ok_bind, hsize]
    rfl

theorem charAtChecked_eq (t : Text) (index : Int32) : t.charAtChecked index = .ok (t.charAt index) := by
  unfold charAtChecked charAt
  rw [slotChecked_eq, ok_bind]
  cases h : t.slot index with
  | error f => rfl
  | ok i =>
    have hitem : item t.units i = .ok (t.units.getD i 0) :=
      item_ok (by rw [List.getD_eq_getElem _ _ (lt_of_slot_eq h), List.getElem?_eq_getElem (lt_of_slot_eq h)])
    show (item t.units i >>= _) = _
    rw [hitem]
    rfl

theorem setCharChecked_eq (t : Text) (index : Int32) (u : UInt16) :
    t.setCharChecked index u = .ok (t.setChar index u) := by
  unfold setCharChecked setChar
  rw [slotChecked_eq, ok_bind]
  cases h : t.slot index with
  | error f => rfl
  | ok i =>
    show (place t.units i >>= _) = _
    rw [place_ok (lt_of_slot_eq h)]
    rfl

/-! ## Editing by index -/

/-- An index within the text leaves a number of units behind it that is a word. -/
theorem available_ok (count : Int32) (h : 1 ≤ index.toInt) (hle : index.toInt ≤ t.length.toInt) : ∃ d available,
    sub t.length index = .ok d ∧ add d 1 = .ok available ∧
      (min count available).toInt = min count.toInt (t.length.toInt - index.toInt + 1) := by
  have hlt := t.length.toInt_lt
  have hone : (1 : Int32).toInt = 1 := rfl
  obtain ⟨d, hsub, hd⟩ := word_ok (i := t.length.toInt - index.toInt) (by omega) (by omega)
  obtain ⟨available, hadd, havailable⟩ := word_ok (i := d.toInt + (1 : Int32).toInt) (by omega) (by omega)
  exact ⟨d, available, hsub, hadd, by rw [Word.toInt_min, havailable, hd, hone]⟩

theorem selected_le (h : 1 ≤ index.toInt) (hle : index.toInt ≤ t.length.toInt) :
    (index.toInt - 1).toNat + t.selected index count ≤ t.units.length := by
  have hlength := toInt_length t
  rw [selected]
  omega

/-- The end of what is selected is still a word, so it is a size. -/
theorem addSizes_selected (hbits : 32 ≤ bits) (h : 1 ≤ index.toInt) (hle : index.toInt ≤ t.length.toInt) :
    addSizes bits (index.toInt - 1).toNat (t.selected index count) =
      .ok ((index.toInt - 1).toNat + t.selected index count) := by
  have hlt := t.length.toInt_lt
  have hsize : Nat.pow 2 32 ≤ Nat.pow 2 bits := Nat.pow_le_pow_right (by decide) hbits
  have hfits : (index.toInt - 1).toNat + t.selected index count < Nat.pow 2 32 := by
    rw [selected]
    show _ < 4294967296
    omega
  exact addSizes_ok (Nat.lt_of_lt_of_le hfits hsize)

theorem selected_eq_zero (h : t.length.toInt < index.toInt ∨ count.toInt ≤ 0) : t.selected index count = 0 := by
  rw [selected]
  omega

/-- Every start below 1 stands for 1. -/
theorem copy_max (t : Text) (start count : Int32) : t.copy start count = t.copy (max start 1) count := by
  have hmax : max (max start 1).toInt 1 = max start.toInt 1 := by
    rw [Word.toInt_max]
    exact Int.max_eq_left (Int.le_max_right _ _)
  rw [copy, copy, hmax]

theorem copyChecked_eq (hbits : 32 ≤ bits) (t : Text) (start count : Int32) :
    t.copyChecked bits start count = .ok (t.copy start count) := by
  unfold copyChecked
  rw [lengthChecked_eq, copy_max]
  have h : 1 ≤ (max start 1).toInt := by
    rw [Word.toInt_max]
    exact Int.le_max_right _ _
  generalize max start 1 = start at h ⊢
  have hnone : t.selected start count = 0 → empty = t.copy start count := by
    intro hzero
    apply ext_units
    rw [units_copy h, hzero, List.take_zero]
    rfl
  dsimp only
  split
  next hlt =>
    rw [Int32.lt_iff_toInt_lt] at hlt
    exact congrArg _ (hnone (selected_eq_zero (.inl hlt)))
  next hle =>
    rw [Int32.lt_iff_toInt_lt, Int.not_lt] at hle
    obtain ⟨d, available, hsub, hadd, hcount⟩ := available_ok count h hle
    obtain ⟨w, hfirst, hsize⟩ := sub_one_ok h
    rw [hsub, ok_bind, hadd, ok_bind]
    split
    next hzero =>
      have hz : (min count available).toInt ≤ 0 := Int32.le_iff_toInt_le.1 hzero
      exact congrArg _ (hnone (by rw [selected]; omega))
    next hpos =>
      have hp : ¬ (min count available).toInt ≤ 0 := fun hz => hpos (Int32.le_iff_toInt_le.2 hz)
      have hselected : (min count available).toInt.toNat = t.selected start count := by rw [hcount, selected]
      rw [hfirst, ok_bind, hsize, ok_bind, toSize_ok (by omega), ok_bind, hselected, addSizes_selected hbits h hle,
        ok_bind, slice_ok (Nat.le_add_right _ _) (selected_le h hle), ok_bind, Nat.add_sub_cancel_left, ← units_copy h]
      rfl

theorem deleteChecked_eq (hbits : 32 ≤ bits) (t : Text) (index count : Int32) :
    t.deleteChecked bits index count = .ok (t.delete index count) := by
  have hone : (1 : Int32).toInt = 1 := rfl
  have hzero : (0 : Int32).toInt = 0 := rfl
  unfold deleteChecked
  rw [lengthChecked_eq]
  dsimp only
  split
  next hnone =>
    rw [Int32.lt_iff_toInt_lt, Int32.le_iff_toInt_le] at hnone
    rw [delete, if_pos (by omega)]
  next hsome =>
    rw [Int32.lt_iff_toInt_lt, Int32.le_iff_toInt_le] at hsome
    have h : 1 ≤ index.toInt := by omega
    split
    next hlt =>
      rw [Int32.lt_iff_toInt_lt] at hlt
      rw [delete, if_pos (by omega)]
    next hle =>
      rw [Int32.lt_iff_toInt_lt, Int.not_lt] at hle
      obtain ⟨d, available, hsub, hadd, hcount⟩ := available_ok count h hle
      obtain ⟨w, hfirst, hsize⟩ := sub_one_ok h
      have hselected : (min count available).toInt.toNat = t.selected index count := by rw [hcount, selected]
      rw [hsub, ok_bind, hadd, ok_bind, hfirst, ok_bind, hsize, ok_bind, toSize_ok (by omega), ok_bind, hselected,
        addSizes_selected hbits h hle, ok_bind, splice_ok (Nat.le_add_right _ _) (selected_le h hle), ok_bind,
        List.append_nil, ← units_delete h]
      rfl

theorem insertChecked_eq (t source : Text) (index : Int32) :
    t.insertChecked source index = .ok (t.insert source index) := by
  have hone : (1 : Int32).toInt = 1 := rfl
  have hlength := toInt_length t
  unfold insertChecked
  rw [lengthChecked_eq]
  split
  next hlt =>
    rw [Int32.lt_iff_toInt_lt, hone] at hlt
    rw [insert_of_lt_one hlt]
  next h =>
    rw [Int32.lt_iff_toInt_lt, hone] at h
    rw [insert, if_neg h]
    split
    next hlt =>
      rw [Int32.lt_iff_toInt_lt] at hlt
      rw [if_pos hlt]
      rfl
    next hle =>
      rw [Int32.lt_iff_toInt_lt] at hle
      have hmin : 1 ≤ index.toInt := by omega
      obtain ⟨w, hfirst, hsize⟩ := sub_one_ok hmin
      rw [if_neg hle, hfirst, ok_bind, hsize, ok_bind, splice_ok (Nat.le_refl _) (by omega)]
      rfl

theorem ofBufferChecked_eq (buffer : List UInt16) (count : Int32) :
    ofBufferChecked buffer count = .ok (ofBuffer buffer count) := by
  have hsize : (toSize? count).getD 0 = Word.toSize count := by
    unfold toSize?
    split
    next => rfl
    next h =>
      rw [Word.toSize, Option.getD_none]
      omega
  rw [ofBufferChecked, hsize, slice_ok (Nat.zero_le _) (Nat.min_le_right _ _), ok_bind, List.drop_zero, Nat.sub_zero,
    ← List.take_eq_take_min]
  rfl

end Text

namespace SharedArray.Pool

variable {α σ ι : Type} {p : Pool α σ} {r : Ref α} {bits : Nat}

/-! ## Arrays -/

theorem slotChecked_eq (p : Pool α σ) (r : Ref α) (index : Int32) : p.slotChecked r index = p.slot r index := by
  unfold slotChecked slot
  rw [lengthChecked, Word.saturate_eq, ← length]
  rcases Int.lt_or_le index.toInt 0 with h | h
  · rw [toSize?_eq_none h, if_neg (by omega)]
  · rw [toSize?_eq_some h]
    dsimp only
    split
    next hlt => rw [if_pos (by omega)]
    next hle => rw [if_neg (by omega)]

theorem getChecked_eq (p : Pool α σ) (r : Ref α) (index : Int32) : p.getChecked r index = .ok (p.get r index) := by
  unfold getChecked
  rw [slotChecked_eq]
  cases h : p.slot r index with
  | error f =>
    rw [get, h]
    rfl
  | ok i =>
    obtain ⟨a, hitem, hget⟩ := get_of_slot h
    rw [hget]
    show (item (p.items r) i >>= _) = _
    rw [item_ok hitem]
    rfl

theorem setChecked_eq [Element α σ ι] (p : Pool α σ) (r : Ref α) (index : Int32) (literal : ι) :
    p.setChecked r index literal = .ok (p.set r index literal) := by
  unfold setChecked
  rw [slotChecked_eq]
  cases h : p.slot r index with
  | error f =>
    rw [set, h]
    rfl
  | ok i =>
    have hplace : i < ((p.exclusive r).2.items (p.exclusive r).1).length := by
      rw [items_exclusive]
      exact lt_of_slot_eq h
    rw [set_of_slot h]
    show (place ((p.exclusive r).2.items (p.exclusive r).1) i >>= _) = _
    rw [place_ok hplace]
    rfl

section Range

variable {items : List α} {first count : Int32}

theorem range_of_negative (h : first.toInt < 0 ∨ count.toInt < 0) : range items first count = [] :=
  if_pos (by rwa [Int32.lt_iff_toInt_lt, Int32.lt_iff_toInt_lt])

theorem range_of_nonneg (hfirst : 0 ≤ first.toInt) (hcount : 0 ≤ count.toInt) :
    range items first count = (items.drop first.toInt.toNat).take count.toInt.toNat := by
  have hzero : (0 : Int32).toInt = 0 := rfl
  refine if_neg fun h => ?_
  rw [Int32.lt_iff_toInt_lt, Int32.lt_iff_toInt_lt] at h
  omega

/-- The elements from `first` on up to `first + count`, as far as there are so many. -/
theorem range_eq (items : List α) (first count : Int32) : range items first count =
    if first.toInt < 0 ∨ count.toInt < 0 ∨ items.length ≤ first.toInt then []
    else (items.take (min (first.toInt + count.toInt) items.length).toNat).drop first.toInt.toNat := by
  by_cases hnegative : first.toInt < 0 ∨ count.toInt < 0
  · rw [range_of_negative hnegative, if_pos (by omega)]
  · rw [range_of_nonneg (by omega) (by omega)]
    split
    next hnone => rw [List.drop_of_length_le (by omega), List.take_nil]
    next hsome =>
      have hend : (min (first.toInt + count.toInt) items.length).toNat =
          min (first.toInt.toNat + count.toInt.toNat) items.length := by omega
      rw [hend, ← List.take_eq_take_min, List.drop_take, Nat.add_sub_cancel_left]

end Range

section Copies

variable [Element α σ ι] (p : Pool α σ) (r : Ref α) (first count : Int32)

theorem items_copyRange :
    (p.copyRange r first count).2.items (p.copyRange r first count).1 = range (p.items r) first count := by
  rw [copyRange, ofCopies, items, read_alloc_self]

theorem copyRange_of_range_eq_nil (h : range (p.items r) first count = []) :
    p.copyRange r first count = p.alloc [] := by
  rw [copyRange, h]
  rfl

/-- Two words that are not negative are together a size, so the end of the range is one. -/
theorem copyRangeChecked_eq (hbits : 32 ≤ bits) :
    p.copyRangeChecked bits r first count = .ok (p.copyRange r first count) := by
  unfold copyRangeChecked
  by_cases hnegative : first.toInt < 0 ∨ count.toInt < 0
  · rw [copyRange_of_range_eq_nil p r first count (range_of_negative hnegative)]
    rcases hnegative with h | h <;> rw [toSize?_eq_none h]
    cases toSize? first <;> rfl
  · have hfirst : 0 ≤ first.toInt := by omega
    have hcount : 0 ≤ count.toInt := by omega
    have hrange : range (p.items r) first count = ((p.items r).drop first.toInt.toNat).take count.toInt.toNat :=
      range_of_nonneg hfirst hcount
    rw [toSize?_eq_some hfirst, toSize?_eq_some hcount]
    dsimp only
    split
    next hle =>
      rw [copyRange_of_range_eq_nil]
      rw [hrange, List.drop_of_length_le hle, List.take_nil]
    next hlt =>
      have hsize : Nat.pow 2 32 ≤ Nat.pow 2 bits := Nat.pow_le_pow_right (by decide) hbits
      have hfits :
          first.toInt.toNat + min count.toInt.toNat ((p.items r).length - first.toInt.toNat) < Nat.pow 2 32 := by
        have hfirst := first.toInt_lt
        have hcount := count.toInt_lt
        show _ < 4294967296
        omega
      rw [subSizes_ok (by omega), ok_bind, addSizes_ok (Nat.lt_of_lt_of_le hfits hsize), ok_bind,
        slice_ok (Nat.le_add_right _ _) (by omega), ok_bind, Nat.add_sub_cancel_left, ← List.length_drop,
        ← List.take_eq_take_min, ← hrange]
      rfl

end Copies

end SharedArray.Pool

/-! ## All operations -/

/--
**Checked steps.** With sizes of at least 32 bits, and for texts and arrays of any length, no operation that takes an
index or a count is stuck. From the index 1 on `copy` and `delete` select the same units, and `copyRange` selects the
elements at `first … first + count`, as far as there are so many.
-/
theorem checked_steps {α σ ι : Type} [SharedArray.Element α σ ι] (bits : Nat) (hbits : 32 ≤ bits) :
    (∀ (t : Text) (start count : Int32), t.copyChecked bits start count = .ok (t.copy start count)) ∧
    (∀ (t : Text) (index count : Int32), t.deleteChecked bits index count = .ok (t.delete index count)) ∧
    (∀ (t source : Text) (index : Int32), t.insertChecked source index = .ok (t.insert source index)) ∧
    (∀ (t : Text) (index : Int32), t.charAtChecked index = .ok (t.charAt index)) ∧
    (∀ (t : Text) (index : Int32) (u : UInt16), t.setCharChecked index u = .ok (t.setChar index u)) ∧
    (∀ (buffer : List UInt16) (count : Int32), Text.ofBufferChecked buffer count = .ok (.ofBuffer buffer count)) ∧
    (∀ (p : SharedArray.Pool α σ) (r : SharedArray.Ref α) (index : Int32),
      p.getChecked r index = .ok (p.get r index)) ∧
    (∀ (p : SharedArray.Pool α σ) (r : SharedArray.Ref α) (index : Int32) (literal : ι),
      p.setChecked r index literal = .ok (p.set r index literal)) ∧
    (∀ (p : SharedArray.Pool α σ) (r : SharedArray.Ref α) (first count : Int32),
      p.copyRangeChecked bits r first count = .ok (p.copyRange r first count)) ∧
    (∀ (t : Text) (index count : Int32), 1 ≤ index.toInt → ∃ n : Nat,
      n = (min count.toInt (t.length.toInt - index.toInt + 1)).toNat ∧
      (t.copy index count).units = (t.units.drop (index.toInt - 1).toNat).take n ∧
      (t.delete index count).units = t.units.take (index.toInt - 1).toNat ++
        t.units.drop ((index.toInt - 1).toNat + n)) ∧
    (∀ (p : SharedArray.Pool α σ) (r : SharedArray.Ref α) (first count : Int32),
      (p.copyRange r first count).2.items (p.copyRange r first count).1 =
        if first.toInt < 0 ∨ count.toInt < 0 ∨ (p.items r).length ≤ first.toInt then []
        else ((p.items r).take (min (first.toInt + count.toInt) (p.items r).length).toNat).drop first.toInt.toNat) := by
  refine ⟨Text.copyChecked_eq hbits, Text.deleteChecked_eq hbits, Text.insertChecked_eq, Text.charAtChecked_eq,
    Text.setCharChecked_eq, Text.ofBufferChecked_eq, SharedArray.Pool.getChecked_eq, SharedArray.Pool.setChecked_eq,
    fun p r first count => SharedArray.Pool.copyRangeChecked_eq p r first count hbits, fun t index count h => ?_,
    fun p r first count => ?_⟩
  · exact ⟨t.selected index count, rfl, Text.units_copy h, Text.units_delete h⟩
  · rw [SharedArray.Pool.items_copyRange, SharedArray.Pool.range_eq]

/-- A text of one unit more than words count: at the last index one unit is selected, and the one behind it is not. -/
theorem checked_steps_longText : 32 ≤ 64 ∧ 1 ≤ Int32.maxValue.toInt ∧
    (⟨List.replicate 2147483648 0x61⟩ : Text).copyChecked 64 Int32.maxValue Int32.maxValue = .ok ⟨[0x61]⟩ := by
  obtain ⟨hcopy, -, -, -, -, -, -, -, -, hselects, -⟩ := checked_steps (α := Int32) 64 (by decide)
  obtain ⟨n, hn, hunits, -⟩ := hselects ⟨List.replicate 2147483648 0x61⟩ Int32.maxValue Int32.maxValue (by decide)
  have hmax : Int32.maxValue.toInt = 2147483647 := by decide
  have hone : n = 1 := by
    rw [hn, Text.toInt_length, List.length_replicate, hmax]
    decide
  rw [hone, hmax, List.drop_replicate, List.take_replicate] at hunits
  exact ⟨by decide, by decide, (hcopy _ _ _).trans (congrArg _ (Text.ext_units hunits))⟩

end ManagedRuntime
