import Mathlib.Data.List.Basic
import ManagedRuntime.Utf16

/-!
# Code units and characters

* `encodeChar_cases` : a character is one unit that is no surrogate, or a surrogate pair;
* `decode_encode` : every list of characters is what its units decode to;
* `Unpaired` : a surrogate that neither begins nor ends a pair, by its neighbours alone;
* `encode_decode` : what decoding and encoding leave of a list of units are all but the unpaired surrogates.
-/

namespace ManagedRuntime.Utf16

set_option autoImplicit false

/-! ## Surrogates -/

theorem isHigh_iff (u : UInt16) : isHigh u = true ↔ 0xD800 ≤ u.toNat ∧ u.toNat ≤ 0xDBFF := by
  simp [isHigh, UInt16.le_iff_toNat_le]

theorem isLow_iff (u : UInt16) : isLow u = true ↔ 0xDC00 ≤ u.toNat ∧ u.toNat ≤ 0xDFFF := by
  simp [isLow, UInt16.le_iff_toNat_le]

theorem isSurrogate_eq_false (u : UInt16) : isSurrogate u = false ↔ u.toNat < 0xD800 ∨ 0xDFFF < u.toNat := by
  rw [isSurrogate, Bool.or_eq_false_iff, ← Bool.not_eq_true, ← Bool.not_eq_true, isHigh_iff, isLow_iff]
  omega

theorem isHigh_of_isLow {u : UInt16} (h : isLow u = true) : isHigh u = false := by
  rw [isLow_iff] at h
  rw [← Bool.not_eq_true, isHigh_iff]
  omega

/-! ## Characters -/

theorem toNat_ofNat_of_valid {n : Nat} (h : n < 0xD800 ∨ 0xDFFF < n ∧ n < 0x110000) : (Char.ofNat n).toNat = n := by
  have hv : n.isValidChar := h
  rw [Char.ofNat, dif_pos hv]
  rfl

theorem toNat_valid (c : Char) : c.toNat < 0xD800 ∨ 0xDFFF < c.toNat ∧ c.toNat < 0x110000 := c.valid

theorem encodeChar_single {u : UInt16} (h : isSurrogate u = false) : encodeChar (single u) = [u] := by
  have hlt := u.toNat_lt
  rw [isSurrogate_eq_false] at h
  have hn : (single u).toNat = u.toNat := toNat_ofNat_of_valid (by omega)
  rw [encodeChar, hn, if_pos (by omega)]
  simp

theorem encodeChar_pair {high low : UInt16} (hh : isHigh high = true) (hl : isLow low = true) :
    encodeChar (pair high low) = [high, low] := by
  rw [isHigh_iff] at hh
  rw [isLow_iff] at hl
  have hn : (pair high low).toNat = 0x10000 + (high.toNat - 0xD800) * 0x400 + (low.toNat - 0xDC00) :=
    toNat_ofNat_of_valid (by omega)
  have hhigh : 0xD800 + ((pair high low).toNat - 0x10000) / 0x400 = high.toNat := by omega
  have hlow : 0xDC00 + ((pair high low).toNat - 0x10000) % 0x400 = low.toNat := by omega
  rw [encodeChar, if_neg (by omega), hhigh, hlow]
  simp

/-- A character is one unit that is no surrogate, or a surrogate pair. -/
theorem encodeChar_cases (c : Char) :
    (∃ u, isSurrogate u = false ∧ single u = c ∧ encodeChar c = [u]) ∨
      ∃ high low, isHigh high = true ∧ isLow low = true ∧ pair high low = c ∧ encodeChar c = [high, low] := by
  have hvalid := toNat_valid c
  unfold encodeChar
  split
  · refine .inl ⟨_, ?_, ?_, rfl⟩
    · rw [isSurrogate_eq_false, Nat.toUInt16_eq, UInt16.toNat_ofNat']
      omega
    · rw [single, Nat.toUInt16_eq, UInt16.toNat_ofNat', Nat.mod_eq_of_lt (by omega)]
      exact Char.ofNat_toNat c
  · refine .inr ⟨_, _, ?_, ?_, ?_, rfl⟩
    · rw [isHigh_iff, Nat.toUInt16_eq, UInt16.toNat_ofNat']
      omega
    · rw [isLow_iff, Nat.toUInt16_eq, UInt16.toNat_ofNat']
      omega
    · have hn : 0x10000 + (0xD800 + (c.toNat - 0x10000) / 0x400 - 0xD800) * 0x400 +
          (0xDC00 + (c.toNat - 0x10000) % 0x400 - 0xDC00) = c.toNat := by omega
      rw [pair, Nat.toUInt16_eq, Nat.toUInt16_eq, UInt16.toNat_ofNat', UInt16.toNat_ofNat',
        Nat.mod_eq_of_lt (by omega), Nat.mod_eq_of_lt (by omega), hn]
      exact Char.ofNat_toNat c

/-! ## Decoding -/

theorem decode_single {u : UInt16} (h : isSurrogate u = false) (rest : List UInt16) :
    decode (u :: rest) = single u :: decode rest := by
  have hhigh : isHigh u = false := (Bool.or_eq_false_iff.1 h).1
  cases rest with
  | nil => simp [decode, h]
  | cons v rest => simp [decode, h, hhigh]

theorem decode_pair {high low : UInt16} (hh : isHigh high = true) (hl : isLow low = true) (rest : List UInt16) :
    decode (high :: low :: rest) = pair high low :: decode rest := by
  simp [decode, hh, hl]

/-- **Every list of characters is what its units decode to.** -/
theorem decode_encode (cs : List Char) : decode (encode cs) = cs := by
  induction cs with
  | nil => simp [decode]
  | cons c cs ih =>
    rw [encode_cons]
    rcases encodeChar_cases c with ⟨u, hu, hc, he⟩ | ⟨high, low, hh, hl, hc, he⟩
    · rw [he, List.singleton_append, decode_single hu, ih, hc]
    · rw [he, List.cons_append, List.singleton_append, decode_pair hh hl, ih, hc]

/-! ## Unpaired surrogates -/

/-- A high surrogate stands at `i`, and a low one right after it. -/
def PairAt (us : List UInt16) (i : Nat) : Prop := us[i]?.any isHigh = true ∧ us[i + 1]?.any isLow = true

instance (us : List UInt16) (i : Nat) : Decidable (PairAt us i) := inferInstanceAs (Decidable (_ ∧ _))

/-- A surrogate stands at `i`, and it neither begins nor ends a pair. -/
def Unpaired (us : List UInt16) (i : Nat) : Prop :=
  us[i]?.any isSurrogate = true ∧ ¬ PairAt us i ∧ ¬ (0 < i ∧ PairAt us (i - 1))

instance (us : List UInt16) (i : Nat) : Decidable (Unpaired us i) := inferInstanceAs (Decidable (_ ∧ _))

/-- Units without an unpaired surrogate among them. -/
def WellFormed (us : List UInt16) : Prop := ∀ i, ¬ Unpaired us i

/-- The units at all places but those of the unpaired surrogates. -/
def withoutUnpaired (us : List UInt16) : List UInt16 :=
  (List.range us.length).filterMap fun i => if Unpaired us i then none else us[i]?

section Places

variable {u : UInt16} {us : List UInt16}

theorem pairAt_succ (i : Nat) : PairAt (u :: us) (i + 1) ↔ PairAt us i := by
  simp only [PairAt, List.getElem?_cons_succ]

/-- Whether a surrogate is paired does not depend on a unit before it that begins no pair. -/
theorem unpaired_succ (h : ¬ PairAt (u :: us) 0) (i : Nat) : Unpaired (u :: us) (i + 1) ↔ Unpaired us i := by
  simp only [Unpaired, List.getElem?_cons_succ, pairAt_succ, Nat.add_sub_cancel, Nat.succ_pos, true_and]
  cases i with
  | zero => simp [h]
  | succ i => simp [pairAt_succ]

theorem unpaired_zero : Unpaired (u :: us) 0 ↔ isSurrogate u = true ∧ ¬ PairAt (u :: us) 0 := by
  simp [Unpaired]

theorem withoutUnpaired_cons : withoutUnpaired (u :: us) = (if Unpaired (u :: us) 0 then [] else [u]) ++
    (List.range us.length).filterMap fun i => if Unpaired (u :: us) (i + 1) then none else us[i]? := by
  rw [withoutUnpaired, List.length_cons, List.range_succ_eq_map, List.filterMap_cons, List.filterMap_map]
  split <;> rename_i h
  · rw [if_pos (by simpa using h)]
    rfl
  · rename_i v
    have hnot : ¬ Unpaired (u :: us) 0 := fun hu => by simp [hu] at h
    rw [if_neg hnot] at h ⊢
    cases h
    rfl

theorem withoutUnpaired_cons_of_not_pairAt (h : ¬ PairAt (u :: us) 0) :
    withoutUnpaired (u :: us) = (if isSurrogate u then [] else [u]) ++ withoutUnpaired us := by
  rw [withoutUnpaired_cons, withoutUnpaired]
  simp only [unpaired_zero, unpaired_succ h, h, not_false_eq_true, and_true]

theorem withoutUnpaired_pair {high low : UInt16} (hh : isHigh high = true) (hl : isLow low = true) :
    withoutUnpaired (high :: low :: us) = high :: low :: withoutUnpaired us := by
  have hpair : PairAt (high :: low :: us) 0 := ⟨by simpa using hh, by simpa using hl⟩
  have hlow : ¬ PairAt (low :: us) 0 := fun h => by simp [PairAt, isHigh_of_isLow hl] at h
  have hone : ¬ Unpaired (high :: low :: us) 1 := fun h => h.2.2 ⟨Nat.one_pos, hpair⟩
  have htail : ∀ i, Unpaired (high :: low :: us) (i + 2) ↔ Unpaired us i := by
    intro i
    rw [← unpaired_succ hlow]
    simp only [Unpaired, List.getElem?_cons_succ, pairAt_succ, Nat.succ_pos, true_and, Nat.add_sub_cancel,
      Nat.add_succ_sub_one]
  rw [withoutUnpaired_cons, if_neg fun h => h.2.1 hpair, List.length_cons, List.range_succ_eq_map,
    List.filterMap_cons, List.filterMap_map]
  simp [hone, htail, withoutUnpaired]

end Places

/-- **Decoding and encoding leave all units but the unpaired surrogates.** -/
theorem encode_decode (us : List UInt16) : encode (decode us) = withoutUnpaired us := by
  fun_induction decode us with
  | case1 => rfl
  | case2 u hu =>
    rw [withoutUnpaired_cons_of_not_pairAt (by simp [PairAt]), if_pos hu]
    rfl
  | case3 u hu =>
    have hfalse : isSurrogate u = false := Bool.eq_false_iff.2 hu
    rw [withoutUnpaired_cons_of_not_pairAt (by simp [PairAt]), if_neg hu, encode_cons, encodeChar_single hfalse]
    rfl
  | case4 u v rest hpair ih =>
    rw [Bool.and_eq_true] at hpair
    rw [encode_cons, ih, encodeChar_pair hpair.1 hpair.2, withoutUnpaired_pair hpair.1 hpair.2]
    rfl
  | case5 u v rest hpair hu ih =>
    rw [Bool.and_eq_true] at hpair
    rw [withoutUnpaired_cons_of_not_pairAt (by simpa [PairAt] using hpair), if_pos hu, ih]
    rfl
  | case6 u v rest hpair hu ih =>
    have hfalse : isSurrogate u = false := Bool.eq_false_iff.2 hu
    rw [Bool.and_eq_true] at hpair
    rw [withoutUnpaired_cons_of_not_pairAt (by simpa [PairAt] using hpair), if_neg hu, encode_cons, ih,
      encodeChar_single hfalse]

/-- A letter, a high surrogate in front of a pair, the pair, and a low surrogate after it. -/
example : encode (decode [0x41, 0xD800, 0xD83D, 0xDE00, 0xDC00]) = [0x41, 0xD83D, 0xDE00] := by decide

theorem filterMap_range_getElem? (us : List UInt16) : (List.range us.length).filterMap (fun i => us[i]?) = us := by
  induction us with
  | nil => rfl
  | cons u us ih =>
    rw [List.length_cons, List.range_succ_eq_map, List.filterMap_cons, List.filterMap_map]
    exact congrArg (u :: ·) ih

/-- Nothing is removed exactly where no surrogate is unpaired. -/
theorem withoutUnpaired_eq_iff (us : List UInt16) : withoutUnpaired us = us ↔ WellFormed us := by
  constructor
  · intro h i hi
    have hlen : i < us.length := by
      by_contra hle
      simp [Unpaired, List.getElem?_eq_none (Nat.le_of_not_lt hle)] at hi
    have hall : (withoutUnpaired us).length = (List.range us.length).length := by rw [h, List.length_range]
    have hsome := List.filterMap_length_eq_length.1 hall i (List.mem_range.2 hlen)
    rw [if_pos hi] at hsome
    cases hsome
  · intro h
    have hkeep : (fun i => if Unpaired us i then none else us[i]?) = fun i => us[i]? := funext fun i => if_neg (h i)
    rw [withoutUnpaired, hkeep, filterMap_range_getElem?]

theorem wellFormed_encode (cs : List Char) : WellFormed (encode cs) := by
  rw [← withoutUnpaired_eq_iff, ← encode_decode, decode_encode]

end ManagedRuntime.Utf16
