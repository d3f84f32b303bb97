import ManagedRuntime.Proofs.Encoding.Utf16
import ManagedRuntime.Text.Wide

/-!
# Texts and code points back and forth

* `Utf16.codePointAt` : the code point that begins at a place, by the unit there and the one after it;
* `toCodePoints_eq` : a text has the code points that begin at its places;
* `toCodePoints_ofCodePoints` : every number keeps its place, and one that is no character becomes U+FFFD;
* `codePoints_convert` : what is lost on the way to wide strings and back, in each direction and on every host.
-/

namespace ManagedRuntime

set_option autoImplicit false

namespace Utf16

/-! ## Code points at places -/

/-- The code point that begins at a place: a pair counts as one, and nothing else begins at a surrogate. -/
def codePointAt (us : List UInt16) (i : Nat) : Option UInt32 :=
  us[i]?.bind fun u =>
    if PairAt us i then
      us[i + 1]?.map fun v => (0x10000 + (u.toNat - 0xD800) * 0x400 + (v.toNat - 0xDC00)).toUInt32
    else if isSurrogate u then none
    else some u.toUInt32

/-- The code points that begin at the places of a list of units. -/
def codePoints (us : List UInt16) : List UInt32 := (List.range us.length).filterMap (codePointAt us)

theorem codePointAt_succ (u : UInt16) (us : List UInt16) (i : Nat) :
    codePointAt (u :: us) (i + 1) = codePointAt us i := by
  simp only [codePointAt, List.getElem?_cons_succ, pairAt_succ]

theorem codePoints_cons (u : UInt16) (us : List UInt16) :
    codePoints (u :: us) = (codePointAt (u :: us) 0).toList ++ codePoints us := by
  have htail : codePointAt (u :: us) ∘ Nat.succ = codePointAt us := funext (codePointAt_succ u us)
  rw [codePoints, List.length_cons, List.range_succ_eq_map, List.filterMap_cons, List.filterMap_map, htail]
  cases codePointAt (u :: us) 0 <;> rfl

theorem codePoints_single {u : UInt16} {us : List UInt16} (h : ¬ PairAt (u :: us) 0) :
    codePoints (u :: us) = (if isSurrogate u then [] else [u.toUInt32]) ++ codePoints us := by
  rw [codePoints_cons, codePointAt, List.getElem?_cons_zero, Option.bind_some, if_neg h]
  split <;> rfl

theorem val_single {u : UInt16} (h : isSurrogate u = false) : (single u).val = u.toUInt32 := by
  have hlt := u.toNat_lt
  rw [isSurrogate_eq_false] at h
  have hn : (single u).toNat = u.toNat := toNat_ofNat_of_valid (by omega)
  exact UInt32.toNat_inj.1 hn

theorem val_pair {high low : UInt16} (hh : isHigh high = true) (hl : isLow low = true) :
    (pair high low).val = (0x10000 + (high.toNat - 0xD800) * 0x400 + (low.toNat - 0xDC00)).toUInt32 := by
  rw [isHigh_iff] at hh
  rw [isLow_iff] at hl
  have hn : (pair high low).toNat = 0x10000 + (high.toNat - 0xD800) * 0x400 + (low.toNat - 0xDC00) :=
    toNat_ofNat_of_valid (by omega)
  refine UInt32.toNat_inj.1 (Eq.trans hn ?_)
  rw [Nat.toUInt32_eq, UInt32.toNat_ofNat', Nat.mod_eq_of_lt (by omega)]

/-- At a low surrogate that ends a pair no code point begins. -/
theorem codePoints_pair {high low : UInt16} {us : List UInt16} (hh : isHigh high = true) (hl : isLow low = true) :
    codePoints (high :: low :: us) = (pair high low).val :: codePoints us := by
  have hpair : PairAt (high :: low :: us) 0 := ⟨by simpa using hh, by simpa using hl⟩
  have hlow : ¬ PairAt (low :: us) 0 := fun h => by simp [PairAt, isHigh_of_isLow hl] at h
  have hsurrogate : isSurrogate low = true := by rw [isSurrogate, hl, Bool.or_true]
  rw [codePoints_cons, codePoints_single hlow, if_pos hsurrogate, codePointAt, List.getElem?_cons_zero,
    Option.bind_some, if_pos hpair, val_pair hh hl]
  rfl

/-- **The characters of a list of units are those at its places.** -/
theorem map_val_decode (us : List UInt16) : (decode us).map Char.val = codePoints us := by
  fun_induction decode us with
  | case1 => rfl
  | case2 u hu =>
    rw [codePoints_single (by simp [PairAt]), if_pos hu]
    rfl
  | case3 u hu =>
    rw [codePoints_single (by simp [PairAt]), if_neg hu, List.map_cons, val_single (Bool.eq_false_iff.2 hu)]
    rfl
  | case4 u v rest hpair ih =>
    rw [Bool.and_eq_true] at hpair
    rw [List.map_cons, ih, codePoints_pair hpair.1 hpair.2]
  | case5 u v rest hpair hu ih =>
    rw [Bool.and_eq_true] at hpair
    rw [codePoints_single (by simpa [PairAt] using hpair), if_pos hu, ih]
    rfl
  | case6 u v rest hpair hu ih =>
    rw [Bool.and_eq_true] at hpair
    rw [codePoints_single (by simpa [PairAt] using hpair), if_neg hu, List.map_cons, ih,
      val_single (Bool.eq_false_iff.2 hu)]
    rfl

end Utf16

namespace Text

/-! ## There and back -/

theorem toCodePoints_eq (t : Text) : t.toCodePoints = Utf16.codePoints t.units := Utf16.map_val_decode t.units

/-- The character of a number, by the number. -/
theorem val_characterOf (w : UInt32) : (characterOf w).val = if w.isValidChar then w else 0xFFFD := by
  unfold characterOf
  split <;> rfl

theorem characterOf_val (c : Char) : characterOf c.val = c := by
  rw [characterOf, dif_pos c.valid]

theorem characters_ofCharacters (cs : List Char) : (ofCharacters cs).characters = cs := Utf16.decode_encode cs

theorem ofCodePoints_toCodePoints (t : Text) : ofCodePoints t.toCodePoints = ofCharacters t.characters := by
  have hmap : t.toCodePoints.map characterOf = t.characters := by
    rw [toCodePoints, List.map_map]
    exact (List.map_congr_left fun c _ => characterOf_val c).trans (List.map_id _)
  rw [ofCodePoints, hmap]

theorem toCodePoints_ofCodePoints (ws : List UInt32) :
    (ofCodePoints ws).toCodePoints = ws.map fun w => if w.isValidChar then w else 0xFFFD := by
  rw [toCodePoints, ofCodePoints, characters_ofCharacters, List.map_map]
  exact List.map_congr_left fun w _ => val_characterOf w

theorem toCodePoints_ofCodePoints_eq_iff (ws : List UInt32) :
    (ofCodePoints ws).toCodePoints = ws ↔ ∀ w ∈ ws, w.isValidChar := by
  have hvalid : (0xFFFD : UInt32).isValidChar := by decide
  have hiff : ∀ w : UInt32, (if w.isValidChar then w else 0xFFFD) = w ↔ w.isValidChar := by
    intro w
    refine ⟨fun h => ?_, fun h => if_pos h⟩
    by_contra hw
    rw [if_neg hw] at h
    exact hw (h ▸ hvalid)
  have hself : ws = ws.map id := (List.map_id ws).symm
  rw [toCodePoints_ofCodePoints]
  nth_rewrite 2 [hself]
  exact List.map_inj_left.trans (forall₂_congr fun w _ => hiff w)

/--
**Wide strings and units.** As a wide string a text has the code points that begin at its places, and gets back from
them all units but the unpaired surrogates; any wide string makes a well-formed text, which as a wide string has the
same numbers, each at its place, with U+FFFD for those that are no characters. Nothing else about the host matters.
-/
theorem codePoints_convert (host : WideStrings) :
    (∀ t : Text, t.toWide host = Utf16.codePoints t.units) ∧
    (∀ t : Text, (ofWide host (t.toWide host)).units = Utf16.withoutUnpaired t.units) ∧
    (∀ ws, Utf16.WellFormed (ofWide host ws).units) ∧
    (∀ ws, (ofWide host ws).toWide host = ws.map fun w => if w.isValidChar then w else 0xFFFD) ∧
    (∀ ws, ((ofWide host ws).toWide host).length = ws.length) ∧
    (∀ ws, (ofWide host ws).toWide host = ws ↔ ∀ w ∈ ws, w.isValidChar) ∧
    (∀ t : Text, t.toWide host = t.toCodePoints) ∧ ∀ ws, ofWide host ws = ofCodePoints ws := by
  refine ⟨fun t => ?_, fun t => ?_, fun ws => ?_, fun ws => ?_, fun ws => ?_, fun ws => ?_, toWide_eq host,
    ofWide_eq host⟩
  · rw [toWide_eq, toCodePoints_eq]
  · rw [toWide_eq, ofWide_eq, ofCodePoints_toCodePoints, ofCharacters, characters, Utf16.encode_decode]
  · rw [ofWide_eq]
    exact Utf16.wellFormed_encode _
  · rw [toWide_eq, ofWide_eq, toCodePoints_ofCodePoints]
  · rw [toWide_eq, ofWide_eq, toCodePoints_ofCodePoints, List.length_map]
  · rw [toWide_eq, ofWide_eq, toCodePoints_ofCodePoints_eq_iff]

/-- Two surrogates that are numbers of their own do not become a pair. -/
theorem codePoints_convert_surrogates :
    (ofWide .plain [0xD83D, 0xDE00, 0x1F600, 0x110000]).toWide .plain = [0xFFFD, 0xFFFD, 0x1F600, 0xFFFD] ∧
    (ofWide .plain [0xD83D, 0xDE00, 0x1F600, 0x110000]).units = [0xFFFD, 0xFFFD, 0xD83D, 0xDE00, 0xFFFD] := by
  obtain ⟨-, -, -, hback, -, -, -, hsame⟩ := codePoints_convert .plain
  refine ⟨?_, ?_⟩
  · rw [hback]
    decide
  · rw [hsame]
    decide

end Text

end ManagedRuntime
