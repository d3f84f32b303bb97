import ManagedRuntime.Proofs.Encoding.Utf8
import ManagedRuntime.Text.Concatenation
import ManagedRuntime.Text.Register

/-!
# Concatenation and encoding

* `Utf16.Joins` : a high surrogate at the end of one list of units and a low one at the beginning of another;
* `decode_append`, `decode_append_of_joins` : the characters of two lists together are those of the one and of the
  other, with one more between them where the two join;
* `concatenation_encodes` : all forms of concatenation put the same units together, by way of a string the unpaired
  surrogates are lost, and texts are encoded one by one exactly where they do not join.
-/

namespace ManagedRuntime

set_option autoImplicit false

namespace Utf16

/-! ## Characters of two lists together -/

/-- The last unit of the one list and the first of the other are a surrogate pair. -/
def Joins (us vs : List UInt16) : Prop := us.getLast?.any isHigh = true ∧ vs.head?.any isLow = true

instance (us vs : List UInt16) : Decidable (Joins us vs) := inferInstanceAs (Decidable (_ ∧ _))

variable {us vs : List UInt16}

theorem Joins.of_cons {u v : UInt16} (h : Joins (v :: us) vs) : Joins (u :: v :: us) vs := by
  rwa [Joins, List.getLast?_cons_cons]

theorem decode_of_not_pairAt {u : UInt16} (h : ¬ PairAt (u :: us) 0) :
    decode (u :: us) = (if isSurrogate u then [] else [single u]) ++ decode us := by
  split
  next hu =>
    cases us with
    | nil => simp [decode, hu]
    | cons v us =>
      have hnot : (isHigh u && isLow v) = false := Bool.eq_false_iff.2 (by simpa [PairAt] using h)
      simp [decode, hnot, hu]
  next hu => exact decode_single (Bool.eq_false_iff.2 hu) us

theorem pairAt_append_of_not_joins {u : UInt16} (h : ¬ Joins (u :: us) vs) :
    PairAt (u :: us ++ vs) 0 ↔ PairAt (u :: us) 0 := by
  cases us with
  | nil =>
    cases vs with
    | nil => rfl
    | cons v vs =>
      refine iff_of_false (fun hp => h ?_) (fun hp => by simp [PairAt] at hp)
      simpa [PairAt, Joins] using hp
  | cons v us => simp [PairAt]

/-- Two lists that do not join have the characters of the one and of the other. -/
theorem decode_append (h : ¬ Joins us vs) : decode (us ++ vs) = decode us ++ decode vs := by
  have hstep : ∀ {u : UInt16} {us : List UInt16}, ¬ Joins (u :: us) vs → ¬ PairAt (u :: us) 0 →
      decode (us ++ vs) = decode us ++ decode vs → decode (u :: us ++ vs) = decode (u :: us) ++ decode vs := by
    intro u us hj hp ih
    rw [decode_of_not_pairAt hp, List.append_assoc, ← ih]
    exact decode_of_not_pairAt ((pairAt_append_of_not_joins hj).not.2 hp)
  fun_induction decode us with
  | case1 => rfl
  | case2 u hu => exact (hstep h (by simp [PairAt]) rfl).trans (by simp [decode, hu])
  | case3 u hu => exact (hstep h (by simp [PairAt]) rfl).trans (by simp [decode, hu])
  | case4 u v rest hpair ih =>
    rw [Bool.and_eq_true] at hpair
    have hrest : ¬ Joins rest vs := by
      cases rest with
      | nil => simp [Joins]
      | cons w rest => exact fun hj => h hj.of_cons.of_cons
    rw [List.cons_append, List.cons_append, decode_pair hpair.1 hpair.2, ih hrest]
    rfl
  | case5 u v rest hpair hu ih =>
    rw [Bool.and_eq_true] at hpair
    have hp : ¬ PairAt (u :: v :: rest) 0 := by simpa [PairAt] using hpair
    rw [hstep h hp (ih fun hj => h hj.of_cons), decode_of_not_pairAt hp, if_pos hu, List.nil_append]
  | case6 u v rest hpair hu ih =>
    rw [Bool.and_eq_true] at hpair
    have hp : ¬ PairAt (u :: v :: rest) 0 := by simpa [PairAt] using hpair
    rw [hstep h hp (ih fun hj => h hj.of_cons), decode_of_not_pairAt hp, if_neg hu, List.singleton_append]

/-- Where two lists join, two units that have each been left out become a character. -/
theorem decode_append_of_joins (h : Joins us vs) : ∃ c, decode (us ++ vs) = decode us ++ c :: decode vs := by
  obtain ⟨hlast, hhead⟩ := h
  rw [Option.any_eq_true] at hlast hhead
  obtain ⟨high, hlast, hh⟩ := hlast
  obtain ⟨low, hhead, hl⟩ := hhead
  obtain ⟨us, rfl⟩ := List.getLast?_eq_some_iff.1 hlast
  obtain ⟨vs, rfl⟩ := List.head?_eq_some_iff.1 hhead
  have hnot : isLow high = false := Bool.eq_false_iff.2 fun hlow => by rw [isHigh_of_isLow hlow] at hh; cases hh
  have hsurrogate : isSurrogate high = true := by rw [isSurrogate, hh, Bool.true_or]
  have hlow : decode (low :: vs) = decode vs := by
    rw [decode_of_not_pairAt fun hp => by simp [PairAt, isHigh_of_isLow hl] at hp]
    simp [isSurrogate, hl]
  have hleft : decode (us ++ [high]) = decode us := by
    rw [decode_append (by simp [Joins, hnot])]
    simp [decode, hsurrogate]
  have hboth : decode (us ++ [high] ++ low :: vs) = decode us ++ pair high low :: decode vs := by
    rw [List.append_assoc, decode_append (by simp [Joins, hnot]), List.singleton_append, decode_pair hh hl]
  exact ⟨pair high low, by rw [hboth, hleft, hlow]⟩

theorem decode_append_eq_iff : decode (us ++ vs) = decode us ++ decode vs ↔ ¬ Joins us vs := by
  refine ⟨fun h hj => ?_, decode_append⟩
  obtain ⟨c, hc⟩ := decode_append_of_joins hj
  rw [hc] at h
  have hlength := congrArg List.length h
  simp only [List.length_append, List.length_cons] at hlength
  omega

end Utf16

theorem Utf8.encode_inj {cs ds : List Char} : Utf8.encode cs = Utf8.encode ds ↔ cs = ds := by
  refine ⟨fun h => ?_, congrArg Utf8.encode⟩
  rw [← Utf8.decode_encode cs, h, Utf8.decode_encode]

namespace Text

/-! ## Texts -/

theorem Concatenation.run_eq (form : Concatenation) (s t : Text) : form.run s t = s ++ t := by
  cases form <;> rfl

theorem characters_append_eq_iff (s t : Text) :
    (s ++ t).characters = s.characters ++ t.characters ↔ ¬ Utf16.Joins s.units t.units :=
  Utf16.decode_append_eq_iff

theorem toString_append_eq_iff (s t : Text) :
    (s ++ t).toString = s.toString ++ t.toString ↔ ¬ Utf16.Joins s.units t.units := by
  rw [← characters_append_eq_iff, toString, toString, toString, ← String.ofList_append, String.ofList_inj]

theorem toOctets_append_eq_iff (s t : Text) :
    (s ++ t).toOctets = s.toOctets ++ t.toOctets ↔ ¬ Utf16.Joins s.units t.units := by
  rw [← characters_append_eq_iff, toOctets, toOctets, toOctets, ← Utf8.encode_append, Utf8.encode_inj]

theorem units_addString_toString (s t : Text) :
    (s.addString t.toString).units = s.units ++ Utf16.withoutUnpaired t.units := by
  rw [addString, toString, String.toList_ofList, extend, characters, Utf16.encode_decode]

theorem addString_toString_eq_iff (s t : Text) : s.addString t.toString = s ++ t ↔ Utf16.WellFormed t.units := by
  have hunits : s.addString t.toString = s ++ t ↔ (s.addString t.toString).units = (s ++ t).units :=
    ⟨congrArg units, congrArg mk⟩
  rw [hunits, units_addString_toString, units_append, List.append_cancel_left_eq, Utf16.withoutUnpaired_eq_iff]

/--
**Concatenation and encoding.** Every form of concatenation gives the units of the one text and then of the other. By
way of a string the second text loses its unpaired surrogates, and nothing is lost exactly if it has none. Two texts
together are encoded as the one and then the other exactly if they do not join.
-/
theorem concatenation_encodes :
    (∀ (form : Concatenation) (s t : Text), (form.run s t).units = s.units ++ t.units) ∧
    (∀ (form : Concatenation) (rs : Registers) (r a b : String),
      (Command.concat r a b).run rs = Command.writing rs r (form.run (rs.read a) (rs.read b)) ∧
      (Command.append r b).run rs = Command.writing rs r (form.run (rs.read r) (rs.read b)) ∧
      (Command.concatCharacters r a b).run rs = Command.writing rs r ((rs.read a).addString (rs.read b).toString)) ∧
    (∀ s t : Text, (s.addString t.toString).units = s.units ++ Utf16.withoutUnpaired t.units) ∧
    (∀ s t : Text, s.addString t.toString = s ++ t ↔ Utf16.WellFormed t.units) ∧
    (∀ s t : Text, (s ++ t).toString = s.toString ++ t.toString ↔ ¬ Utf16.Joins s.units t.units) ∧
    ∀ s t : Text, (s ++ t).toOctets = s.toOctets ++ t.toOctets ↔ ¬ Utf16.Joins s.units t.units := by
  refine ⟨fun form s t => ?_, fun form rs r a b => ⟨?_, ?_, ?_⟩, units_addString_toString, addString_toString_eq_iff,
    toString_append_eq_iff, toOctets_append_eq_iff⟩
  · rw [form.run_eq, units_append]
  · rw [form.run_eq, Command.run]
  · rw [form.run_eq, Command.run]
  · rw [Command.run, addString, toString, String.toList_ofList]
    rfl

/-- The two halves of a pair are lost one by one and kept together. -/
example : (Text.ofUnit 0xD83D ++ Text.ofUnit 0xDE00).toOctets = [0xF0, 0x9F, 0x98, 0x80] ∧
    (Text.ofUnit 0xD83D).toOctets = [] ∧ (Text.ofUnit 0xDE00).toOctets = [] := by
  decide

end Text

end ManagedRuntime
