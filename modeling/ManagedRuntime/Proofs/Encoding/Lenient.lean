import ManagedRuntime.Proofs.Encoding.Utf8
import ManagedRuntime.Text.Encoding
import ManagedRuntime.Utf8.Check

/-!
# Lenient decoding

* `Reports` : what a check says of the octets that it is given; `reports_check` : `check` does so;
* `Returns` : decoding ends after some number of rounds; `returns_iff` : it does with every check that reports;
* `ascii_withoutBroken` : no octet below 80 belongs to a broken sequence;
* `lenient_decoding` : what decoding returns is the characters without the broken sequences, it keeps the octets below
  80, and goes on behind valid octets as if there were none.
-/

namespace ManagedRuntime

set_option autoImplicit false

open String (utf8EncodeChar)

namespace Utf8

/-! ## Checks -/

/-- A check has stopped at the first octets that are not those of a character. -/
structure Stop.Marks (stop : Stop) (octets : List UInt8) : Prop where
  inside : stop.validUpTo < octets.length
  valid : Valid (octets.take stop.validUpTo)
  longest : ∀ n ≤ octets.length, Valid (octets.take n) → n ≤ stop.validUpTo
  /-- An octet was unexpected, and the length is that of the sequence that it breaks. -/
  broken : ∀ n, stop.broken? = some n →
    Broken ((octets.drop stop.validUpTo).take n) ((octets.drop stop.validUpTo).drop n)
  /-- The end was reached although what is left could be completed. -/
  cut : stop.broken? = none ↔ Begins (octets.drop stop.validUpTo)

/-- What a check says of octets is true. -/
def Reports (octets : List UInt8) : Except Stop (List Char) → Prop
  | .ok cs => encode cs = octets
  | .error stop => stop.Marks octets

theorem valid_nil : Valid [] := ⟨[], rfl⟩

theorem valid_character {octets : List UInt8} (c : Char) (h : Valid octets) : Valid (utf8EncodeChar c ++ octets) := by
  obtain ⟨cs, rfl⟩ := h
  exact ⟨c :: cs, rfl⟩

/-- Valid octets that begin with a character go on with valid octets. -/
theorem valid_character_iff {octets : List UInt8} (c : Char) :
    Valid (utf8EncodeChar c ++ octets) ↔ Valid octets := by
  refine ⟨?_, valid_character c⟩
  rintro ⟨cs, hcs⟩
  have hdecode := congrArg decode hcs
  rw [decode_encode, decode_character] at hdecode
  rw [hdecode, encode_cons, List.append_cancel_left_eq] at hcs
  exact ⟨_, hcs⟩

theorem length_character_pos (c : Char) : 0 < (utf8EncodeChar c).length := by
  rw [String.length_utf8EncodeChar]
  exact c.utf8Size_pos

/-- Valid octets are none or begin with a character. -/
theorem Valid.cases {octets : List UInt8} (h : Valid octets) :
    octets = [] ∨ ∃ c rest, octets = utf8EncodeChar c ++ rest ∧ Valid rest := by
  obtain ⟨cs, rfl⟩ := h
  cases cs with
  | nil => exact .inl rfl
  | cons c cs => exact .inr ⟨c, encode cs, rfl, cs, rfl⟩

/-- No valid octets other than none are the beginning of a broken sequence and what comes after it. -/
theorem Broken.valid_take {piece rest : List UInt8} (h : Broken piece rest) {n : Nat}
    (hn : n ≤ (piece ++ rest).length) (hv : Valid ((piece ++ rest).take n)) : n = 0 := by
  rcases hv.cases with hnil | ⟨c, tail, hc, -⟩
  · have hlength := congrArg List.length hnil
    rw [List.length_take, List.length_nil] at hlength
    omega
  · exact absurd ((List.prefix_append _ tail).trans (hc ▸ List.take_prefix n _)) (h.noCharacter c)

theorem Broken.marks {piece rest : List UInt8} (h : Broken piece rest) {broken? : Option Nat}
    (hbroken : ∀ n, broken? = some n → n = piece.length) (hcut : broken? = none ↔ Begins (piece ++ rest)) :
    Stop.Marks ⟨0, broken?⟩ (piece ++ rest) where
  inside := by
    rw [List.length_append]
    exact Nat.add_pos_left (List.length_pos_of_ne_nil h.nonempty) _
  valid := valid_nil
  longest := fun n hn hv => Nat.le_of_eq (h.valid_take hn hv)
  broken := by
    intro n hn
    rw [hbroken n hn]
    simpa using h
  cut := hcut

theorem Stop.Marks.character {stop : Stop} {octets : List UInt8} (h : stop.Marks octets) (c : Char) :
    Stop.Marks { stop with validUpTo := (utf8EncodeChar c).length + stop.validUpTo } (utf8EncodeChar c ++ octets) := by
  have hdrop : (utf8EncodeChar c ++ octets).drop ((utf8EncodeChar c).length + stop.validUpTo) =
      octets.drop stop.validUpTo := List.drop_length_add_append _
  refine ⟨?_, ?_, fun n hn hv => ?_, ?_, ?_⟩
  · rw [List.length_append]
    exact Nat.add_lt_add_left h.inside _
  · rw [List.take_length_add_append]
    exact valid_character c h.valid
  · by_cases hle : n ≤ (utf8EncodeChar c).length
    · exact Nat.le_add_right_of_le hle
    · obtain ⟨k, rfl⟩ := Nat.exists_eq_add_of_le (Nat.le_of_not_le hle)
      rw [List.take_length_add_append, valid_character_iff] at hv
      rw [List.length_append] at hn
      exact Nat.add_le_add_left (h.longest k (by omega) hv) _
  · intro n hn
    rw [hdrop]
    exact h.broken n hn
  · rw [hdrop]
    exact h.cut

/-! ## The end of a sequence -/

theorem scanRest_eq_truncated_iff (missing value taken : Nat) (rest : List UInt8) :
    scanRest missing value taken rest = .truncated ↔ rest.length < missing ∧ ∀ b ∈ rest, isContinuation b = true := by
  induction missing generalizing value taken rest with
  | zero => simp [scanRest]
  | succ missing ih =>
    cases rest with
    | nil => simp [scanRest]
    | cons b rest =>
      rw [scanRest, List.forall_mem_cons, List.length_cons, Nat.succ_lt_succ_iff]
      split
      next hb => rw [ih, and_iff_right hb]
      next hb => exact iff_of_false Sequence.noConfusion fun h => hb h.2.1

theorem scan_eq_truncated_iff (lead : UInt8) (rest : List UInt8) : scan lead rest = .truncated ↔
    ∃ n, announced? lead = some n ∧ rest.length < n ∧ Follows lead rest := by
  unfold scan
  cases announced? lead with
  | none => simp
  | some n =>
    simp only [Option.some.injEq, exists_eq_left']
    cases n with
    | zero => simp
    | succ n =>
      cases rest with
      | nil => simp [Follows]
      | cons b rest =>
        dsimp only
        rw [List.length_cons, Nat.succ_lt_succ_iff, Follows]
        split
        next hb => rw [scanRest_eq_truncated_iff, and_iff_right hb]
        next hb => exact iff_of_false Sequence.noConfusion fun h => hb h.2.1

/-- Only a sequence that the end cuts off can be completed without being whole. -/
theorem begins_of_truncated {lead : UInt8} {rest : List UInt8} (h : scan lead rest = .truncated) :
    Begins (lead :: rest) := by
  obtain ⟨n, hn, hlt, hf⟩ := (scan_eq_truncated_iff lead rest).1 h
  exact (begins_iff lead rest).2 ⟨n, hn, Nat.le_of_lt hlt, hf⟩

theorem not_begins_of_broken {lead : UInt8} {rest : List UInt8} {k : Nat} (h : scan lead rest = .broken k) :
    ¬ Begins (lead :: rest) := by
  intro hb
  obtain ⟨n, hn, hle, hf⟩ := (begins_iff lead rest).1 hb
  rcases Nat.lt_or_eq_of_le hle with hlt | heq
  · rw [(scan_eq_truncated_iff lead rest).2 ⟨n, hn, hlt, hf⟩] at h
    cases h
  · have hw : Whole lead rest := ⟨by rw [hn, heq], hf⟩
    have hwhole := scan_whole hw []
    rw [List.append_nil, h] at hwhole
    cases hwhole

/-! ## The check -/

theorem check_nil : check [] = .ok [] := by rw [check]

theorem check_character (c : Char) (rest : List UInt8) :
    check (utf8EncodeChar c ++ rest) = reportAfter c (utf8EncodeChar c).length (check rest) := by
  obtain ⟨lead, tail, hc, hscan⟩ := scan_utf8EncodeChar c
  rw [hc, List.cons_append, check, hscan]
  exact congrArg (fun rest => reportAfter c (tail.length + 1) (check rest)) List.drop_left

theorem check_of_broken {lead : UInt8} {rest : List UInt8} {k : Nat} (h : scan lead rest = .broken k) :
    check (lead :: rest) = .error ⟨0, some (k + 1)⟩ := by
  rw [check, h]

theorem check_of_truncated {lead : UInt8} {rest : List UInt8} (h : scan lead rest = .truncated) :
    check (lead :: rest) = .error ⟨0, none⟩ := by
  rw [check, h]

/-- **The check reports what octets are.** -/
theorem reports_check (octets : List UInt8) : Reports octets (check octets) := by
  induction hn : octets.length using Nat.strongRecOn generalizing octets with
  | ind n ih =>
    cases octets with
    | nil =>
      rw [check_nil]
      exact encode_nil
    | cons lead rest =>
      rcases scan_cases lead rest with ⟨tail, rest', rfl, hwhole⟩ | ⟨tail, rest', rfl, hbroken, hscan | ⟨hscan, rfl⟩⟩
      · have hpos := length_character_pos (Char.ofNat (spelled lead tail))
        rw [← List.cons_append, ← utf8EncodeChar_spelled hwhole] at hn ⊢
        rw [List.length_append] at hn
        have hrest := ih _ (by omega) rest' rfl
        rw [check_character]
        cases hcheck : check rest' <;> rw [hcheck] at hrest
        · exact Stop.Marks.character hrest _
        · exact congrArg (utf8EncodeChar _ ++ ·) hrest
      · rw [check_of_broken hscan]
        refine hbroken.marks (fun n hn => ?_) ?_
        · cases hn
          rfl
        · exact iff_of_false nofun (not_begins_of_broken hscan)
      · rw [check_of_truncated hscan]
        refine hbroken.marks nofun ?_
        exact iff_of_true rfl (begins_of_truncated hscan)

/-! ## Rounds -/

/-- Rounds with a check come to an end, and return these units. -/
inductive Returns (check : List UInt8 → Except Stop (List Char)) : Progress → List UInt16 → Prop where
  | last {p : Progress} {units : List UInt16} (h : p.round check = .finished units) : Returns check p units
  | again {p p' : Progress} {units : List UInt16} (h : p.round check = .again p') (hr : Returns check p' units) :
    Returns check p units

theorem Returns.unique {check : List UInt8 → Except Stop (List Char)} {p : Progress} {units units' : List UInt16}
    (h : Returns check p units) (h' : Returns check p units') : units' = units := by
  induction h with
  | last h =>
    cases h' with
    | last h' => exact Round.finished.inj (h'.symm.trans h)
    | again h' => exact Round.noConfusion (h'.symm.trans h)
  | again h _ ih =>
    cases h' with
    | last h' => exact Round.noConfusion (h'.symm.trans h)
    | again h' hr' => exact ih (Round.again.inj (h'.symm.trans h) ▸ hr')

theorem decode_append_of_valid {valid : List UInt8} (h : Valid valid) (octets : List UInt8) :
    decode (valid ++ octets) = decode valid ++ decode octets := by
  obtain ⟨cs, rfl⟩ := h
  rw [decode_encode]
  induction cs with
  | nil => rfl
  | cons c cs ih => rw [encode_cons, List.append_assoc, decode_character, ih, List.cons_append]

theorem Valid.append {octets octets' : List UInt8} (h : Valid octets) (h' : Valid octets') :
    Valid (octets ++ octets') := by
  obtain ⟨cs, rfl⟩ := h
  obtain ⟨cs', rfl⟩ := h'
  exact ⟨cs ++ cs', encode_append cs cs'⟩

section Marks

variable {stop : Stop} {octets : List UInt8}

/-- Where a check stops, what lies in front is decoded first. -/
theorem Stop.Marks.encode_decode (h : stop.Marks octets) : Utf16.encode (decode octets) =
    Utf16.encode (decode (octets.take stop.validUpTo)) ++ Utf16.encode (decode (octets.drop stop.validUpTo)) := by
  rw [← Utf16.encode_append, ← decode_append_of_valid h.valid, List.take_append_drop]

/-- No character begins where a check stops. -/
theorem Stop.Marks.noCharacter (h : stop.Marks octets) (c : Char) :
    ¬ utf8EncodeChar c <+: octets.drop stop.validUpTo := by
  rintro ⟨rest, hrest⟩
  have hpos := length_character_pos c
  have hlength := congrArg List.length hrest
  rw [List.length_append, List.length_drop] at hlength
  have htake : octets.take (stop.validUpTo + (utf8EncodeChar c).length) =
      octets.take stop.validUpTo ++ utf8EncodeChar c := by
    rw [List.take_add, ← hrest, List.take_left]
  have hvalid : Valid (octets.take (stop.validUpTo + (utf8EncodeChar c).length)) := by
    rw [htake]
    exact h.valid.append ⟨[c], List.append_nil _⟩
  have hinside := h.inside
  have hle := h.longest _ (by omega) hvalid
  omega

/-- A sequence that the end cuts off leaves no trace. -/
theorem Stop.Marks.decode_cut (h : stop.Marks octets) (hb : stop.broken? = none) :
    decode (octets.drop stop.validUpTo) = [] := by
  have hne : octets.drop stop.validUpTo ≠ [] := by
    rw [Ne, List.drop_eq_nil_iff, Nat.not_le]
    exact h.inside
  have hbroken : Broken (octets.drop stop.validUpTo) [] := by
    refine ⟨hne, fun c => ?_, .inr (h.cut.1 hb), fun piece hp _ => ?_⟩
    · rw [List.append_nil]
      exact h.noCharacter c
    · rw [List.append_nil] at hp
      exact hp.length_le
  rw [← List.append_nil (octets.drop stop.validUpTo), decode_broken hbroken, decode_nil]

/-- Nor does a broken sequence, and decoding goes on behind it with fewer octets. -/
theorem Stop.Marks.decode_broken {n : Nat} (h : stop.Marks octets) (hb : stop.broken? = some n) :
    decode (octets.drop stop.validUpTo) = decode ((octets.drop stop.validUpTo).drop n) ∧
      ((octets.drop stop.validUpTo).drop n).length < octets.length := by
  have hbroken := h.broken n hb
  refine ⟨?_, ?_⟩
  · rw [← Utf8.decode_broken hbroken, List.take_append_drop]
  · have hpos := List.length_pos_of_ne_nil hbroken.nonempty
    rw [List.length_take, List.length_drop] at hpos
    rw [List.length_drop, List.length_drop]
    omega

end Marks

section Rounds

variable {check : List UInt8 → Except Stop (List Char)} (hcheck : ∀ octets, Reports octets (check octets))

include hcheck

/-- A check that reports accepts valid octets, and has their characters. -/
theorem check_of_valid {octets : List UInt8} (h : Valid octets) : check octets = .ok (decode octets) := by
  have hreport := hcheck octets
  cases hc : check octets with
  | ok cs =>
    rw [hc] at hreport
    rw [← show encode cs = octets from hreport, decode_encode]
  | error stop =>
    rw [hc] at hreport
    have hle := hreport.longest octets.length (Nat.le_refl _) (by rwa [List.take_length])
    exact absurd hreport.inside (Nat.not_lt.2 hle)

/-- A round returns what decoding gives, or leaves fewer octets that decode to what is missing. -/
theorem round_spec (p : Progress) :
    p.round check = .finished (p.units ++ Utf16.encode (decode p.octets)) ∨
    ∃ p', p.round check = .again p' ∧ p'.octets.length < p.octets.length ∧
      p'.units ++ Utf16.encode (decode p'.octets) = p.units ++ Utf16.encode (decode p.octets) := by
  have hreport := hcheck p.octets
  unfold Progress.round
  cases hc : check p.octets with
  | ok cs =>
    rw [hc] at hreport
    rw [← show encode cs = p.octets from hreport, decode_encode]
    exact .inl rfl
  | error stop =>
    rw [hc] at hreport
    have hmarks : stop.Marks p.octets := hreport
    dsimp only
    rw [check_of_valid hcheck hmarks.valid, hmarks.encode_decode]
    cases hb : stop.broken? with
    | none =>
      rw [hmarks.decode_cut hb, Utf16.encode_nil, List.append_nil]
      exact .inl rfl
    | some n =>
      obtain ⟨hdecode, hlt⟩ := hmarks.decode_broken hb
      refine .inr ⟨_, rfl, hlt, ?_⟩
      rw [hdecode, ← List.append_assoc]
      rfl

/-- **Whatever check is used, decoding in rounds ends with the units of the characters.** -/
theorem returns_iff (octets : List UInt8) (units : List UInt16) :
    Returns check ⟨octets, []⟩ units ↔ units = Utf16.encode (decode octets) := by
  have hreturns : ∀ p : Progress, Returns check p (p.units ++ Utf16.encode (decode p.octets)) := by
    intro p
    induction hn : p.octets.length using Nat.strongRecOn generalizing p with
    | ind n ih =>
      rcases round_spec hcheck p with hlast | ⟨p', hagain, hlt, hunits⟩
      · exact .last hlast
      · rw [← hunits]
        exact .again hagain (ih _ (hn ▸ hlt) p' rfl)
  refine ⟨fun h => (hreturns ⟨octets, []⟩).unique h, ?_⟩
  rintro rfl
  exact hreturns ⟨octets, []⟩

end Rounds

/-! ## Octets below 80 -/

theorem Follows.le_of_mem {lead : UInt8} {tail : List UInt8} (h : Follows lead tail) {b : UInt8} (hb : b ∈ tail) :
    0x80 ≤ b.toNat := by
  cases tail with
  | nil => cases hb
  | cons second tail =>
    obtain ⟨hsecond, htail⟩ := h
    rcases List.mem_cons.1 hb with rfl | hb
    · exact ((isSecond_iff lead b).1 hsecond).1.1
    · exact ((isContinuation_iff b).1 (htail b hb)).1

/-- An octet below 80 is a character of its own. -/
theorem utf8EncodeChar_of_lt {b : UInt8} (h : b.toNat < 0x80) : utf8EncodeChar (Char.ofNat b.toNat) = [b] :=
  utf8EncodeChar_spelled ((whole_zero b).2 h)

/-- All octets of the other characters are 80 or more. -/
theorem le_of_mem_character {c : Char} (hc : 0x80 ≤ c.toNat) {b : UInt8} (hb : b ∈ utf8EncodeChar c) :
    0x80 ≤ b.toNat := by
  obtain ⟨lead, tail, he, ⟨hn, hf⟩, hspelled⟩ := exists_whole c
  rw [he] at hb
  rcases List.mem_cons.1 hb with rfl | hb
  · by_contra hlt
    rw [(announced?_eq_some_iff b 0).2 (.inl ⟨rfl, Nat.lt_of_not_le hlt⟩), Option.some_inj] at hn
    rw [List.eq_nil_of_length_eq_zero hn.symm, spelled_zero] at hspelled
    omega
  · exact hf.le_of_mem hb

/-- No octet of a broken sequence is below 80. -/
theorem Broken.le_of_mem {piece rest : List UInt8} (h : Broken piece rest) {b : UInt8} (hb : b ∈ piece) :
    0x80 ≤ b.toNat := by
  cases piece with
  | nil => cases hb
  | cons lead tail =>
    rcases List.mem_cons.1 hb with rfl | hb
    · by_contra hlt
      refine h.noCharacter (Char.ofNat b.toNat) ?_
      rw [utf8EncodeChar_of_lt (Nat.lt_of_not_le hlt)]
      exact ⟨tail ++ rest, rfl⟩
    · rcases h.begins with hone | hbegins
      · rw [List.eq_nil_of_length_eq_zero (Nat.succ.inj hone)] at hb
        cases hb
      · obtain ⟨n, -, -, hf⟩ := (begins_iff lead tail).1 hbegins
        exact hf.le_of_mem hb

/-- The octets that are characters of their own. -/
def ascii (octets : List UInt8) : List UInt8 := octets.filter (·.toNat < 0x80)

theorem ascii_eq_nil {octets : List UInt8} (h : ∀ b ∈ octets, 0x80 ≤ b.toNat) : ascii octets = [] :=
  List.filter_eq_nil_iff.2 fun b hb => by simpa using h b hb

theorem ascii_append (octets octets' : List UInt8) : ascii (octets ++ octets') = ascii octets ++ ascii octets' :=
  List.filter_append ..

/-- Without its broken sequences a list of octets has the same octets below 80. -/
theorem ascii_withoutBroken {octets kept : List UInt8} (h : WithoutBroken octets kept) : ascii octets = ascii kept := by
  induction h with
  | nil => rfl
  | character c _ ih => rw [ascii_append, ascii_append, ih]
  | broken hb _ ih => rw [ascii_append, ascii_eq_nil fun b => hb.le_of_mem, List.nil_append, ih]

end Utf8

namespace Utf16

/-- The units that are characters with one octet. -/
def ascii (units : List UInt16) : List UInt16 := units.filter (·.toNat < 0x80)

/-- All units of the other characters are 80 or more. -/
theorem le_of_mem_encodeChar {c : Char} (hc : 0x80 ≤ c.toNat) {u : UInt16} (hu : u ∈ encodeChar c) :
    0x80 ≤ u.toNat := by
  unfold encodeChar at hu
  split at hu
  next hone =>
    rw [List.mem_singleton.1 hu, Nat.toUInt16_eq, UInt16.toNat_ofNat', Nat.mod_eq_of_lt hone]
    exact hc
  next =>
    have hvalid := toNat_valid c
    rcases List.mem_pair.1 hu with rfl | rfl <;> rw [Nat.toUInt16_eq, UInt16.toNat_ofNat'] <;> omega

/-- A character has the same octets and units below 80. -/
theorem ascii_encodeChar (c : Char) : ascii (encodeChar c) = (Utf8.ascii (utf8EncodeChar c)).map UInt8.toUInt16 := by
  by_cases hc : c.toNat < 0x80
  · have hoctet : UInt8.toNat (UInt8.ofNat c.toNat) = c.toNat := Utf8.toNat_ofNat_lt (by omega)
    have hunit : c.toNat.toUInt16 = (UInt8.ofNat c.toNat).toUInt16 := by
      rw [← UInt16.toNat_inj, UInt8.toNat_toUInt16, hoctet, Nat.toUInt16_eq, UInt16.toNat_ofNat']
      omega
    rw [Utf8.utf8EncodeChar_eq, if_pos (by omega), encodeChar, if_pos (by omega), hunit]
    simp [ascii, Utf8.ascii, hoctet, hc]
  · have hc := Nat.le_of_not_lt hc
    rw [Utf8.ascii_eq_nil fun b => Utf8.le_of_mem_character hc, List.map_nil]
    exact List.filter_eq_nil_iff.2 fun u hu => by simpa using le_of_mem_encodeChar hc hu

/-- Characters have the same octets and units below 80. -/
theorem ascii_encode (cs : List Char) : ascii (encode cs) = (Utf8.ascii (Utf8.encode cs)).map UInt8.toUInt16 := by
  induction cs with
  | nil => rfl
  | cons c cs ih =>
    rw [encode_cons, Utf8.encode_cons, Utf8.ascii_append, List.map_append, ← ih, ← ascii_encodeChar]
    exact List.filter_append ..

end Utf16

namespace Text

/--
**Lenient decoding loses only what is broken.** Decoding in rounds with any check that reports ends, and returns the
characters of the octets without the broken sequences, hence no unpaired surrogate; what is below 80 is the same before
and after, and valid octets in front are decoded as if they were alone.
-/
theorem lenient_decoding :
    (∀ check, (∀ octets, Utf8.Reports octets (check octets)) → ∀ octets units,
      Utf8.Returns check ⟨octets, []⟩ units ↔ units = (ofOctets octets).units) ∧
    (∀ octets, ∃ cs, (ofOctets octets).units = Utf16.encode cs ∧
      ∀ kept, Utf8.WithoutBroken octets kept ↔ kept = Utf8.encode cs) ∧
    (∀ octets, Utf16.WellFormed (ofOctets octets).units) ∧
    (∀ octets, Utf16.ascii (ofOctets octets).units = (Utf8.ascii octets).map UInt8.toUInt16) ∧
    ∀ valid octets, Utf8.Valid valid →
      (ofOctets (valid ++ octets)).units = (ofOctets valid).units ++ (ofOctets octets).units := by
  refine ⟨fun check hcheck octets units => Utf8.returns_iff hcheck octets units, fun octets => ?_, fun octets => ?_,
    fun octets => ?_, fun valid octets hvalid => ?_⟩
  · exact ⟨Utf8.decode octets, rfl, fun kept => (Utf8.withoutBroken_iff octets kept).trans eq_comm⟩
  · exact Utf16.wellFormed_encode _
  · rw [Utf8.ascii_withoutBroken (Utf8.withoutBroken_encode_decode octets)]
    exact Utf16.ascii_encode _
  · show Utf16.encode _ = _
    rw [Utf8.decode_append_of_valid hvalid, Utf16.encode_append]
    rfl

/-- An `A`, a lone octet FF, an `é` that a `B` breaks off, and a euro sign that the end does. -/
theorem lenient_decoding_brokenOff :
    (∀ octets, Utf8.Reports octets (Utf8.check octets)) ∧
    Utf8.Returns Utf8.check ⟨[0x41, 0xFF, 0xC3, 0x42, 0xE2, 0x82], []⟩ [0x41, 0x42] ∧
    Utf8.Valid [0x41] ∧
    (ofOctets ([0x41] ++ [0xFF, 0xC3, 0x42, 0xE2, 0x82])).units =
      (ofOctets [0x41]).units ++ (ofOctets [0xFF, 0xC3, 0x42, 0xE2, 0x82]).units := by
  have hvalid : Utf8.Valid [0x41] := ⟨['A'], by decide⟩
  refine ⟨Utf8.reports_check, ?_, hvalid, lenient_decoding.2.2.2.2 _ _ hvalid⟩
  exact (lenient_decoding.1 Utf8.check Utf8.reports_check _ _).2 (by decide +kernel)

end Text

end ManagedRuntime
