import Mathlib.Data.List.Basic
import ManagedRuntime.Proofs.Encoding.Utf16
import ManagedRuntime.Utf8

/-!
# Octets and characters

* `Whole` : a lead with the octets of a whole sequence; these are exactly the octets of the characters;
* `Broken` : a broken sequence: no character stands there, and it is the longest beginning of one that does;
* `scan_cases` : scanning finds the character or the broken sequence that stands at a lead;
* `decode_encode` : every list of characters is what its octets decode to;
* `WithoutBroken` : octets and what is left of them without the broken sequences;
* `withoutBroken_iff` : this is what decoding and encoding leave.
-/

namespace ManagedRuntime.Utf8

set_option autoImplicit false

open String (utf8EncodeChar)

/-! ## Leads and continuations -/

theorem isContinuation_iff (b : UInt8) : isContinuation b = true ↔ 0x80 ≤ b.toNat ∧ b.toNat ≤ 0xBF := by
  simp [isContinuation, UInt8.le_iff_toNat_le]

theorem isSecond_iff (lead b : UInt8) : isSecond lead b = true ↔ (0x80 ≤ b.toNat ∧ b.toNat ≤ 0xBF) ∧
    (lead.toNat = 0xE0 → 0xA0 ≤ b.toNat) ∧ (lead.toNat = 0xED → b.toNat ≤ 0x9F) ∧
      (lead.toNat = 0xF0 → 0x90 ≤ b.toNat) ∧ (lead.toNat = 0xF4 → b.toNat ≤ 0x8F) := by
  have hE0 : lead = 0xE0 ↔ lead.toNat = 0xE0 := UInt8.toNat_inj.symm
  have hED : lead = 0xED ↔ lead.toNat = 0xED := UInt8.toNat_inj.symm
  have hF0 : lead = 0xF0 ↔ lead.toNat = 0xF0 := UInt8.toNat_inj.symm
  have hF4 : lead = 0xF4 ↔ lead.toNat = 0xF4 := UInt8.toNat_inj.symm
  unfold isSecond
  simp only [hE0, hED, hF0, hF4]
  split_ifs <;> simp [isContinuation, UInt8.le_iff_toNat_le] <;> omega

/-- The leads of the sequences of each length. -/
theorem announced?_eq_some_iff (lead : UInt8) (n : Nat) : announced? lead = some n ↔
    n = 0 ∧ lead.toNat < 0x80 ∨ n = 1 ∧ 0xC2 ≤ lead.toNat ∧ lead.toNat < 0xE0 ∨
      n = 2 ∧ 0xE0 ≤ lead.toNat ∧ lead.toNat < 0xF0 ∨ n = 3 ∧ 0xF0 ≤ lead.toNat ∧ lead.toNat < 0xF5 := by
  unfold announced?
  simp only [UInt8.lt_iff_toNat_lt]
  split_ifs <;> simp_all <;> omega

/-- The octets that may come after a lead, as far as there are any. -/
def Follows (lead : UInt8) : List UInt8 → Prop
  | [] => True
  | b :: tail => isSecond lead b = true ∧ ∀ c ∈ tail, isContinuation c = true

/-- As many octets follow the lead as it announces. -/
def Whole (lead : UInt8) (tail : List UInt8) : Prop := announced? lead = some tail.length ∧ Follows lead tail

theorem whole_zero (lead : UInt8) : Whole lead [] ↔ lead.toNat < 0x80 := by
  simp [Whole, Follows, announced?_eq_some_iff]

theorem whole_one (lead b : UInt8) :
    Whole lead [b] ↔ (0xC2 ≤ lead.toNat ∧ lead.toNat < 0xE0) ∧ isSecond lead b = true := by
  simp only [Whole, Follows, announced?_eq_some_iff, List.length_singleton, List.not_mem_nil]
  grind

theorem whole_two (lead b c : UInt8) : Whole lead [b, c] ↔
    (0xE0 ≤ lead.toNat ∧ lead.toNat < 0xF0) ∧ isSecond lead b = true ∧ isContinuation c = true := by
  simp only [Whole, Follows, announced?_eq_some_iff, List.length_cons, List.length_nil, List.forall_mem_singleton]
  grind

theorem whole_three (lead b c d : UInt8) : Whole lead [b, c, d] ↔ (0xF0 ≤ lead.toNat ∧ lead.toNat < 0xF5) ∧
    isSecond lead b = true ∧ isContinuation c = true ∧ isContinuation d = true := by
  simp only [Whole, Follows, announced?_eq_some_iff, List.length_cons, List.length_nil, List.forall_mem_cons,
    List.not_mem_nil]
  grind

/-! ## Whole sequences -/

/-- The number that the octets of a sequence spell. -/
def spelled (lead : UInt8) (tail : List UInt8) : Nat := tail.foldl extend (leadBits lead tail.length)

theorem utf8EncodeChar_eq (c : Char) : utf8EncodeChar c =
    if c.toNat ≤ 0x7F then [UInt8.ofNat c.toNat]
    else if c.toNat ≤ 0x7FF then [UInt8.ofNat (c.toNat / 64 % 32 + 192), UInt8.ofNat (c.toNat % 64 + 128)]
    else if c.toNat ≤ 0xFFFF then
      [UInt8.ofNat (c.toNat / 4096 % 16 + 224), UInt8.ofNat (c.toNat / 64 % 64 + 128), UInt8.ofNat (c.toNat % 64 + 128)]
    else
      [UInt8.ofNat (c.toNat / 262144 % 8 + 240), UInt8.ofNat (c.toNat / 4096 % 64 + 128),
        UInt8.ofNat (c.toNat / 64 % 64 + 128), UInt8.ofNat (c.toNat % 64 + 128)] := rfl

theorem toNat_ofNat_lt {n : Nat} (h : n < 256) : (UInt8.ofNat n).toNat = n := by
  rw [UInt8.toNat_ofNat', Nat.mod_eq_of_lt h]

theorem ofNat_eq_iff (n : Nat) (b : UInt8) : UInt8.ofNat n = b ↔ n % 256 = b.toNat := by
  rw [← UInt8.toNat_inj, UInt8.toNat_ofNat']

theorem spelled_zero (lead : UInt8) : spelled lead [] = lead.toNat := rfl

theorem spelled_one (lead b : UInt8) : spelled lead [b] = lead.toNat % 32 * 64 + b.toNat % 64 := rfl

theorem spelled_two (lead b c : UInt8) :
    spelled lead [b, c] = (lead.toNat % 16 * 64 + b.toNat % 64) * 64 + c.toNat % 64 := rfl

theorem spelled_three (lead b c d : UInt8) :
    spelled lead [b, c, d] = ((lead.toNat % 8 * 64 + b.toNat % 64) * 64 + c.toNat % 64) * 64 + d.toNat % 64 := rfl

/-- The octets of a whole sequence are those of the character that they spell. -/
theorem utf8EncodeChar_spelled {lead : UInt8} {tail : List UInt8} (h : Whole lead tail) :
    utf8EncodeChar (Char.ofNat (spelled lead tail)) = lead :: tail := by
  match tail with
  | [] =>
    rw [whole_zero] at h
    have hv := Utf16.toNat_ofNat_of_valid (n := spelled lead []) (by rw [spelled_zero]; omega)
    rw [utf8EncodeChar_eq, hv, spelled_zero, if_pos (by omega), UInt8.ofNat_toNat]
  | [b] =>
    rw [whole_one, isSecond_iff] at h
    have hsp := spelled_one lead b
    have hv := Utf16.toNat_ofNat_of_valid (n := spelled lead [b]) (by omega)
    rw [utf8EncodeChar_eq, hv, if_neg (by omega), if_pos (by omega)]
    simp only [List.cons.injEq, ofNat_eq_iff, and_true]
    omega
  | [b, c] =>
    rw [whole_two, isSecond_iff, isContinuation_iff] at h
    have hsp := spelled_two lead b c
    have hv := Utf16.toNat_ofNat_of_valid (n := spelled lead [b, c]) (by omega)
    rw [utf8EncodeChar_eq, hv, if_neg (by omega), if_neg (by omega), if_pos (by omega)]
    simp only [List.cons.injEq, ofNat_eq_iff, and_true]
    omega
  | [b, c, d] =>
    rw [whole_three, isSecond_iff, isContinuation_iff, isContinuation_iff] at h
    have hsp := spelled_three lead b c d
    have hv := Utf16.toNat_ofNat_of_valid (n := spelled lead [b, c, d]) (by omega)
    rw [utf8EncodeChar_eq, hv, if_neg (by omega), if_neg (by omega), if_neg (by omega)]
    simp only [List.cons.injEq, ofNat_eq_iff, and_true]
    omega
  | _ :: _ :: _ :: _ :: _ =>
    have hn := (announced?_eq_some_iff _ _).1 h.1
    simp only [List.length_cons] at hn
    omega

/-- The octets of every character are a whole sequence. -/
theorem exists_whole (c : Char) : ∃ lead tail, utf8EncodeChar c = lead :: tail ∧ Whole lead tail ∧
    spelled lead tail = c.toNat := by
  have hvalid := Utf16.toNat_valid c
  rw [utf8EncodeChar_eq]
  split_ifs
  · refine ⟨_, _, rfl, ?_, ?_⟩
    · rw [whole_zero, toNat_ofNat_lt (by omega)]
      omega
    · rw [spelled_zero, toNat_ofNat_lt (by omega)]
  · refine ⟨_, _, rfl, ?_, ?_⟩
    · rw [whole_one, isSecond_iff, toNat_ofNat_lt (by omega), toNat_ofNat_lt (by omega)]
      omega
    · rw [spelled_one, toNat_ofNat_lt (by omega), toNat_ofNat_lt (by omega)]
      omega
  · refine ⟨_, _, rfl, ?_, ?_⟩
    · rw [whole_two, isSecond_iff, isContinuation_iff, toNat_ofNat_lt (by omega), toNat_ofNat_lt (by omega),
        toNat_ofNat_lt (by omega)]
      omega
    · rw [spelled_two, toNat_ofNat_lt (by omega), toNat_ofNat_lt (by omega), toNat_ofNat_lt (by omega)]
      omega
  · refine ⟨_, _, rfl, ?_, ?_⟩
    · rw [whole_three, isSecond_iff, isContinuation_iff, isContinuation_iff, toNat_ofNat_lt (by omega),
        toNat_ofNat_lt (by omega), toNat_ofNat_lt (by omega), toNat_ofNat_lt (by omega)]
      omega
    · rw [spelled_three, toNat_ofNat_lt (by omega), toNat_ofNat_lt (by omega), toNat_ofNat_lt (by omega),
        toNat_ofNat_lt (by omega)]
      omega
/-! ## Scanning -/

theorem scanRest_append {tail : List UInt8} (h : ∀ b ∈ tail, isContinuation b = true) (value taken : Nat)
    (rest : List UInt8) : scanRest tail.length value taken (tail ++ rest) =
      .character (Char.ofNat (tail.foldl extend value)) (taken + tail.length) := by
  induction tail generalizing value taken with
  | nil => rfl
  | cons b tail ih =>
    rw [List.forall_mem_cons] at h
    rw [List.length_cons, List.cons_append, scanRest, if_pos h.1, ih h.2, List.foldl_cons, Nat.add_right_comm]
    rfl

theorem scan_whole {lead : UInt8} {tail : List UInt8} (h : Whole lead tail) (rest : List UInt8) :
    scan lead (tail ++ rest) = .character (Char.ofNat (spelled lead tail)) tail.length := by
  obtain ⟨hn, hf⟩ := h
  unfold scan
  rw [hn]
  cases tail with
  | nil => rfl
  | cons b tail =>
    simp only [List.length_cons, List.cons_append, if_pos hf.1, scanRest_append hf.2, spelled, List.foldl_cons,
      Nat.add_comm 1]

theorem scan_utf8EncodeChar (c : Char) : ∃ lead tail, utf8EncodeChar c = lead :: tail ∧
    ∀ rest, scan lead (tail ++ rest) = .character c tail.length := by
  obtain ⟨lead, tail, hc, hwhole, hspelled⟩ := exists_whole c
  refine ⟨lead, tail, hc, fun rest => ?_⟩
  rw [scan_whole hwhole, hspelled, Char.ofNat_toNat]

/-- As many octets as continue a sequence, and why there are no more of them. -/
theorem scanRest_cases (missing value taken : Nat) (rest : List UInt8) :
    ∃ tail rest', rest = tail ++ rest' ∧ (∀ b ∈ tail, isContinuation b = true) ∧
      (tail.length = missing ∨ tail.length < missing ∧ (∀ b ∈ rest'.head?, ¬ isContinuation b = true) ∧
        (scanRest missing value taken rest = .broken (taken + tail.length) ∨
          scanRest missing value taken rest = .truncated ∧ rest' = [])) := by
  induction missing generalizing value taken rest with
  | zero => exact ⟨[], rest, rfl, List.forall_mem_nil _, .inl rfl⟩
  | succ missing ih =>
    cases rest with
    | nil => exact ⟨[], [], rfl, List.forall_mem_nil _, .inr ⟨Nat.succ_pos _, by simp, .inr ⟨rfl, rfl⟩⟩⟩
    | cons b rest =>
      by_cases hb : isContinuation b = true
      · obtain ⟨tail, rest', rfl, htail, hcase⟩ := ih (extend value b) (taken + 1) rest
        have hcount : taken + 1 + tail.length = taken + (b :: tail).length := by
          rw [List.length_cons, Nat.add_assoc, Nat.add_comm 1]
        rw [scanRest, if_pos hb]
        rw [hcount] at hcase
        refine ⟨b :: tail, rest', rfl, List.forall_mem_cons.2 ⟨hb, htail⟩, ?_⟩
        exact hcase.imp (congrArg Nat.succ) fun h => ⟨Nat.succ_lt_succ h.1, h.2⟩
      · refine ⟨[], b :: rest, rfl, List.forall_mem_nil _, .inr ⟨Nat.succ_pos _, by simpa using hb, .inl ?_⟩⟩
        rw [scanRest, if_neg hb]
        rfl

/-! ## Characters and broken sequences -/

/-- Some character has these octets or more. -/
def Begins (octets : List UInt8) : Prop := ∃ c, octets <+: utf8EncodeChar c

/--
A broken sequence in front of what comes after it: no character begins here, and it is the longest beginning
of a character that stands here, or a single octet if there is none.
-/
structure Broken (piece rest : List UInt8) : Prop where
  nonempty : piece ≠ []
  noCharacter : ∀ c, ¬ utf8EncodeChar c <+: piece ++ rest
  begins : piece.length = 1 ∨ Begins piece
  longest : ∀ octets, octets <+: piece ++ rest → Begins octets → octets.length ≤ piece.length

theorem Broken.length_le {piece rest piece' rest' : List UInt8} (h : Broken piece rest) (h' : Broken piece' rest')
    (heq : piece ++ rest = piece' ++ rest') : piece.length ≤ piece'.length := by
  rcases h.begins with hone | hbegins
  · rw [hone]
    exact List.length_pos_of_ne_nil h'.nonempty
  · refine h'.longest piece ?_ hbegins
    rw [← heq]
    exact List.prefix_append piece rest

/-- Where a broken sequence stands, its length is determined. -/
theorem Broken.unique {piece rest piece' rest' : List UInt8} (h : Broken piece rest) (h' : Broken piece' rest')
    (heq : piece ++ rest = piece' ++ rest') : piece = piece' ∧ rest = rest' :=
  List.append_inj heq (Nat.le_antisymm (h.length_le h' heq) (h'.length_le h heq.symm))

theorem Follows.mono {lead : UInt8} {tail tail' : List UInt8} (h : Follows lead tail') (hp : tail <+: tail') :
    Follows lead tail := by
  obtain ⟨rest, rfl⟩ := hp
  cases tail with
  | nil => trivial
  | cons b tail => exact ⟨h.1, fun c hc => h.2 c (List.mem_append_left _ hc)⟩

theorem exists_isSecond (lead : UInt8) : ∃ b, isSecond lead b = true := by
  simp only [isSecond_iff]
  by_cases h : lead.toNat = 0xED
  · exact ⟨0x80, by simp [h]⟩
  · by_cases h' : lead.toNat = 0xF4
    · exact ⟨0x80, by simp [h']⟩
    · exact ⟨0xBF, by simp [h, h']⟩

/-- What may follow a lead can be completed. -/
theorem exists_whole_of_follows {lead : UInt8} {tail : List UInt8} {n : Nat} (hn : announced? lead = some n)
    (hle : tail.length ≤ n) (h : Follows lead tail) : ∃ rest, Whole lead (tail ++ rest) := by
  have hfill : ∀ k, ∀ c ∈ List.replicate k (0x80 : UInt8), isContinuation c = true := fun k c hc => by
    rw [List.eq_of_mem_replicate hc]
    rfl
  cases tail with
  | nil =>
    obtain ⟨b, hb⟩ := exists_isSecond lead
    cases n with
    | zero => exact ⟨[], hn, trivial⟩
    | succ n => exact ⟨b :: List.replicate n 0x80, by simpa using hn, hb, hfill n⟩
  | cons b tail =>
    refine ⟨List.replicate (n - (b :: tail).length) 0x80, ?_, h.1, fun c hc => ?_⟩
    · rw [List.length_append, List.length_replicate, Nat.add_sub_cancel' hle, hn]
    · exact (List.mem_append.1 hc).elim (h.2 c) (hfill _ c)

theorem begins_iff (lead : UInt8) (tail : List UInt8) :
    Begins (lead :: tail) ↔ ∃ n, announced? lead = some n ∧ tail.length ≤ n ∧ Follows lead tail := by
  constructor
  · rintro ⟨c, hc⟩
    obtain ⟨lead', tail', he, hwhole, -⟩ := exists_whole c
    rw [he, List.cons_prefix_cons] at hc
    obtain ⟨rfl, hp⟩ := hc
    exact ⟨_, hwhole.1, hp.length_le, hwhole.2.mono hp⟩
  · rintro ⟨n, hn, hle, hf⟩
    obtain ⟨rest, hwhole⟩ := exists_whole_of_follows hn hle hf
    refine ⟨Char.ofNat (spelled lead (tail ++ rest)), rest, ?_⟩
    rw [utf8EncodeChar_spelled hwhole]
    rfl

theorem Begins.mono {octets octets' : List UInt8} (h : Begins octets') (hp : octets <+: octets') :
    Begins octets := h.imp fun _ hc => hp.trans hc

/-- A sequence that is not whole is broken where no further octet can follow. -/
theorem broken_of_stop {lead : UInt8} {tail rest : List UInt8} (hwhole : ¬ Whole lead tail)
    (hbegins : tail = [] ∨ Begins (lead :: tail)) (hstop : ∀ b ∈ rest.head?, ¬ Begins (lead :: tail ++ [b])) :
    Broken (lead :: tail) rest := by
  have hlongest : ∀ octets, octets <+: lead :: tail ++ rest → Begins octets →
      octets.length ≤ (lead :: tail).length := by
    intro octets hp ho
    by_contra hlt
    cases rest with
    | nil =>
      rw [List.append_nil] at hp
      exact hlt hp.length_le
    | cons b rest =>
      have hnext : lead :: tail ++ [b] <+: lead :: tail ++ b :: rest := ⟨rest, by simp⟩
      have hlen : (lead :: tail ++ [b]).length ≤ octets.length := by
        rw [List.length_append, List.length_singleton]
        omega
      exact hstop b rfl (ho.mono (List.prefix_of_prefix_length_le hnext hp hlen))
  refine ⟨List.cons_ne_nil _ _, fun c hc => hwhole ?_, hbegins.imp (fun h => by rw [h]; rfl) id, hlongest⟩
  -- A character that stands here is no longer than the sequence, and as long as its lead announces.
  have hin := List.prefix_of_prefix_length_le hc (List.prefix_append _ rest) (hlongest _ hc ⟨c, List.prefix_rfl⟩)
  obtain ⟨lead', tail', he, hwhole', -⟩ := exists_whole c
  rw [he, List.cons_prefix_cons] at hin
  obtain ⟨rfl, hp⟩ := hin
  have hle : tail.length ≤ tail'.length := by
    rcases hbegins with rfl | hbegins
    · exact Nat.zero_le _
    · obtain ⟨n, hn, hle, -⟩ := (begins_iff _ _).1 hbegins
      rw [hwhole'.1, Option.some_inj] at hn
      rwa [hn]
  rwa [← hp.eq_of_length_le hle]

/-! ## Decoding -/

/-- A lead and what comes after it: a character, or a broken sequence and the rest. -/
theorem scan_cases (lead : UInt8) (rest : List UInt8) :
    (∃ tail rest', rest = tail ++ rest' ∧ Whole lead tail) ∨
      ∃ tail rest', rest = tail ++ rest' ∧ Broken (lead :: tail) rest' ∧
        (scan lead rest = .broken tail.length ∨ scan lead rest = .truncated ∧ rest' = []) := by
  unfold scan
  cases hn : announced? lead with
  | none =>
    have hnot : ∀ tail, ¬ Begins (lead :: tail) := fun tail h => by simp [begins_iff, hn] at h
    have hwhole : ¬ Whole lead [] := fun h => by simp [Whole, hn] at h
    exact .inr ⟨[], rest, rfl, broken_of_stop hwhole (.inl rfl) fun b _ => hnot [b], .inl rfl⟩
  | some n =>
    have hshort : ∀ tail, tail.length < n → ¬ Whole lead tail := fun tail hlt h => by
      rw [Whole, hn, Option.some_inj] at h
      exact Nat.ne_of_gt hlt h.1
    cases n with
    | zero => exact .inl ⟨[], rest, rfl, hn, trivial⟩
    | succ n =>
      have hnone := hshort [] (Nat.succ_pos n)
      cases rest with
      | nil => exact .inr ⟨[], [], rfl, broken_of_stop hnone (.inl rfl) (by simp), .inr ⟨rfl, rfl⟩⟩
      | cons b rest =>
        dsimp only
        split
        case isFalse hb =>
          refine .inr ⟨[], b :: rest, rfl, broken_of_stop hnone (.inl rfl) fun b' hb' h => ?_, .inl rfl⟩
          obtain ⟨-, -, -, hf⟩ := (begins_iff lead [b']).1 h
          cases hb'
          exact hb hf.1
        case isTrue hb =>
          obtain ⟨tail, rest', rfl, htail, hcase⟩ := scanRest_cases n (extend (leadBits lead (n + 1)) b) 1 rest
          rcases hcase with hlen | ⟨hlt, hstop, hresult⟩
          · exact .inl ⟨b :: tail, rest', rfl, by rw [hn, List.length_cons, hlen], hb, htail⟩
          · have hbegins : Begins (lead :: b :: tail) :=
              (begins_iff _ _).2 ⟨n + 1, hn, Nat.succ_le_succ (Nat.le_of_lt hlt), hb, htail⟩
            refine .inr ⟨b :: tail, rest', rfl, broken_of_stop (hshort _ (Nat.succ_lt_succ hlt)) (.inr hbegins)
              fun c hc h => ?_, ?_⟩
            · obtain ⟨-, -, -, hf⟩ := (begins_iff lead (b :: tail ++ [c])).1 h
              exact hstop c hc (hf.2 c (by simp))
            · rwa [List.length_cons, Nat.add_comm tail.length]

theorem decode_cons (lead : UInt8) (rest : List UInt8) : decode (lead :: rest) =
    match scan lead rest with
    | .character c following => c :: decode (rest.drop following)
    | .broken following => decode (rest.drop following)
    | .truncated => [] := by
  cases h : scan lead rest <;> rw [decode, h]

theorem decode_character (c : Char) (rest : List UInt8) : decode (utf8EncodeChar c ++ rest) = c :: decode rest := by
  obtain ⟨lead, tail, hc, hscan⟩ := scan_utf8EncodeChar c
  rw [hc, List.cons_append, decode_cons, hscan]
  exact congrArg (fun rest => c :: decode rest) List.drop_left

theorem encode_cons (c : Char) (cs : List Char) : encode (c :: cs) = utf8EncodeChar c ++ encode cs := rfl

/-- **Every list of characters is what its octets decode to.** -/
theorem decode_encode (cs : List Char) : decode (encode cs) = cs := by
  induction cs with
  | nil => exact decode_nil
  | cons c cs ih => rw [encode_cons, decode_character, ih]

theorem decode?_character (c : Char) (rest : List UInt8) :
    decode? (utf8EncodeChar c ++ rest) = (decode? rest).map (c :: ·) := by
  obtain ⟨lead, tail, hc, hscan⟩ := scan_utf8EncodeChar c
  rw [hc, List.cons_append, decode?, hscan rest]
  dsimp only
  rw [List.drop_left]

/-- The octets of characters are well-formed. -/
theorem decode?_encode (cs : List Char) : decode? (encode cs) = some cs := by
  induction cs with
  | nil => rw [encode_nil, decode?]
  | cons c cs ih => rw [encode_cons, decode?_character, ih, Option.map_some]

/-- Octets begin with a character, or with a broken sequence that leaves no trace. -/
theorem split_octets (octets : List UInt8) : octets = [] ∨
    (∃ c rest, octets = utf8EncodeChar c ++ rest) ∨
      ∃ piece rest, octets = piece ++ rest ∧ Broken piece rest ∧ decode octets = decode rest := by
  cases octets with
  | nil => exact .inl rfl
  | cons lead rest =>
    rcases scan_cases lead rest with ⟨tail, rest', rfl, hwhole⟩ | ⟨tail, rest', rfl, hbroken, hscan⟩
    · exact .inr (.inl ⟨_, rest', by rw [utf8EncodeChar_spelled hwhole]; rfl⟩)
    · refine .inr (.inr ⟨lead :: tail, rest', rfl, hbroken, ?_⟩)
      rw [decode_cons]
      rcases hscan with hscan | ⟨hscan, rfl⟩
      · rw [hscan]
        exact congrArg decode List.drop_left
      · rw [hscan]
        exact decode_nil.symm

theorem decode_broken {piece rest : List UInt8} (h : Broken piece rest) : decode (piece ++ rest) = decode rest := by
  rcases split_octets (piece ++ rest) with hnil | ⟨c, rest', hc⟩ | ⟨piece', rest', heq, hbroken, hdecode⟩
  · exact absurd (List.append_eq_nil_iff.1 hnil).1 h.nonempty
  · exact absurd (hc ▸ List.prefix_append _ rest') (h.noCharacter c)
  · rw [hdecode, (h.unique hbroken heq).2]

/-! ## What decoding keeps -/

/-- Octets that are those of some characters. -/
def Valid (octets : List UInt8) : Prop := ∃ cs, encode cs = octets

/-- Octets, and what is left of them without the broken sequences. -/
inductive WithoutBroken : List UInt8 → List UInt8 → Prop where
  | nil : WithoutBroken [] []
  | character (c : Char) {rest kept : List UInt8} (h : WithoutBroken rest kept) :
    WithoutBroken (utf8EncodeChar c ++ rest) (utf8EncodeChar c ++ kept)
  | broken {piece rest kept : List UInt8} (hb : Broken piece rest) (h : WithoutBroken rest kept) :
    WithoutBroken (piece ++ rest) kept

theorem withoutBroken_encode_decode (octets : List UInt8) : WithoutBroken octets (encode (decode octets)) := by
  induction hn : octets.length using Nat.strongRecOn generalizing octets with
  | ind n ih =>
    rcases split_octets octets with rfl | ⟨c, rest, rfl⟩ | ⟨piece, rest, rfl, hbroken, -⟩
    · rw [decode_nil]
      exact .nil
    · have hpos : 0 < (utf8EncodeChar c).length := by
        rw [String.length_utf8EncodeChar]
        exact c.utf8Size_pos
      rw [List.length_append] at hn
      rw [decode_character, encode_cons]
      exact .character c (ih _ (by omega) rest rfl)
    · have hpos := List.length_pos_of_ne_nil hbroken.nonempty
      rw [List.length_append] at hn
      rw [decode_broken hbroken]
      exact .broken hbroken (ih _ (by omega) rest rfl)

theorem withoutBroken_iff (octets kept : List UInt8) : WithoutBroken octets kept ↔ encode (decode octets) = kept := by
  constructor
  · intro h
    induction h with
    | nil => rw [decode_nil, encode_nil]
    | character c _ ih => rw [decode_character, encode_cons, ih]
    | broken hb _ ih => rw [decode_broken hb, ih]
  · rintro rfl
    exact withoutBroken_encode_decode octets

end ManagedRuntime.Utf8
