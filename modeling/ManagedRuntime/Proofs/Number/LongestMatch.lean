import ManagedRuntime.Proofs.Number.Grammar

/-!
# Longest matches

What is counted at the beginning of some units is the length of their longest beginning in a language.

* `Finds` : a length is that of the longest beginning in a language, and there is none only if no beginning is in it;
* `mantissaLength?_finds`, `exponentLength_finds`, `decimalLength?_finds` : digits, where a point and a mark may dangle;
* `wordLength?_finds` : words, of which one begins another one;
* `floatLength?_finds` : numbers.
-/

namespace ManagedRuntime.LeadingNumber

set_option autoImplicit false

/-! ## Lengths of longest matches -/

/-- The length of the longest beginning in a language. -/
structure Finds (language : List UInt16 → Prop) (us : List UInt16) (length? : Option Nat) : Prop where
  found : ∀ n, length? = some n → ∃ ys zs, us = ys ++ zs ∧ language ys ∧ ys.length = n
  longest : ∀ ys zs, us = ys ++ zs → language ys → ∃ n, length? = some n ∧ ys.length ≤ n

theorem positive?_of_pos {n : Nat} (h : 0 < n) : positive? n = some n := if_pos h

theorem positive?_eq_some_iff {n m : Nat} : positive? n = some m ↔ 0 < n ∧ n = m := by
  rw [positive?]
  split <;> simp [*]

section

variable {us ds fs rest : List UInt16}

/-! ## Mantissas -/

theorem mantissaLength?_of_stops (hds : ∀ d ∈ ds, isDigit d = true) (hdigit : Stops isDigit rest)
    (hpoint : Stops (· == unit '.') rest) : mantissaLength? (ds ++ rest) = positive? ds.length := by
  rw [mantissaLength?, countDigits_append_of_stops hds hdigit, List.drop_left]
  cases rest with
  | nil => rfl
  | cons u rest => exact if_neg (by simpa using stops_cons.1 hpoint)

theorem mantissaLength?_point (hds : ∀ d ∈ ds, isDigit d = true) :
    mantissaLength? (ds ++ unit '.' :: rest) = (positive? (ds.length + countDigits rest)).map (· + 1) := by
  have hstop : Stops isDigit (unit '.' :: rest) := stops_cons.2 (by decide)
  rw [mantissaLength?, countDigits_append_of_stops hds hstop, List.drop_left]
  exact if_pos rfl

/-- Digits are counted up to a point or up to something else. -/
theorem digits_cases (us : List UInt16) : ∃ ds rest, us = ds ++ rest ∧ (∀ d ∈ ds, isDigit d = true) ∧
    ((∃ tail, rest = unit '.' :: tail) ∨ Stops isDigit rest ∧ Stops (· == unit '.') rest) := by
  obtain ⟨ds, rest, rfl, hds, hstop⟩ := exists_stops isDigit us
  refine ⟨ds, rest, rfl, hds, ?_⟩
  cases rest with
  | nil => exact .inr ⟨stops_nil, stops_nil⟩
  | cons u tail =>
    by_cases hu : u = unit '.'
    · exact .inl ⟨tail, by rw [hu]⟩
    · exact .inr ⟨hstop, stops_cons.2 (beq_eq_false_iff_ne.2 hu)⟩

def IsMantissa (us : List UInt16) : Prop := ∃ ds decimals, Mantissa us ds decimals

theorem isMantissa_of_mantissaLength? {n : Nat} (h : mantissaLength? us = some n) :
    ∃ ys zs, us = ys ++ zs ∧ IsMantissa ys ∧ ys.length = n := by
  obtain ⟨ds, rest, rfl, hds, ⟨tail, rfl⟩ | ⟨hdigit, hpoint⟩⟩ := digits_cases us
  · obtain ⟨fs, rest, rfl, hfs, hstop⟩ := exists_stops isDigit tail
    rw [mantissaLength?_point hds, countDigits_append_of_stops hfs hstop, Option.map_eq_some_iff] at h
    obtain ⟨m, hm, rfl⟩ := h
    obtain ⟨hpos, rfl⟩ := positive?_eq_some_iff.1 hm
    have hne : ds ++ fs ≠ [] := List.ne_nil_of_length_pos (by rwa [List.length_append])
    exact ⟨ds ++ unit '.' :: fs, rest, by simp, ⟨_, _, .pointed hne hds hfs⟩, by simp; omega⟩
  · rw [mantissaLength?_of_stops hds hdigit hpoint, positive?_eq_some_iff] at h
    exact ⟨ds, rest, rfl, ⟨_, _, .whole (List.ne_nil_of_length_pos h.1) hds⟩, h.2⟩

/-- Digits in front are part of the mantissa, whatever comes behind them. -/
theorem countDigits_le_mantissaLength? (h : 0 < countDigits us) :
    ∃ n, mantissaLength? us = some n ∧ countDigits us ≤ n := by
  obtain ⟨ds, rest, rfl, hds, ⟨tail, rfl⟩ | ⟨hdigit, hpoint⟩⟩ := digits_cases us
  · rw [countDigits_append_of_stops hds (stops_cons.2 (by decide))] at h ⊢
    rw [mantissaLength?_point hds, positive?_of_pos (by omega), Option.map_some]
    exact ⟨_, rfl, by omega⟩
  · rw [countDigits_append_of_stops hds hdigit] at h ⊢
    rw [mantissaLength?_of_stops hds hdigit hpoint, positive?_of_pos h]
    exact ⟨_, rfl, Nat.le_refl _⟩

theorem mantissaLength?_finds (us : List UInt16) : Finds IsMantissa us (mantissaLength? us) where
  found _ h := isMantissa_of_mantissaLength? h
  longest := by
    rintro ys zs rfl ⟨ds, decimals, h⟩
    cases h with
    | whole hne hds =>
      have hcount : countDigits (ys ++ zs) = ys.length + countDigits zs := countDigits_append hds
      have hpos := List.length_pos_iff.2 hne
      have hcountPos : 0 < countDigits (ys ++ zs) := by omega
      obtain ⟨n, hlength, hn⟩ := countDigits_le_mantissaLength? hcountPos
      exact ⟨n, hlength, by omega⟩
    | @pointed ds fs hne hds hfs =>
      have hpos : 0 < ds.length + fs.length := by
        rw [← List.length_append]
        exact List.length_pos_iff.2 hne
      rw [List.append_assoc, List.cons_append, mantissaLength?_point hds, countDigits_append hfs,
        positive?_of_pos (by omega)]
      exact ⟨_, rfl, by simp; omega⟩

/-! ## Powers of ten -/

def IsPower (us : List UInt16) : Prop := ∃ exponent, Power us exponent

theorem exponentLength_cons {mark : UInt16} {sign body : List UInt16} {negative : Bool} (hsigned : Signed sign negative)
    (hstop : sign = [] → Stops isSign body) : exponentLength (mark :: (sign ++ body)) =
      if (mark = unit 'e' ∨ mark = unit 'E') ∧ 0 < countDigits body then 1 + sign.length + countDigits body else 0 := by
  rw [exponentLength, hsigned.countSign_append hstop, List.drop_left]

theorem exponentLength_finds (us : List UInt16) : Finds IsPower us (some (exponentLength us)) where
  found := by
    rintro _ ⟨rfl⟩
    cases us with
    | nil => exact ⟨[], [], rfl, ⟨0, .absent⟩, rfl⟩
    | cons mark rest =>
      obtain ⟨sign, body, negative, rfl, hsigned, hsign⟩ := exists_signed rest
      obtain ⟨ds, rest, rfl, hds, hstop⟩ := exists_stops isDigit body
      rw [exponentLength_cons hsigned hsign, countDigits_append_of_stops hds hstop]
      split
      next h =>
        have hne : ds ≠ [] := List.ne_nil_of_length_pos h.2
        exact ⟨mark :: (sign ++ ds), rest, by simp, ⟨_, .marked h.1 hsigned hne hds⟩, by simp; omega⟩
      next => exact ⟨[], _, rfl, ⟨0, .absent⟩, rfl⟩
  longest := by
    rintro ys zs rfl ⟨exponent, h⟩
    refine ⟨_, rfl, ?_⟩
    cases h with
    | absent => exact Nat.zero_le _
    | @marked mark sign ds negative hmark hsigned hne hds =>
      have hpos := List.length_pos_iff.2 hne
      have hstop : Stops isSign (ds ++ zs) := by
        obtain ⟨d, tail, rfl⟩ := List.exists_cons_of_ne_nil hne
        exact stops_cons.2 (isSign_of_isDigit d (hds d List.mem_cons_self))
      rw [List.cons_append, List.append_assoc, exponentLength_cons hsigned fun _ => hstop, countDigits_append hds,
        if_pos ⟨hmark, by omega⟩]
      simp
      omega

/-! ## Decimals -/

def IsDecimal (us : List UInt16) : Prop := ∃ ms ps, us = ms ++ ps ∧ IsMantissa ms ∧ IsPower ps

/-- A mantissa in front of a mark is not part of a longer one. -/
theorem mantissa_eq_of_mark {found ms tail : List UInt16} {mark : UInt16} (hmark : mark = unit 'e' ∨ mark = unit 'E')
    (hfound : IsMantissa found) (hle : ms.length ≤ found.length) (h : ms ++ mark :: tail = found ++ rest) :
    found = ms := by
  obtain ⟨as, rfl, htail⟩ | ⟨as, rfl, -⟩ := List.append_eq_append_iff.1 h
  · cases as with
    | nil => exact List.append_nil ms
    | cons a as =>
      obtain ⟨ds, decimals, hmantissa⟩ := hfound
      have hbound := (hmantissa.bounds (List.mem_append_right ms List.mem_cons_self)).2
      rw [List.cons_append, List.cons.injEq] at htail
      obtain ⟨rfl, -⟩ := htail
      obtain rfl | rfl := hmark <;> exact absurd hbound (by decide)
  · rw [List.length_append] at hle
    rw [List.eq_nil_of_length_eq_zero (l := as) (by omega), List.append_nil]

theorem decimalLength?_finds (us : List UInt16) : Finds IsDecimal us (decimalLength? us) where
  found n h := by
    obtain ⟨m, hm, rfl⟩ := Option.map_eq_some_iff.1 h
    obtain ⟨ms, rest, rfl, hmantissa, rfl⟩ := (mantissaLength?_finds us).found m hm
    obtain ⟨ps, zs, rfl, hpower, hlength⟩ := (exponentLength_finds rest).found _ rfl
    rw [List.drop_left, ← hlength]
    exact ⟨ms ++ ps, zs, (List.append_assoc ..).symm, ⟨ms, ps, rfl, hmantissa, hpower⟩, List.length_append⟩
  longest := by
    rintro _ zs rfl ⟨ms, ps, rfl, hmantissa, exponent, hpower⟩
    rw [List.append_assoc]
    obtain ⟨n, hn, hle⟩ := (mantissaLength?_finds (ms ++ (ps ++ zs))).longest ms _ rfl hmantissa
    rw [decimalLength?, hn, Option.map_some]
    refine ⟨_, rfl, ?_⟩
    rw [List.length_append]
    cases hpower with
    | absent => exact Nat.le_add_right_of_le hle
    | @marked mark sign ds negative hmark hsigned hne hds =>
      obtain ⟨found, rest, heq, hfound, rfl⟩ := (mantissaLength?_finds _).found n hn
      obtain rfl := mantissa_eq_of_mark hmark hfound hle heq
      rw [List.drop_left]
      obtain ⟨_, ⟨rfl⟩, hpower⟩ := (exponentLength_finds (mark :: (sign ++ ds) ++ zs)).longest _ zs rfl
        ⟨_, .marked hmark hsigned hne hds⟩
      omega

/-! ## Words -/

def IsWord (us : List UInt16) : Prop := ∃ entry ∈ Literal.words, SpellsWord us entry.1

/-- The longer words are looked for first. -/
theorem words_sorted : Literal.words.Pairwise fun a b => b.1.length ≤ a.1.length := by decide

theorem length_le_of_find? {p : String × Literal → Bool} {first entry : String × Literal}
    (hfind : Literal.words.find? p = some first) (hmem : entry ∈ Literal.words) (hentry : p entry = true) :
    entry.1.length ≤ first.1.length := by
  obtain ⟨-, front, back, hwords, hfront⟩ := List.find?_eq_some_iff_append.1 hfind
  have hsorted := words_sorted
  rw [hwords, List.pairwise_append, List.pairwise_cons] at hsorted
  rw [hwords] at hmem
  obtain hmem | hmem := List.mem_append.1 hmem
  · have hnot := hfront entry hmem
    rw [hentry] at hnot
    cases hnot
  obtain rfl | hmem := List.mem_cons.1 hmem
  · exact Nat.le_refl _
  · exact hsorted.2.1.1 entry hmem

theorem SpellsWord.length_eq {word : String} (h : SpellsWord us word) : us.length = word.length :=
  (List.Forall₂.length_eq h).trans String.length_toList

/-- Whether some units begin with a word. -/
def beginsWith (us : List UInt16) (entry : String × Literal) : Bool :=
  (entry.1.toList.map unit).isPrefixOf (us.map Text.lowerUnit)

theorem wordLength?_eq (us : List UInt16) :
    wordLength? us = (Literal.words.find? (beginsWith us)).map fun entry => entry.1.length := rfl

theorem beginsWith_iff {entry : String × Literal} (h : entry ∈ Literal.words) :
    beginsWith us entry = true ↔ ∃ ys zs, us = ys ++ zs ∧ SpellsWord ys entry.1 := by
  rw [beginsWith, List.isPrefixOf_iff_prefix]
  constructor
  · rintro ⟨tail, htail⟩
    obtain ⟨ys, zs, rfl, hys, -⟩ := List.map_eq_append_iff.1 htail.symm
    exact ⟨ys, zs, rfl, (spellsWord_iff h).2 hys⟩
  · rintro ⟨ys, zs, rfl, hys⟩
    rw [List.map_append, (spellsWord_iff h).1 hys]
    exact List.prefix_append _ _

theorem wordLength?_finds (us : List UInt16) : Finds IsWord us (wordLength? us) where
  found n h := by
    rw [wordLength?_eq] at h
    obtain ⟨entry, hfind, rfl⟩ := Option.map_eq_some_iff.1 h
    have hmem := List.mem_of_find?_eq_some hfind
    obtain ⟨ys, zs, rfl, hword⟩ := (beginsWith_iff hmem).1 (List.find?_some hfind)
    exact ⟨ys, zs, rfl, ⟨entry, hmem, hword⟩, hword.length_eq⟩
  longest := by
    rintro ys zs rfl ⟨entry, hmem, hword⟩
    have hbegins := (beginsWith_iff hmem).2 ⟨ys, zs, rfl, hword⟩
    obtain ⟨first, hfind⟩ := Option.isSome_iff_exists.1 (List.find?_isSome.2 ⟨entry, hmem, hbegins⟩)
    rw [wordLength?_eq, hfind, Option.map_some, hword.length_eq]
    exact ⟨_, rfl, length_le_of_find? hfind hmem hbegins⟩

/-! ## Bodies -/

theorem exists_body_iff : (∃ literal, Body us literal) ↔ IsWord us ∨ IsDecimal us := by
  constructor
  · rintro ⟨literal, h⟩
    cases h with
    | @word _ word _ hmem hword => exact .inl ⟨(word, literal), hmem, hword⟩
    | decimal hm hp => exact .inr ⟨_, _, rfl, ⟨_, _, hm⟩, ⟨_, hp⟩⟩
  · rintro (⟨entry, hmem, hword⟩ | ⟨ms, ps, rfl, ⟨ds, decimals, hm⟩, ⟨exponent, hp⟩⟩)
    · exact ⟨entry.2, .word hmem hword⟩
    · exact ⟨_, .decimal hm hp⟩

/-- Units that begin with digits or a point do not begin with a word. -/
theorem wordLength?_of_isDecimal (h : IsDecimal us) : wordLength? (us ++ rest) = none := by
  obtain ⟨ms, ps, rfl, ⟨ds, decimals, hm⟩, -⟩ := h
  obtain ⟨u, tail, rfl⟩ := List.exists_cons_of_ne_nil hm.ne_nil
  rw [Option.eq_none_iff_forall_ne_some]
  intro n hn
  obtain ⟨ys, zs, heq, ⟨entry, hmem, hword⟩, -⟩ := (wordLength?_finds _).found n hn
  obtain ⟨v, ys, rfl⟩ := List.exists_cons_of_ne_nil (hword.ne_nil hmem)
  obtain ⟨rfl, -⟩ := List.cons.inj heq
  have hdigit := (hm.bounds List.mem_cons_self).2
  have hletter := (hword.letters hmem List.mem_cons_self).1
  omega

theorem bodyLength?_finds (us : List UInt16) :
    Finds (fun ys => ∃ literal, Body ys literal) us ((wordLength? us).or (decimalLength? us)) where
  found n h := by
    simp only [exists_body_iff]
    obtain h | ⟨-, h⟩ := Option.or_eq_some_iff.1 h
    · obtain ⟨ys, zs, hus, hword, hlength⟩ := (wordLength?_finds us).found n h
      exact ⟨ys, zs, hus, .inl hword, hlength⟩
    · obtain ⟨ys, zs, hus, hdecimal, hlength⟩ := (decimalLength?_finds us).found n h
      exact ⟨ys, zs, hus, .inr hdecimal, hlength⟩
  longest ys zs hus hbody := by
    obtain hword | hdecimal := exists_body_iff.1 hbody
    · obtain ⟨n, hn, hle⟩ := (wordLength?_finds us).longest ys zs hus hword
      exact ⟨n, by rw [hn, Option.some_or], hle⟩
    · obtain ⟨n, hn, hle⟩ := (decimalLength?_finds us).longest ys zs hus hdecimal
      exact ⟨n, by rw [hn, hus, wordLength?_of_isDecimal hdecimal, Option.none_or], hle⟩

/-! ## Numbers -/

theorem floatLength?_finds (us : List UInt16) :
    Finds (fun ys => ∃ negative literal, Number ys negative literal) us (floatLength? us) where
  found n h := by
    obtain ⟨spaces, sign, body, negative, hleads⟩ := exists_leads us
    obtain ⟨m, hm, rfl⟩ := Option.map_eq_some_iff.1 h
    rw [hleads.drop_countLead] at hm
    obtain ⟨ys, zs, rfl, ⟨literal, hbody⟩, rfl⟩ := (bodyLength?_finds body).found m hm
    refine ⟨spaces ++ (sign ++ ys), zs, ?_, ⟨negative, literal, .intro hleads.spaces hleads.signed hbody⟩, ?_⟩
    · simp only [hleads.units, List.append_assoc]
    · rw [hleads.countLead_eq]
      simp only [List.length_append, Nat.add_assoc]
  longest := by
    rintro _ zs rfl ⟨negative, literal, @⟨spaces, sign, body, _, _, hspaces, hsigned, hbody⟩⟩
    have hleads : Leads (spaces ++ (sign ++ body) ++ zs) spaces sign (body ++ zs) negative :=
      { units := by simp only [List.append_assoc]
        spaces := hspaces
        spaces_stop := hsigned.stops_isSpace hbody.stops_isSpace
        signed := hsigned
        sign_stops := fun _ => hbody.stops_isSign }
    obtain ⟨n, hn, hle⟩ := (bodyLength?_finds (body ++ zs)).longest body zs rfl ⟨literal, hbody⟩
    refine ⟨(spaces ++ sign).length + n, ?_, ?_⟩
    · rw [floatLength?, hleads.drop_countLead, hn, hleads.countLead_eq, Option.map_some]
    · simp only [List.length_append]
      omega

end

end ManagedRuntime.LeadingNumber
