import Mathlib.Data.List.Forall2
import ManagedRuntime.Proofs.Number.LeadingInteger

/-!
# The grammar of numbers

* `Mantissa`, `Power`, `SpellsWord` : digits with a point among them, a power of ten, and a word in either case;
* `Body`, `Number` : what a number is made of, without and with the spaces and the sign in front of it;
* `number?_of_body` : the reading of characters accepts everything that the grammar has, with the value of its literal;
* `Literal.Lost`, `isOutOfRange_iff` : digits that are rounded to an infinity, or to zero without being zeros.
-/

namespace ManagedRuntime

set_option autoImplicit false

open Utf16 (single)

namespace LeadingNumber

/-! ## Grammar -/

/-- The units of a mantissa, its digits and how many of these are decimals. A point alone is none. -/
inductive Mantissa : List UInt16 → List UInt16 → Nat → Prop where
  | whole {ds : List UInt16} : ds ≠ [] → (∀ d ∈ ds, isDigit d = true) → Mantissa ds ds 0
  | pointed {ds fs : List UInt16} : ds ++ fs ≠ [] → (∀ d ∈ ds, isDigit d = true) → (∀ d ∈ fs, isDigit d = true) →
    Mantissa (ds ++ unit '.' :: fs) (ds ++ fs) fs.length

/-- The units of a power of ten and its exponent. -/
inductive Power : List UInt16 → Int → Prop where
  | absent : Power [] 0
  | marked {mark : UInt16} {sign ds : List UInt16} {negative : Bool} : mark = unit 'e' ∨ mark = unit 'E' →
    Signed sign negative → ds ≠ [] → (∀ d ∈ ds, isDigit d = true) →
    Power (mark :: (sign ++ ds)) (signedValue negative ds)

/-- A word each letter of which may be small or a capital. -/
def SpellsWord (us : List UInt16) (word : String) : Prop :=
  List.Forall₂ (fun u c => u = unit c ∨ u = unit c.toUpper) us word.toList

/-- What stands behind the sign of a number, and the literal that it spells. -/
inductive Body : List UInt16 → Literal → Prop where
  | word {us : List UInt16} {word : String} {literal : Literal} : (word, literal) ∈ Literal.words →
    SpellsWord us word → Body us literal
  | decimal {ms ds ps : List UInt16} {decimals : Nat} {exponent : Int} : Mantissa ms ds decimals → Power ps exponent →
    Body (ms ++ ps) (.decimal (digitsValue ds) (exponent - decimals))

/-- The units of a number, whether it has a minus sign, and its literal. -/
inductive Number : List UInt16 → Bool → Literal → Prop where
  | intro {spaces sign body : List UInt16} {negative : Bool} {literal : Literal} :
    (∀ u ∈ spaces, Blank.isSpace u = true) → Signed sign negative → Body body literal →
    Number (spaces ++ (sign ++ body)) negative literal

section Grammar

variable {us ms ds ps sign rest : List UInt16} {word : String} {literal : Literal} {negative : Bool} {decimals : Nat}
  {exponent : Int}

/-! ## Words -/

/-- The letters of the words are small ones. -/
theorem letter_of_mem_words {c : Char} (h : (word, literal) ∈ Literal.words) (hc : c ∈ word.toList) :
    c.toNat < 0x80 ∧ 97 ≤ (unit c).toNat ∧ (unit c).toNat ≤ 122 ∧ (unit c.toUpper).toNat + 32 = (unit c).toNat ∧
      (single (unit c)).toLower = c ∧ (single (unit c.toUpper)).toLower = c := by
  have hall : (Literal.words.all fun entry => entry.1.toList.all fun c => c.toNat < 0x80 ∧ 97 ≤ (unit c).toNat ∧
      (unit c).toNat ≤ 122 ∧ (unit c.toUpper).toNat + 32 = (unit c).toNat ∧
      (single (unit c)).toLower = c ∧ (single (unit c.toUpper)).toLower = c) = true := by decide
  exact of_decide_eq_true (List.all_eq_true.1 (List.all_eq_true.1 hall _ h) c hc)

theorem toNat_lowerUnit (u : UInt16) :
    (Text.lowerUnit u).toNat = if 65 ≤ u.toNat ∧ u.toNat ≤ 90 then u.toNat + 32 else u.toNat := by
  have hlt := u.toNat_lt
  unfold Text.lowerUnit
  simp only [UInt16.le_iff_toNat_le]
  show (if 65 ≤ u.toNat ∧ u.toNat ≤ 90 then u + 32 else u).toNat = _
  split
  next h =>
    rw [UInt16.toNat_add]
    show (u.toNat + 32) % 65536 = u.toNat + 32
    omega
  next => rfl

theorem lowerUnit_eq_iff {u : UInt16} {c : Char} (h : (word, literal) ∈ Literal.words) (hc : c ∈ word.toList) :
    Text.lowerUnit u = unit c ↔ u = unit c ∨ u = unit c.toUpper := by
  obtain ⟨-, hmin, hmax, hupper, -, -⟩ := letter_of_mem_words h hc
  rw [← UInt16.toNat_inj, ← UInt16.toNat_inj, ← UInt16.toNat_inj, toNat_lowerUnit]
  split <;> omega

/-- A word in either case is the word when all its letters are made small. -/
theorem spellsWord_iff (h : (word, literal) ∈ Literal.words) :
    SpellsWord us word ↔ us.map Text.lowerUnit = word.toList.map unit := by
  rw [← List.forall₂_eq_eq_eq, List.forall₂_map_left_iff, List.forall₂_map_right_iff, SpellsWord,
    List.forall₂_iff_zip, List.forall₂_iff_zip]
  exact and_congr_right fun _ =>
    ⟨fun hall u c hzip => (lowerUnit_eq_iff h (List.of_mem_zip hzip).2).2 (hall hzip),
      fun hall u c hzip => (lowerUnit_eq_iff h (List.of_mem_zip hzip).2).1 (hall hzip)⟩

namespace SpellsWord

variable (hus : SpellsWord us word) (h : (word, literal) ∈ Literal.words)

include hus h

theorem map_toLower : (us.map single).map Char.toLower = word.toList := by
  rw [List.map_map, ← List.forall₂_eq_eq_eq, List.forall₂_map_left_iff, List.forall₂_iff_zip]
  refine ⟨hus.length_eq, ?_⟩
  intro u c hzip
  obtain ⟨-, -, -, -, hsmall, hcapital⟩ := letter_of_mem_words h (List.of_mem_zip hzip).2
  obtain rfl | rfl := (List.forall₂_iff_zip.1 hus).2 hzip
  · exact hsmall
  · exact hcapital

theorem letters {u : UInt16} (hu : u ∈ us) : 65 ≤ u.toNat ∧ u.toNat ≤ 122 := by
  have hlower : Text.lowerUnit u ∈ word.toList.map unit :=
    (spellsWord_iff h).1 hus ▸ List.mem_map_of_mem hu
  obtain ⟨c, hc, hunit⟩ := List.mem_map.1 hlower
  obtain ⟨-, hmin, hmax, hupper, -, -⟩ := letter_of_mem_words h hc
  obtain rfl | rfl := (lowerUnit_eq_iff h hc).1 hunit.symm <;> omega

theorem ne_nil : us ≠ [] := by
  have hall : ∀ entry ∈ Literal.words, entry.1.toList ≠ [] := by decide
  rintro rfl
  exact hall (word, literal) h (List.forall₂_nil_left_iff.1 hus)

end SpellsWord

/-! ## Mantissas and powers of ten -/

namespace Mantissa

variable (h : Mantissa ms ds decimals)

include h

theorem digits : ∀ d ∈ ds, isDigit d = true := by
  cases h with
  | whole _ hds => exact hds
  | pointed _ hds hfs => exact List.forall_mem_append.2 ⟨hds, hfs⟩

theorem digits_ne_nil : ds ≠ [] := by
  cases h with
  | whole hne _ => exact hne
  | pointed hne _ _ => exact hne

theorem ne_nil : ms ≠ [] := by
  cases h with
  | whole hne _ => exact hne
  | pointed _ _ _ => exact List.append_ne_nil_of_right_ne_nil _ (List.cons_ne_nil _ _)

theorem isDigit_or_point {u : UInt16} (hu : u ∈ ms) : isDigit u = true ∨ u = unit '.' := by
  cases h with
  | whole _ hds => exact .inl (hds u hu)
  | pointed _ hds hfs =>
    obtain hu | hu := List.mem_append.1 hu
    · exact .inl (hds u hu)
    obtain rfl | hu := List.mem_cons.1 hu
    · exact .inr rfl
    · exact .inl (hfs u hu)

theorem bounds {u : UInt16} (hu : u ∈ ms) : 46 ≤ u.toNat ∧ u.toNat ≤ 57 := by
  obtain hu | rfl := h.isDigit_or_point hu
  · rw [Utf16.isDigit_iff] at hu
    omega
  · decide

theorem filter_isDigit : ms.filter isDigit = ds := by
  cases h with
  | whole _ hds => exact List.filter_eq_self.2 hds
  | pointed _ hds hfs =>
    rw [List.filter_append, List.filter_eq_self.2 hds, List.filter_cons_of_neg (by decide), List.filter_eq_self.2 hfs]

end Mantissa

namespace Power

variable (h : Power ps exponent)

include h

theorem ascii : ∀ u ∈ ps, u.toNat < 0x80 := by
  cases h with
  | absent => exact nofun
  | marked hmark hsigned _ hds =>
    refine List.forall_mem_cons.2 ⟨?_, List.forall_mem_append.2 ⟨hsigned.ascii, ?_⟩⟩
    · obtain rfl | rfl := hmark <;> decide
    · exact fun u hu => Utf16.ascii_of_isDigit (hds u hu)

theorem ge : ∀ u ∈ ps, 43 ≤ u.toNat := by
  cases h with
  | absent => exact nofun
  | marked hmark hsigned _ hds =>
    refine List.forall_mem_cons.2 ⟨?_, List.forall_mem_append.2 ⟨hsigned.ge, ?_⟩⟩
    · obtain rfl | rfl := hmark <;> decide
    · intro u hu
      have hdigit := Utf16.isDigit_iff.1 (hds u hu)
      omega

/-- A power of ten begins with its mark. -/
theorem stops {p : Char → Bool} (hsmall : p 'e' = false) (hcapital : p 'E' = false) : Stops p (ps.map single) := by
  cases h with
  | absent => exact stops_nil
  | marked hmark _ _ _ =>
    refine stops_cons.2 ?_
    obtain rfl | rfl := hmark
    · exact hsmall
    · exact hcapital

end Power

/-! ## Bodies -/

namespace Body

variable (h : Body us literal)

include h

theorem ascii : ∀ u ∈ us, u.toNat < 0x80 := by
  cases h with
  | word hmem hus => exact fun u hu => Nat.lt_of_le_of_lt (hus.letters hmem hu).2 (by decide)
  | decimal hm hp =>
    exact List.forall_mem_append.2 ⟨fun u hu => Nat.lt_of_le_of_lt (hm.bounds hu).2 (by decide), hp.ascii⟩

/-- No unit of a number is a space. -/
theorem not_isSpace : ∀ u ∈ us, Blank.isSpace u = false := by
  have hge : ∀ u ∈ us, 43 ≤ u.toNat := by
    cases h with
    | word hmem hus =>
      intro u hu
      have hletter := hus.letters hmem hu
      omega
    | decimal hm hp =>
      refine List.forall_mem_append.2 ⟨?_, hp.ge⟩
      intro u hu
      have hbounds := hm.bounds hu
      omega
  intro u hu
  have hu := hge u hu
  rw [← Bool.not_eq_true, Utf16.isSpace_iff]
  omega

theorem exists_cons : ∃ u tail, us = u :: tail ∧ Blank.isSpace u = false ∧ isSign u = false := by
  have hclass : ∀ u : UInt16, 46 ≤ u.toNat → Blank.isSpace u = false ∧ isSign u = false := by
    intro u hu
    have hplus : (unit '+').toNat = 43 := rfl
    have hminus : (unit '-').toNat = 45 := rfl
    rw [← Bool.not_eq_true, Utf16.isSpace_iff]
    simp only [isSign, ← UInt16.toNat_inj, decide_eq_false_iff_not]
    omega
  cases h with
  | word hmem hus =>
    obtain ⟨u, tail, rfl⟩ := List.exists_cons_of_ne_nil (hus.ne_nil hmem)
    exact ⟨u, tail, rfl, hclass u (by have := hus.letters hmem List.mem_cons_self; omega)⟩
  | decimal hm hp =>
    obtain ⟨u, tail, rfl⟩ := List.exists_cons_of_ne_nil hm.ne_nil
    exact ⟨u, _, rfl, hclass u (hm.bounds List.mem_cons_self).1⟩

theorem stops_isSpace : Stops Blank.isSpace (us ++ rest) := by
  obtain ⟨u, tail, rfl, hspace, -⟩ := h.exists_cons
  exact stops_cons.2 hspace

theorem stops_isSign : Stops isSign (us ++ rest) := by
  obtain ⟨u, tail, rfl, -, hsign⟩ := h.exists_cons
  exact stops_cons.2 hsign

end Body

/-! ## Characters of a body -/

/-- The characters of digits are digits. -/
theorem isDigit_of_mem_map (h : ∀ d ∈ ds, isDigit d = true) : ∀ c ∈ ds.map single, c.isDigit = true := by
  intro c hc
  obtain ⟨d, hd, rfl⟩ := List.mem_map.1 hc
  rw [Utf16.isDigit_single (Utf16.ascii_of_isDigit (h d hd)), h d hd]

theorem ofWord?_word (h : (word, literal) ∈ Literal.words) (hus : SpellsWord us word) :
    Literal.ofWord? (us.map single) = some literal := by
  have hall : ∀ entry ∈ Literal.words,
      (Literal.words.find? fun other => entry.1.toList == other.1.toList).map Prod.snd = some entry.2 := by decide
  rw [Literal.ofWord?, hus.map_toLower h]
  exact hall (word, literal) h

/-- No word begins with a digit or a point. -/
theorem ofWord?_of_lt {c : Char} {cs : List Char} (hc : c.toNat < 65) : Literal.ofWord? (c :: cs) = none := by
  have hlower : c.toLower = c := by
    refine dif_neg ?_
    rintro ⟨hmin, -⟩
    have hletter : 65 ≤ c.toNat := UInt32.le_iff_toNat_le.1 hmin
    omega
  rw [Literal.ofWord?, Option.map_eq_none_iff, List.find?_eq_none]
  rintro ⟨word, literal⟩ hmem heq
  have hchars : c :: cs.map Char.toLower = word.toList := by
    rw [← hlower]
    exact eq_of_beq heq
  obtain ⟨-, hmin, -⟩ := letter_of_mem_words hmem (hchars ▸ List.mem_cons_self)
  rw [Utf16.toNat_unit (by omega)] at hmin
  omega

theorem exponent?_map (h : Power ps exponent) : Literal.exponent? (ps.map single) = some exponent := by
  cases h with
  | absent => rfl
  | @marked mark sign ds negative hmark hsigned hne hds =>
    have hascii : ∀ u ∈ ds, u.toNat < 0x80 := fun u hu => Utf16.ascii_of_isDigit (hds u hu)
    have hall : (ds.map single).all Char.isDigit = true := List.all_eq_true.2 (isDigit_of_mem_map hds)
    have hbody : ds.map single ≠ [] := fun h => hne (List.map_eq_nil_iff.1 h)
    have hchar : single mark = 'e' ∨ single mark = 'E' := by
      obtain rfl | rfl := hmark
      · exact .inl rfl
      · exact .inr rfl
    have hstop : Stops isSign ds := stops_of_digits isSign_of_isDigit hds
    rw [List.map_cons, Literal.exponent?, hsigned.splitSign_append hascii fun _ => hstop]
    exact (if_pos ⟨hchar, hbody, hall⟩).trans (by rw [value_map_single hds, signedValue])

theorem splitMantissa_append {cs : List Char} (h : Mantissa ms ds decimals) (hdigit : Stops Char.isDigit cs)
    (hpoint : Stops (· == '.') cs) :
    ∃ whole fraction, Literal.splitMantissa (ms.map single ++ cs) = (whole, fraction, cs) ∧
      whole ++ fraction = ds.map single ∧ fraction.length = decimals := by
  cases h with
  | whole hne hds =>
    refine ⟨ms.map single, [], ?_, List.append_nil _, rfl⟩
    rw [Literal.splitMantissa, takeWhile_append_of_stops (isDigit_of_mem_map hds) hdigit,
      dropWhile_append_of_stops (isDigit_of_mem_map hds) hdigit]
    split
    next rest => exact absurd (stops_cons.1 hpoint) (by decide)
    next => rfl
  | @pointed ds fs hne hds hfs =>
    refine ⟨ds.map single, fs.map single, ?_, (List.map_append ..).symm, List.length_map _⟩
    have hstop : Stops Char.isDigit ('.' :: (fs.map single ++ cs)) := stops_cons.2 (by decide)
    have hchars : (ds ++ unit '.' :: fs).map single ++ cs = ds.map single ++ '.' :: (fs.map single ++ cs) := by
      rw [List.map_append, List.append_assoc]
      rfl
    rw [hchars, Literal.splitMantissa, takeWhile_append_of_stops (isDigit_of_mem_map hds) hstop,
      dropWhile_append_of_stops (isDigit_of_mem_map hds) hstop]
    show (_, (fs.map single ++ cs).takeWhile Char.isDigit, (fs.map single ++ cs).dropWhile Char.isDigit) = _
    rw [takeWhile_append_of_stops (isDigit_of_mem_map hfs) hdigit,
      dropWhile_append_of_stops (isDigit_of_mem_map hfs) hdigit]

theorem ofDigits?_map (hm : Mantissa ms ds decimals) (hp : Power ps exponent) :
    Literal.ofDigits? ((ms ++ ps).map single) = some (.decimal (digitsValue ds) (exponent - decimals)) := by
  obtain ⟨whole, fraction, hsplit, hdigits, hlength⟩ :=
    splitMantissa_append hm (hp.stops (p := Char.isDigit) (by decide) (by decide)) (hp.stops (by decide) (by decide))
  have hne : ¬ (whole = [] ∧ fraction = []) := by
    rintro ⟨rfl, rfl⟩
    exact hm.digits_ne_nil (List.map_eq_nil_iff.1 hdigits.symm)
  rw [List.map_append, Literal.ofDigits?, hsplit]
  dsimp only
  rw [if_neg hne, exponent?_map hp, hdigits, hlength, value_map_single hm.digits]
  rfl

/-- The characters of a number are never refused. -/
theorem number?_of_body (hsigned : Signed sign negative) (h : Body us literal) :
    Literal.number? ((sign ++ us).map single) = some (literal.toBinary64 negative) := by
  have hstop : Stops isSign us := us.append_nil ▸ h.stops_isSign
  have hliteral : (Literal.ofWord? (us.map single)).or (Literal.ofDigits? (us.map single)) = some literal := by
    cases h with
    | word hmem hus => rw [ofWord?_word hmem hus, Option.some_or]
    | @decimal ms ds ps decimals exponent hm hp =>
      have hnone : Literal.ofWord? ((ms ++ ps).map single) = none := by
        obtain ⟨u, tail, rfl⟩ := List.exists_cons_of_ne_nil hm.ne_nil
        have hu := (hm.bounds List.mem_cons_self).2
        exact ofWord?_of_lt (by rw [Utf16.toNat_single (by omega)]; omega)
      rw [hnone, ofDigits?_map hm hp, Option.none_or]
  rw [Literal.number?, Literal.parse?, hsigned.splitSign_append h.ascii fun _ => hstop]
  dsimp only
  rw [hliteral]
  rfl

/-! ## Digits in a spelling -/

theorem filter_isDigit_map (h : ∀ u ∈ us, u.toNat < 0x80) :
    (us.map single).filter Char.isDigit = (us.filter isDigit).map single := by
  rw [List.filter_map]
  exact congrArg (List.map single) (List.filter_congr fun u hu => Utf16.isDigit_single (h u hu))

theorem Signed.filter_isDigit (h : Signed sign negative) : sign.filter isDigit = [] := by
  cases h <;> rfl

/-- The digits of a mantissa, as they stand in the characters of the number. -/
theorem mantissaDigits_decimal (hsigned : Signed sign negative) (hm : Mantissa ms ds decimals)
    (hp : Power ps exponent) : mantissaDigits ((sign ++ (ms ++ ps)).map single) = ds.map single := by
  have hbound : ∀ u ∈ sign ++ ms, u.toNat ≤ 57 :=
    List.forall_mem_append.2 ⟨hsigned.le, fun u hu => (hm.bounds hu).2⟩
  have hkeep : ∀ c ∈ (sign ++ ms).map single, decide (c ≠ 'e' ∧ c ≠ 'E') = true := by
    intro c hc
    obtain ⟨u, hu, rfl⟩ := List.mem_map.1 hc
    have hu := hbound u hu
    have hsingle : (single u).toNat = u.toNat := Utf16.toNat_single (by omega)
    have hne : ∀ c : Char, 57 < c.toNat → single u ≠ c := by
      rintro c hlt rfl
      omega
    exact decide_eq_true ⟨hne 'e' (by decide), hne 'E' (by decide)⟩
  have hstop : Stops (fun c => decide (c ≠ 'e' ∧ c ≠ 'E')) (ps.map single) := hp.stops (by decide) (by decide)
  rw [← List.append_assoc, List.map_append, mantissaDigits, takeWhile_append_of_stops hkeep hstop,
    filter_isDigit_map fun u hu => Nat.lt_of_le_of_lt (hbound u hu) (by decide), List.filter_append,
    hsigned.filter_isDigit, hm.filter_isDigit, List.nil_append]

theorem mantissaDigits_word (hsigned : Signed sign negative) (hmem : (word, literal) ∈ Literal.words)
    (hus : SpellsWord us word) : mantissaDigits ((sign ++ us).map single) = [] := by
  have hascii : ∀ u ∈ sign ++ us, u.toNat < 0x80 :=
    List.forall_mem_append.2 ⟨hsigned.ascii, (Body.word hmem hus).ascii⟩
  have hnone : us.filter isDigit = [] := by
    rw [List.filter_eq_nil_iff]
    intro u hu hdigit
    have hletter := (hus.letters hmem hu).1
    rw [Utf16.isDigit_iff] at hdigit
    omega
  have hall : ((sign ++ us).map single).filter Char.isDigit = [] := by
    rw [filter_isDigit_map hascii, List.filter_append, hsigned.filter_isDigit, hnone]
    rfl
  exact List.eq_nil_of_sublist_nil (hall ▸ (List.takeWhile_sublist _).filter _)

end Grammar

end LeadingNumber

/-! ## Values that are lost -/

namespace Literal

/-- A literal with digits that is rounded to an infinity, or to zero although one of them is not zero. -/
def Lost (negative : Bool) : Literal → Prop
  | .decimal mantissa exponent =>
    ((decimal mantissa exponent).toBinary64 negative).isInfinite = true ∨
      mantissa ≠ 0 ∧ ((decimal mantissa exponent).toBinary64 negative).isZero = true
  | .infinity => False
  | .nan => False

instance (negative : Bool) : DecidablePred (Lost negative)
  | .decimal _ _ => inferInstanceAs (Decidable (_ ∨ _))
  | .infinity => inferInstanceAs (Decidable False)
  | .nan => inferInstanceAs (Decidable False)

theorem not_lost_of_zero (negative : Bool) (exponent : Int) : ¬ (decimal 0 exponent).Lost negative := by
  have hvalue : (decimal 0 exponent).toBinary64 negative = .ofMagnitude negative 0 := rfl
  rintro (hinfinite | ⟨hne, -⟩)
  · rw [hvalue] at hinfinite
    cases negative <;> exact absurd hinfinite (by decide)
  · exact hne rfl

end Literal

namespace LeadingNumber

variable {us sign : List UInt16} {literal : Literal} {negative : Bool}

theorem isOutOfRange_iff (hsigned : Signed sign negative) (h : Body us literal) :
    isOutOfRange ((sign ++ us).map single) (literal.toBinary64 negative) = true ↔ literal.Lost negative := by
  cases h with
  | @word us word literal hmem hus =>
    have hlost : ¬ literal.Lost negative := by
      cases literal with
      | decimal m e => exact absurd hmem (by simp [Literal.words])
      | infinity => exact id
      | nan => exact id
    rw [isOutOfRange, mantissaDigits_word hsigned hmem hus]
    simpa using hlost
  | @decimal ms ds ps decimals exponent hm hp =>
    have hempty : (ds.map single).isEmpty = false := by
      rw [List.isEmpty_map, List.isEmpty_eq_false_iff]
      exact hm.digits_ne_nil
    have hany : (ds.map single).any (· ≠ '0') = true ↔ digitsValue ds ≠ 0 := by
      rw [List.any_map, List.any_eq_true, ne_eq, digitsValue_eq_zero_iff hm.digits, not_forall]
      refine exists_congr fun d => ?_
      rw [Classical.not_imp]
      refine and_congr_right fun hd => ?_
      have hascii := Utf16.ascii_of_isDigit (hm.digits d hd)
      rw [Function.comp_apply, decide_eq_true_iff, ne_eq, Utf16.single_eq_iff hascii (by decide)]
    rw [isOutOfRange, mantissaDigits_decimal hsigned hm hp, Literal.Lost, hempty, Bool.or_eq_true, Bool.and_eq_true,
      Bool.and_eq_true, hany, Bool.not_false, and_comm (a := _ ≠ 0)]
    simp only [and_true]

end LeadingNumber

end ManagedRuntime
