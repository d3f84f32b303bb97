import ManagedRuntime.Proofs.Number.Scanning

/-!
# Blanks at the ends of a text

* `Blank.Stripped` : a list with the items of a class at both of its ends, as many as there are, and what is between;
* `stripped_strip`, `Stripped.strip_eq` : every list has them, and what is between is what stripping leaves;
* `Stripped.dropWhile_dropEnd`, `Stripped.surround` : whichever end comes first, and with more items at both ends;
* `Stripped.encode` : where all blanks are space units, the units of a text are stripped where its characters are;
* `Stripped.trim_eq` : and then trimming the text leaves the units of what is between.
-/

namespace ManagedRuntime.Blank

set_option autoImplicit false

open Utf16 (single)

/-! ## Both ends of a list -/

/-- Items of a class at both ends of a list, as many as there are, and the core between them. -/
structure Stripped {α : Type} (p : α → Bool) (xs front core back : List α) : Prop where
  items : xs = front ++ (core ++ back)
  front : ∀ x ∈ front, p x = true
  back : ∀ x ∈ back, p x = true
  starts : Stops p core
  ends : Stops p core.reverse

section Stripped

variable {α : Type} {p : α → Bool} {xs front core back : List α}

theorem dropEnd_append_of_stops (hback : ∀ x ∈ back, p x = true) (hcore : Stops p core.reverse) :
    dropEnd p (core ++ back) = core := by
  have hreverse : ∀ x ∈ back.reverse, p x = true := by
    intro x hx
    exact hback x (List.mem_reverse.1 hx)
  unfold dropEnd
  rw [List.reverse_append, dropWhile_append_of_stops hreverse hcore, List.reverse_reverse]

/-- Every list is what is left of it in front of items of the class. -/
theorem exists_dropEnd (p : α → Bool) (xs : List α) :
    ∃ back, xs = dropEnd p xs ++ back ∧ (∀ x ∈ back, p x = true) ∧ Stops p (dropEnd p xs).reverse := by
  obtain ⟨ys, zs, hxs, hys, hzs⟩ := exists_stops p xs.reverse
  have hsplit : xs = zs.reverse ++ ys.reverse := by
    rw [← List.reverse_append, ← hxs, List.reverse_reverse]
  have hback : ∀ x ∈ ys.reverse, p x = true := by
    intro x hx
    exact hys x (List.mem_reverse.1 hx)
  have hdrop : dropEnd p xs = zs.reverse := by
    rw [hsplit]
    apply dropEnd_append_of_stops hback
    rwa [List.reverse_reverse]
  rw [hdrop, List.reverse_reverse]
  exact ⟨ys.reverse, hsplit, hback, hzs⟩

theorem stripped_of_dropWhile (p : α → Bool) (xs : List α) :
    ∃ front back, Stripped p xs front (dropEnd p (xs.dropWhile p)) back := by
  obtain ⟨back, hrest, hback, hends⟩ := exists_dropEnd p (xs.dropWhile p)
  refine ⟨xs.takeWhile p, back, ?_, fun x hx => List.mem_takeWhile_imp hx, hback, ?_, hends⟩
  · rw [← hrest, List.takeWhile_append_dropWhile]
  · by_cases hne : dropEnd p (xs.dropWhile p) = []
    · rw [hne]
      exact stops_nil
    · have hstops := stops_dropWhile p xs
      rw [hrest] at hstops
      exact hstops.of_append hne

theorem Stripped.dropEnd_dropWhile (h : Stripped p xs front core back) : dropEnd p (xs.dropWhile p) = core := by
  rw [h.items, List.dropWhile_append_of_pos h.front]
  by_cases hne : core = []
  · have hnone : back.dropWhile p = [] := by
      rw [List.dropWhile_eq_nil_iff]
      exact h.back
    rw [hne, List.nil_append, hnone]
    rfl
  · have hstops : Stops p (core ++ back) := by
      obtain ⟨x, tail, rfl⟩ := List.exists_cons_of_ne_nil hne
      exact stops_cons.2 (stops_cons.1 h.starts)
    rw [dropWhile_of_stops hstops, dropEnd_append_of_stops h.back h.ends]

theorem Stripped.dropEnd_eq (h : Stripped p xs front core back) (hne : core ≠ []) : dropEnd p xs = front ++ core := by
  have hends : Stops p (front ++ core).reverse := by
    rw [List.reverse_append]
    exact stops_append h.ends fun hnone => absurd (List.reverse_eq_nil_iff.1 hnone) hne
  rw [h.items, ← List.append_assoc, dropEnd_append_of_stops h.back hends]

/-- It does not matter which end comes first. -/
theorem Stripped.dropWhile_dropEnd (h : Stripped p xs front core back) : (dropEnd p xs).dropWhile p = core := by
  by_cases hne : core = []
  · have hall : ∀ x ∈ xs, p x = true := by
      rw [h.items, hne, List.nil_append]
      exact List.forall_mem_append.2 ⟨h.front, h.back⟩
    have hnone : dropEnd p ([] ++ xs) = [] := dropEnd_append_of_stops hall stops_nil
    rw [List.nil_append] at hnone
    rw [hnone, hne]
    rfl
  · rw [h.dropEnd_eq hne, dropWhile_append_of_stops h.front h.starts]

/-- More items of the class at both ends leave the core as it is. -/
theorem Stripped.surround {ys zs : List α} (h : Stripped p xs front core back) (hys : ∀ y ∈ ys, p y = true)
    (hzs : ∀ z ∈ zs, p z = true) : Stripped p (ys ++ (xs ++ zs)) (ys ++ front) core (back ++ zs) where
  items := by
    rw [h.items]
    simp only [List.append_assoc]
  front := List.forall_mem_append.2 ⟨hys, h.front⟩
  back := List.forall_mem_append.2 ⟨h.back, hzs⟩
  starts := h.starts
  ends := h.ends

theorem dropEnd_idempotent (p : α → Bool) (xs : List α) : dropEnd p (dropEnd p xs) = dropEnd p xs := by
  unfold dropEnd
  rw [List.reverse_reverse, dropWhile_of_stops (stops_dropWhile p xs.reverse)]

/-- A core without any item of the class may stand between items of the class. -/
theorem stripped_of_forall (hfront : ∀ x ∈ front, p x = true) (hcore : ∀ x ∈ core, p x = false)
    (hback : ∀ x ∈ back, p x = true) : Stripped p (front ++ (core ++ back)) front core back where
  items := rfl
  front := hfront
  back := hback
  starts := stops_of_forall hcore
  ends := stops_of_forall fun x hx => hcore x (List.mem_reverse.1 hx)

end Stripped

/-! ## Characters -/

theorem stripped_strip (cs : List Char) : ∃ front back, Stripped isWhiteSpace cs front (strip cs) back :=
  stripped_of_dropWhile isWhiteSpace cs

theorem Stripped.strip_eq {cs front core back : List Char} (h : Stripped isWhiteSpace cs front core back) :
    strip cs = core :=
  h.dropEnd_dropWhile

theorem Stripped.trim_eq {t : Text} {front core back : List UInt16} (h : Stripped isSpace t.units front core back) :
    t.trim = ⟨core⟩ := by
  show (⟨dropEnd isSpace (t.units.dropWhile isSpace)⟩ : Text) = ⟨core⟩
  rw [h.dropEnd_dropWhile]

theorem stripped_trim (t : Text) : ∃ front back, Stripped isSpace t.units front t.trim.units back :=
  stripped_of_dropWhile isSpace t.units

/-! ## Units of ASCII characters -/

section Ascii

variable {front word back : List UInt16}

theorem ascii_of_parts {t : Text} (hunits : t.units = front ++ (word ++ back))
    (hfront : ∀ u ∈ front, isSpace u = true) (hback : ∀ u ∈ back, isSpace u = true)
    (hword : ∀ u ∈ word, u.toNat < 0x80) : ∀ u ∈ t.units, u.toNat < 0x80 := by
  intro u hu
  rw [hunits, List.mem_append, List.mem_append] at hu
  obtain hu | hu | hu := hu
  · exact Utf16.ascii_of_isSpace (hfront u hu)
  · exact hword u hu
  · exact Utf16.ascii_of_isSpace (hback u hu)

/-- An ASCII word without spaces is what is left without the spaces around it. -/
theorem stripped_map_single (hfront : ∀ u ∈ front, isSpace u = true) (hback : ∀ u ∈ back, isSpace u = true)
    (hascii : ∀ u ∈ word, u.toNat < 0x80) (hword : ∀ u ∈ word, isSpace u = false) :
    Stripped isWhiteSpace ((front ++ (word ++ back)).map single) (front.map single) (word.map single)
      (back.map single) := by
  have hblank : ∀ {us : List UInt16}, (∀ u ∈ us, isSpace u = true) → ∀ c ∈ us.map single, isWhiteSpace c = true := by
    intro us hus c hc
    obtain ⟨u, hu, rfl⟩ := List.mem_map.1 hc
    rw [Utf16.isWhiteSpace_single (Utf16.ascii_of_isSpace (hus u hu)), hus u hu]
  have hletter : ∀ c ∈ word.map single, isWhiteSpace c = false := by
    intro c hc
    obtain ⟨u, hu, rfl⟩ := List.mem_map.1 hc
    rw [Utf16.isWhiteSpace_single (hascii u hu), hword u hu]
  rw [List.map_append, List.map_append]
  exact stripped_of_forall (hblank hfront) hletter (hblank hback)

end Ascii

/-! ## Characters and units -/

/-- All the blanks among some characters are the characters of space units. -/
def Plain (cs : List Char) : Prop := ∀ c ∈ cs, isWhiteSpace c = true → ∃ u, isSpace u = true ∧ single u = c

theorem ascii_of_all {cs : List Char} (h : (cs.all fun c => c.toNat < 0x80) = true) : ∀ c ∈ cs, c.toNat < 0x80 := by
  intro c hc
  exact of_decide_eq_true (List.all_eq_true.1 h c hc)

/-- The blanks of ASCII are the space units. -/
theorem plain_of_ascii {cs : List Char} (h : ∀ c ∈ cs, c.toNat < 0x80) : Plain cs := by
  intro c hc hblank
  have hself := Utf16.single_unit (h c hc)
  refine ⟨LeadingNumber.unit c, ?_, hself⟩
  rw [← Utf16.isWhiteSpace_single (by rw [Utf16.toNat_unit (h c hc)]; exact h c hc), hself, hblank]

section Units

variable {cs front core back : List Char} {us : List UInt16}

theorem not_isSurrogate_of_ascii {u : UInt16} (h : u.toNat < 0x80) : Utf16.isSurrogate u = false := by
  rw [Utf16.isSurrogate_eq_false]
  omega

/-- The units of ASCII characters are those that were read. -/
theorem encode_map_single (h : ∀ u ∈ us, u.toNat < 0x80) : Utf16.encode (us.map single) = us := by
  induction us with
  | nil => rfl
  | cons u us ih =>
    rw [List.forall_mem_cons] at h
    rw [List.map_cons, Utf16.encode_cons, Utf16.encodeChar_single (not_isSurrogate_of_ascii h.1), ih h.2]
    rfl

theorem Plain.isSpace_encode (h : Plain cs) (hblank : ∀ c ∈ cs, isWhiteSpace c = true) :
    ∀ u ∈ Utf16.encode cs, isSpace u = true := by
  intro u hu
  obtain ⟨c, hc, hu⟩ := List.mem_flatMap.1 hu
  obtain ⟨v, hv, rfl⟩ := h c hc (hblank c hc)
  rw [Utf16.encodeChar_single (not_isSurrogate_of_ascii (Utf16.ascii_of_isSpace hv)), List.mem_singleton] at hu
  rw [hu, hv]

/-- A character that is no blank has no space unit. -/
theorem isSpace_of_mem_encodeChar {c : Char} (hc : isWhiteSpace c = false) :
    ∀ u ∈ Utf16.encodeChar c, isSpace u = false := by
  intro u hu
  rw [← Bool.not_eq_true]
  intro hspace
  obtain ⟨v, -, rfl, hunits⟩ | ⟨high, low, hhigh, hlow, -, hunits⟩ := Utf16.encodeChar_cases c
  · rw [hunits, List.mem_singleton] at hu
    subst hu
    rw [Utf16.isWhiteSpace_single (Utf16.ascii_of_isSpace hspace), hspace] at hc
    cases hc
  · rw [Utf16.isHigh_iff] at hhigh
    rw [Utf16.isLow_iff] at hlow
    rw [Utf16.isSpace_iff] at hspace
    simp only [hunits, List.mem_cons, List.not_mem_nil, or_false] at hu
    obtain rfl | rfl := hu <;> omega

theorem stops_encode (h : Stops isWhiteSpace cs) : Stops isSpace (Utf16.encode cs) := by
  cases cs with
  | nil => exact stops_nil
  | cons c cs =>
    have hunits := isSpace_of_mem_encodeChar (stops_cons.1 h)
    obtain ⟨u, -, -, hc⟩ | ⟨high, low, -, -, -, hc⟩ := Utf16.encodeChar_cases c
    · rw [Utf16.encode_cons, hc]
      exact stops_cons.2 (hunits u (by simp [hc]))
    · rw [Utf16.encode_cons, hc]
      exact stops_cons.2 (hunits high (by simp [hc]))

theorem stops_reverse_encode (h : Stops isWhiteSpace cs.reverse) : Stops isSpace (Utf16.encode cs).reverse := by
  induction cs using List.reverseRecOn with
  | nil => exact stops_nil
  | append_singleton cs c _ =>
    rw [List.reverse_append, List.reverse_singleton, List.singleton_append] at h
    have hunits := isSpace_of_mem_encodeChar (stops_cons.1 h)
    have hlast : Utf16.encode [c] = Utf16.encodeChar c := List.flatMap_singleton ..
    rw [Utf16.encode_append, List.reverse_append, hlast]
    obtain ⟨u, -, -, hc⟩ | ⟨high, low, -, -, -, hc⟩ := Utf16.encodeChar_cases c
    · rw [hc]
      exact stops_cons.2 (hunits u (by simp [hc]))
    · rw [hc]
      exact stops_cons.2 (hunits low (by simp [hc]))

theorem Stripped.encode (h : Stripped isWhiteSpace cs front core back) (hplain : Plain cs) :
    Stripped isSpace (Utf16.encode cs) (Utf16.encode front) (Utf16.encode core) (Utf16.encode back) where
  items := by rw [h.items, Utf16.encode_append, Utf16.encode_append]
  front := Plain.isSpace_encode (fun c hc => hplain c (by simp [h.items, hc])) h.front
  back := Plain.isSpace_encode (fun c hc => hplain c (by simp [h.items, hc])) h.back
  starts := stops_encode h.starts
  ends := stops_reverse_encode h.ends

end Units

end ManagedRuntime.Blank
