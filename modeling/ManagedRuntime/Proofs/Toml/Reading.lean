import ManagedRuntime.Proofs.Number.Digits
import ManagedRuntime.Toml.Document
import ManagedRuntime.Toml.Layout

/-!
# Reading what has been written

A text that is written in one of the ways below is read as what it stands for, whatever follows it.

* `Reader.Takes` : a reader finds a value in a text and leaves all that follows it;
* `takes_boolean`, `takes_quoted` : truth values, and strings without escapes;
* `value_toDigits` : natural numbers at the end of a line;
* `Elements.takes_array` : arrays on one line, and arrays with a line for each element;
* `IsBare.takes_header`, `IsBare.takes_entry`, `statements_flatten` : the lines of a document.
-/

namespace ManagedRuntime.Toml

set_option autoImplicit false

/-! ## Texts that a reader takes -/

/-- A text that a reader takes for a value, whatever follows it. -/
structure Reader.Takes {α : Type} (item : Reader α) (text : List Char) (a : α) : Prop where
  ne_nil : text ≠ []
  read (rest : List Char) : item (text ++ rest) = some (a, rest)

namespace Reader

variable {α : Type} {item : Reader α} {a : α} {text rest cs : List Char}

theorem many_of_none (h : item cs = none) : many item cs = ([], cs) := by
  rw [many, h]

theorem many_of_some (h : item cs = some (a, rest)) (hlt : rest.length < cs.length) :
    many item cs = (a :: (many item rest).1, (many item rest).2) := by
  rw [many, h]
  exact if_pos hlt

theorem Takes.many_append (h : item.Takes text a) (rest : List Char) :
    many item (text ++ rest) = (a :: (many item rest).1, (many item rest).2) := by
  have hpos := List.length_pos_iff.2 h.ne_nil
  exact many_of_some (h.read rest) (by rw [List.length_append]; omega)

/-- Texts that are taken one by one, up to a place where no more is. -/
theorem many_flatten {texts : List (List Char)} {as : List α} (h : List.Forall₂ item.Takes texts as)
    (hstop : many item rest = ([], rest)) : many item (texts.flatten ++ rest) = (as, rest) := by
  induction h with
  | nil => exact hstop
  | cons htext _ ih => rw [List.flatten_cons, List.append_assoc, htext.many_append, ih]

theorem many_characters {item : Reader Char} (h : ∀ c ∈ cs, item.Takes [c] c) (hstop : item rest = none) :
    many item (cs ++ rest) = (cs, rest) := by
  induction cs with
  | nil => exact many_of_none hstop
  | cons c cs ih =>
    rw [List.forall_mem_cons] at h
    have hfirst := h.1.many_append (cs ++ rest)
    rw [ih h.2] at hfirst
    exact hfirst

end Reader

variable {cs ds text rest : List Char} {depth : Nat} {node : Node}

/-! ## Blanks -/

theorem skipBlanks_of_stops (h : Stops isBlank cs) : skipBlanks cs = cs := dropWhile_of_stops h

/-- What may stand between the elements of an array. -/
def isFiller (c : Char) : Bool := isBlank c || c = '\n' || c = '\r' || c = '#'

theorem stops_isBlank_of_isFiller (h : Stops isFiller cs) : Stops isBlank cs := by
  cases cs with
  | nil => exact stops_nil
  | cons c cs =>
    have hc := stops_cons.1 h
    simp only [isFiller, Bool.or_eq_false_iff] at hc
    exact stops_cons.2 hc.1.1.1

theorem lineGap_of_stops {blanks : List Char} (hblanks : ∀ c ∈ blanks, isBlank c = true) (h : Stops isFiller cs) :
    lineGap (blanks ++ cs) = none := by
  have hskip : skipBlanks (blanks ++ cs) = cs := dropWhile_append_of_stops hblanks (stops_isBlank_of_isFiller h)
  unfold lineGap
  rw [hskip]
  cases cs with
  | nil => rfl
  | cons c cs =>
    have hc := stops_cons.1 h
    simp only [isFiller, Bool.or_eq_false_iff, decide_eq_false_iff_not] at hc
    obtain ⟨⟨⟨-, hfeed⟩, hreturn⟩, hmark⟩ := hc
    have hcomment : skipComment (c :: cs) = c :: cs := by
      unfold skipComment
      split
      next heq => exact absurd (List.cons.inj heq).1 hmark
      next => rfl
    have hnewline : newline (c :: cs) = none := by
      unfold newline
      split
      next heq => exact absurd (List.cons.inj heq).1 hfeed
      next heq => exact absurd (List.cons.inj heq).1 hreturn
      next => rfl
    rw [hcomment, hnewline]
    rfl

theorem gap_of_stops (h : Stops isFiller cs) : gap cs = cs := by
  have hnone : lineGap ([] ++ cs) = none := lineGap_of_stops (List.forall_mem_nil _) h
  rw [List.nil_append] at hnone
  unfold gap
  rw [Reader.many_of_none hnone]
  exact skipBlanks_of_stops (stops_isBlank_of_isFiller h)

/-- A line end and blanks at the beginning of the next line. -/
theorem gap_newline {blanks : List Char} (hblanks : ∀ c ∈ blanks, isBlank c = true) (h : Stops isFiller cs) :
    gap ('\n' :: (blanks ++ cs)) = cs := by
  have hline : lineGap.Takes ['\n'] () := ⟨List.cons_ne_nil _ _, fun _ => rfl⟩
  have hmany := hline.many_append (blanks ++ cs)
  rw [Reader.many_of_none (lineGap_of_stops hblanks h)] at hmany
  show skipBlanks (Reader.many lineGap (['\n'] ++ (blanks ++ cs))).2 = cs
  rw [hmany]
  exact dropWhile_append_of_stops hblanks (stops_isBlank_of_isFiller h)

/-! ## Values on one line -/

/-- Only brackets and braces begin a value that holds others. -/
def isOpening (c : Char) : Bool := c = '[' || c = '\x7b'

theorem value_of_stops (h : Stops isOpening cs) : value depth cs = scalar cs := by
  cases depth with
  | zero => rfl
  | succ depth =>
    unfold value
    split
    next => cases stops_cons.1 h
    next => cases stops_cons.1 h
    next => rfl

theorem takes_boolean (depth : Nat) (b : Bool) :
    (value depth).Takes (if b then "true" else "false").toList (.boolean b) := by
  cases b with
  | false => exact ⟨by decide, fun rest => (value_of_stops (stops_cons.2 rfl)).trans rfl⟩
  | true => exact ⟨by decide, fun rest => (value_of_stops (stops_cons.2 rfl)).trans rfl⟩

/-! ## Strings -/

/-- What begins a string. -/
def isQuote (c : Char) : Bool := c = '"' || c = '\''

theorem lineString_of_stops (h : Stops isQuote cs) : lineString cs = none := by
  unfold lineString
  split
  next => cases stops_cons.1 h
  next => cases stops_cons.1 h
  next => rfl

theorem string_of_stops (h : Stops isQuote cs) : string cs = none := by
  unfold string
  split
  next => cases stops_cons.1 h
  next => cases stops_cons.1 h
  next => exact lineString_of_stops h

theorem takes_basicItem {c : Char} (h : isVerbatim c = true) : basicItem.Takes [c] c where
  ne_nil := List.cons_ne_nil c []
  read rest := by
    simp only [isVerbatim, Bool.and_eq_true, decide_eq_true_eq] at h
    obtain ⟨⟨hplain, hquote⟩, hslash⟩ := h
    show basicItem (c :: rest) = _
    unfold basicItem
    split
    next heq => exact absurd (List.cons.inj heq).1 hslash
    next heq =>
      cases heq
      exact if_pos (by simp [hplain, hquote])
    next heq => cases heq

theorem string_quoted (hne : cs ≠ []) (h : ∀ c ∈ cs, isVerbatim c = true) (rest : List Char) :
    string ('"' :: (cs ++ ['"']) ++ rest) = some (cs, rest) := by
  have hmany : Reader.many basicItem (cs ++ '"' :: rest) = (cs, '"' :: rest) :=
    Reader.many_characters (fun c hc => takes_basicItem (h c hc)) rfl
  have hline : lineString ('"' :: (cs ++ '"' :: rest)) = some (cs, rest) := by
    show quotedBy '"' basicItem (cs ++ '"' :: rest) = _
    unfold quotedBy
    rw [hmany]
    rfl
  obtain ⟨c, cs, rfl⟩ := List.exists_cons_of_ne_nil hne
  have hquote : c ≠ '"' := by
    rintro rfl
    exact absurd (h '"' List.mem_cons_self) (by decide)
  rw [← hline]
  show string ('"' :: (c :: cs ++ ['"'] ++ rest)) = _
  rw [List.append_assoc]
  unfold string
  split
  next heq => exact absurd (List.cons.inj (List.cons.inj heq).2).1 hquote
  next heq => cases heq
  next => rfl

theorem takes_quoted (depth : Nat) {s : String} (h : (Value.text s).isVerbatim = true) :
    (value depth).Takes (quoted s) (.text s) where
  ne_nil := List.cons_ne_nil _ _
  read rest := by
    obtain ⟨hs, hall⟩ := Bool.and_eq_true_iff.1 h
    have hne : s.toList ≠ [] := fun hnil => of_decide_eq_true hs (String.toList_eq_nil_iff.1 hnil)
    have hscalar : value depth (quoted s ++ rest) = scalar (quoted s ++ rest) := value_of_stops (stops_cons.2 rfl)
    rw [hscalar, scalar, quoted, string_quoted hne (List.all_eq_true.1 hall)]
    dsimp only
    rw [String.ofList_toList]

/-! ## Integers -/

/-- Digits that are not led by a zero. -/
structure Decimals (ds : List Char) : Prop where
  digits : ∀ d ∈ ds, d.isDigit = true
  ne_nil : ds ≠ []
  leading : ds.head? ≠ some '0'

theorem decimals_toDigits {n : Nat} (h : 0 < n) : Decimals (Nat.toDigits 10 n) where
  digits _ hd := isDigit_of_mem_toDigits hd
  ne_nil := by simp
  leading hhead := by
    apply head?_digitUnits h
    rw [digitUnits, List.head?_map, hhead]
    rfl

theorem ne_of_isDigit {c d : Char} (hd : d.isDigit = true) (hc : c.isDigit = false) : d ≠ c := by
  rintro rfl
  rw [hd] at hc
  cases hc

theorem takes_digitItem {d : Char} (h : d.isDigit = true) : (digitItem Char.isDigit).Takes [d] d where
  ne_nil := List.cons_ne_nil d []
  read rest := by
    show digitItem Char.isDigit (d :: rest) = _
    unfold digitItem
    split
    next heq => exact absurd (List.cons.inj heq).1 (ne_of_isDigit h (by decide))
    next heq =>
      cases heq
      exact if_pos h
    next heq => cases heq

/-- The number of a field ends behind digits, and so no mark that belongs to a date or a time follows it. -/
theorem mark_of_field {n low high v : Nat} {c : Char} {after : List Char} (hds : ∀ d ∈ ds, d.isDigit = true)
    (hc : c.isDigit = false) (hline : c ≠ '\n') (h : field n low high (ds ++ '\n' :: rest) = some (v, after)) :
    mark c after = none := by
  unfold field at h
  dsimp only at h
  split at h
  next hfield =>
    cases h
    have hle : n ≤ ds.length := by
      by_contra hlt
      have hmem : '\n' ∈ (ds ++ '\n' :: rest).take n := by
        obtain ⟨k, hk⟩ := Nat.exists_eq_add_of_lt (Nat.lt_of_not_le hlt)
        rw [List.take_append, hk, Nat.add_assoc, Nat.add_sub_cancel_left]
        exact List.mem_append_right _ List.mem_cons_self
      have hdigit := List.all_eq_true.1 hfield.2.1 _ hmem
      revert hdigit
      decide
    rw [List.drop_append_of_le_length hle]
    cases hdrop : ds.drop n with
    | nil => exact if_neg hline
    | cons d tail =>
      have hd : d.isDigit = true := hds d (List.mem_of_mem_drop (hdrop ▸ List.mem_cons_self))
      exact if_neg (ne_of_isDigit hd hc).symm
  next => cases h

theorem moment_digits (hds : ∀ d ∈ ds, d.isDigit = true) : moment (ds ++ '\n' :: rest) = none := by
  have hdate : date (ds ++ '\n' :: rest) = none := by
    unfold date
    cases hyear : field 4 0 9999 (ds ++ '\n' :: rest) with
    | none => rfl
    | some result =>
      have hmark : mark '-' result.2 = none := mark_of_field hds (by decide) (by decide) hyear
      simp [hmark]
  have htime : timeOfDay (ds ++ '\n' :: rest) = none := by
    unfold timeOfDay
    cases hhour : field 2 0 23 (ds ++ '\n' :: rest) with
    | none => rfl
    | some result =>
      have hmark : mark ':' result.2 = none := mark_of_field hds (by decide) (by decide) hhour
      simp [hmark]
  rw [moment, hdate, htime]

namespace Decimals

variable (h : Decimals ds)

include h

/-- What a scalar that is no number would begin with. -/
theorem exists_cons : ∃ d tail, ds = d :: tail ∧ d.isDigit = true ∧ d ≠ '0' := by
  obtain ⟨d, tail, rfl⟩ := List.exists_cons_of_ne_nil h.ne_nil
  exact ⟨d, tail, rfl, h.digits d List.mem_cons_self, fun hd => h.leading (congrArg some hd)⟩

theorem stops_isBlank : Stops isBlank ds := by
  obtain ⟨d, tail, rfl, hd, -⟩ := h.exists_cons
  have hblank : isBlank d = false := by
    simp [isBlank, ne_of_isDigit hd (c := ' ') (by decide), ne_of_isDigit hd (c := '\t') (by decide)]
  exact stops_cons.2 hblank

theorem signMark_append (rest : List Char) : signMark (ds ++ rest) = ([], ds ++ rest) := by
  obtain ⟨d, tail, rfl, hd, -⟩ := h.exists_cons
  unfold signMark
  split
  next heq => exact absurd (List.cons.inj heq).1 (ne_of_isDigit hd (by decide))
  next heq => exact absurd (List.cons.inj heq).1 (ne_of_isDigit hd (by decide))
  next => rfl

theorem splitSign_eq : Decimal.splitSign ds = (false, ds) := by
  obtain ⟨d, tail, rfl, hd, -⟩ := h.exists_cons
  unfold Decimal.splitSign
  split
  next heq => exact absurd (List.cons.inj heq).1 (ne_of_isDigit hd (by decide))
  next heq => exact absurd (List.cons.inj heq).1 (ne_of_isDigit hd (by decide))
  next => rfl

theorem decimalRun_append (rest : List Char) : decimalRun (ds ++ '\n' :: rest) = some (ds, '\n' :: rest) := by
  unfold decimalRun
  rw [h.signMark_append]
  obtain ⟨d, tail, rfl, hd, hzero⟩ := h.exists_cons
  have hmany : Reader.many (digitItem Char.isDigit) (tail ++ '\n' :: rest) = (tail, '\n' :: rest) :=
    Reader.many_characters (fun c hc => takes_digitItem (h.digits c (List.mem_cons_of_mem d hc))) rfl
  have hrun : digitRun Char.isDigit (d :: tail ++ '\n' :: rest) = some (d :: tail, '\n' :: rest) := by
    unfold digitRun
    rw [List.cons_append]
    dsimp only
    rw [if_pos hd, hmany]
  dsimp only
  split
  next heq => exact absurd (List.cons.inj heq).1 hzero
  next =>
    rw [hrun]
    rfl

theorem float_append (rest : List Char) : float (ds ++ '\n' :: rest) = none := by
  have hdigits : digitFloat (ds ++ '\n' :: rest) = none := by
    unfold digitFloat
    rw [h.decimalRun_append]
    rfl
  have hword : wordFloat (ds ++ '\n' :: rest) = none := by
    unfold wordFloat
    rw [h.signMark_append]
    obtain ⟨d, tail, rfl, hd, -⟩ := h.exists_cons
    dsimp only
    split
    next heq => exact absurd (List.cons.inj heq).1 (ne_of_isDigit hd (by decide))
    next heq => exact absurd (List.cons.inj heq).1 (ne_of_isDigit hd (by decide))
    next => rfl
  rw [float, Reader.orElse, hdigits, hword]
  rfl

theorem integer_append (hbound : Decimal.value ds < 0x8000000000000000) (rest : List Char) :
    integer (ds ++ '\n' :: rest) = some ((Decimal.value ds : Int), '\n' :: rest) := by
  have hdecimal : decimalInteger (ds ++ '\n' :: rest) = some ((Decimal.value ds : Int), '\n' :: rest) := by
    have hbounded : bounded (Decimal.value ds : Int) = some (Decimal.value ds : Int) := if_pos (by omega)
    unfold decimalInteger
    rw [h.decimalRun_append]
    simp [h.splitSign_eq, hbounded]
  rw [← hdecimal]
  obtain ⟨d, tail, rfl, -, hzero⟩ := h.exists_cons
  unfold integer
  split
  next heq => exact absurd (List.cons.inj heq).1 hzero
  next heq => exact absurd (List.cons.inj heq).1 hzero
  next heq => exact absurd (List.cons.inj heq).1 hzero
  next => rfl

/-- An integer at the end of a line. -/
theorem value_append (hbound : Decimal.value ds < 0x8000000000000000) (rest : List Char) :
    value depth (ds ++ '\n' :: rest) = some (.integer (Decimal.value ds), '\n' :: rest) := by
  have hmoment : moment (ds ++ '\n' :: rest) = none := moment_digits h.digits
  have hfloat := h.float_append rest
  have hinteger := h.integer_append hbound rest
  obtain ⟨d, tail, rfl, hd, -⟩ := h.exists_cons
  have hopening : isOpening d = false := by
    simp [isOpening, ne_of_isDigit hd (c := '[') (by decide), ne_of_isDigit hd (c := '\x7b') (by decide)]
  have hquote : isQuote d = false := by
    simp [isQuote, ne_of_isDigit hd (c := '"') (by decide), ne_of_isDigit hd (c := '\'') (by decide)]
  have hstring : string (d :: tail ++ '\n' :: rest) = none := string_of_stops (stops_cons.2 hquote)
  have hboolean : boolean (d :: tail ++ '\n' :: rest) = none := by
    unfold boolean
    split
    next heq => exact absurd (List.cons.inj heq).1 (ne_of_isDigit hd (by decide))
    next heq => exact absurd (List.cons.inj heq).1 (ne_of_isDigit hd (by decide))
    next => rfl
  have hscalar : value depth (d :: tail ++ '\n' :: rest) = scalar (d :: tail ++ '\n' :: rest) :=
    value_of_stops (stops_cons.2 hopening)
  rw [hscalar, scalar, hstring, hboolean, hmoment, hfloat, hinteger]
  rfl

end Decimals

theorem value_zero (rest : List Char) : value depth ('0' :: '\n' :: rest) = some (.integer 0, '\n' :: rest) := by
  have hscalar : value depth ('0' :: '\n' :: rest) = scalar ('0' :: '\n' :: rest) :=
    value_of_stops (stops_cons.2 (by decide))
  have hstring : string ('0' :: '\n' :: rest) = none := string_of_stops (stops_cons.2 (by decide))
  have hmoment : moment (['0'] ++ '\n' :: rest) = none := moment_digits (List.forall_mem_singleton.2 (by decide))
  rw [hscalar, scalar, hstring]
  dsimp only
  rw [show boolean ('0' :: '\n' :: rest) = none from rfl, show moment ('0' :: '\n' :: rest) = none from hmoment]
  rfl

/-- A natural number of 64 bits at the end of a line. -/
theorem value_toDigits {n : Nat} (hbound : n < 0x8000000000000000) (rest : List Char) :
    value depth (Nat.toDigits 10 n ++ '\n' :: rest) = some (.integer n, '\n' :: rest) := by
  rcases Nat.eq_zero_or_pos n with rfl | hpos
  · exact value_zero rest
  · have hvalue : Decimal.value (Nat.toDigits 10 n) = n := Nat.ofDigitChars_ten_toDigits
    have hread : value depth (Nat.toDigits 10 n ++ '\n' :: rest) =
        some (.integer (Decimal.value (Nat.toDigits 10 n)), '\n' :: rest) :=
      (decimals_toDigits hpos).value_append (hvalue.symm ▸ hbound) rest
    rwa [hvalue] at hread

/-! ## Arrays -/

/-- No value begins with the bracket that closes an array. -/
theorem value_bracket (depth : Nat) (rest : List Char) : value depth (']' :: rest) = none := by
  have hscalar : value depth (']' :: rest) = scalar (']' :: rest) := value_of_stops (stops_cons.2 rfl)
  have hmoment : moment (']' :: rest) = none := by
    have hfield : ∀ n low high, field (n + 1) low high (']' :: rest) = none := by
      intro n low high
      exact if_neg (by simp)
    simp [moment, date, timeOfDay, hfield]
  have hstring : string (']' :: rest) = none := string_of_stops (stops_cons.2 rfl)
  rw [hscalar, scalar, hstring, hmoment]
  rfl

theorem element_bracket (hgap : gap cs = ']' :: rest) : element (value depth) cs = none := by
  unfold element
  rw [hgap, value_bracket]
  rfl

theorem gap_lineFeed (rest : List Char) : gap ('\n' :: ']' :: rest) = ']' :: rest :=
  gap_newline (List.forall_mem_nil _) (stops_cons.2 rfl)

section Arrays

variable {α : Type} {text : α → List Char} {node : α → Node} {a : α} {as : List α}

/-- The elements of an array: values that do not look like something between two elements. -/
structure Elements (depth : Nat) (text : α → List Char) (node : α → Node) (as : List α) : Prop where
  takes : ∀ a ∈ as, (value depth).Takes (text a) (node a)
  starts : ∀ a ∈ as, Stops isFiller (text a)

namespace Elements

theorem tail (h : Elements depth text node (a :: as)) : Elements depth text node as where
  takes b hb := h.takes b (List.mem_cons_of_mem a hb)
  starts b hb := h.starts b (List.mem_cons_of_mem a hb)

variable (h : Elements depth text node (a :: as))

include h

theorem stops (rest : List Char) : Stops isFiller (text a ++ rest) :=
  stops_append (h.starts a List.mem_cons_self) fun hnil => absurd hnil (h.takes a List.mem_cons_self).ne_nil

theorem element_eq (hgap : gap cs = text a ++ rest) (hrest : Stops isFiller rest) :
    element (value depth) cs = some (node a, rest) := by
  unfold element
  rw [hgap, (h.takes a List.mem_cons_self).read rest]
  show some (node a, gap rest) = _
  rw [gap_of_stops hrest]

theorem element_indented (rest : List Char) :
    element (value depth) ('\n' :: (indent ++ (text a ++ ',' :: rest))) = some (node a, ',' :: rest) :=
  h.element_eq (gap_newline (List.all_eq_true.1 rfl) (h.stops _)) (stops_cons.2 rfl)

end Elements

/-- Elements on lines of their own, in front of something else. -/
theorem flatMap_indented_cons (text : α → List Char) (a : α) (as : List α) (rest : List Char) :
    (a :: as).flatMap (indented ∘ text) ++ rest =
      indent ++ (text a ++ ',' :: '\n' :: (as.flatMap (indented ∘ text) ++ rest)) := by
  simp [indented]

/-- The elements behind the first one; the comma behind the last one is left. -/
theorem Elements.many_further (h : Elements depth text node as) (rest : List Char) :
    Reader.many (furtherOf (element (value depth))) (',' :: '\n' :: (as.flatMap (indented ∘ text) ++ ']' :: rest)) =
      (as.map node, ',' :: '\n' :: ']' :: rest) := by
  induction as with
  | nil =>
    apply Reader.many_of_none
    exact element_bracket (gap_lineFeed rest)
  | cons a as ih =>
    rw [flatMap_indented_cons]
    have hfirst : furtherOf (element (value depth)) (',' :: '\n' :: (indent ++ (text a ++ ',' :: '\n' ::
        (as.flatMap (indented ∘ text) ++ ']' :: rest)))) =
        some (node a, ',' :: '\n' :: (as.flatMap (indented ∘ text) ++ ']' :: rest)) :=
      h.element_indented _
    rw [Reader.many_of_some hfirst (by simp; omega), ih h.tail]
    rfl

/-- Elements on lines of their own, up to the closing bracket. -/
theorem Elements.arrayItems_lines (h : Elements depth text node (a :: as)) (rest : List Char) :
    arrayItems (value depth) ('\n' :: ((a :: as).flatMap (indented ∘ text) ++ ']' :: rest)) =
      some ((a :: as).map node, rest) := by
  rw [flatMap_indented_cons]
  have hfirst := h.element_indented ('\n' :: (as.flatMap (indented ∘ text) ++ ']' :: rest))
  have hmany := h.tail.many_further rest
  simp [arrayItems, hfirst, hmany, gap_lineFeed]

theorem Elements.arrayItems_single (h : Elements depth text node [a]) (rest : List Char) :
    arrayItems (value depth) (text a ++ ']' :: rest) = some ([node a], rest) := by
  have hfirst : element (value depth) (text a ++ ']' :: rest) = some (node a, ']' :: rest) :=
    h.element_eq (gap_of_stops (h.stops _)) (stops_cons.2 rfl)
  have hmany : Reader.many (furtherOf (element (value depth))) (']' :: rest) = ([], ']' :: rest) :=
    Reader.many_of_none rfl
  simp [arrayItems, hfirst, hmany]

theorem arrayItems_nil (depth : Nat) (rest : List Char) :
    arrayItems (value depth) (']' :: rest) = some ([], rest) := by
  have hgap : gap (']' :: rest) = ']' :: rest := gap_of_stops (stops_cons.2 rfl)
  simp [arrayItems, element_bracket hgap, hgap]

theorem value_of_arrayItems {items : List Node} (h : arrayItems (value depth) cs = some (items, rest)) :
    value (depth + 1) ('[' :: cs) = some (.array items, rest) := by
  show (arrayItems (value depth) cs).map _ = _
  rw [h]
  rfl

/-- Every list of elements is read back from its array. -/
theorem Elements.takes_array (h : Elements depth text node as) :
    (value (depth + 1)).Takes (arrayOf (as.map text)) (.array (as.map node)) where
  ne_nil := by
    unfold arrayOf
    split <;> exact List.cons_ne_nil _ _
  read rest := by
    match as, h with
    | [], _ => exact value_of_arrayItems (arrayItems_nil depth rest)
    | [a], h =>
      have hitems := h.arrayItems_single rest
      rw [List.append_cons] at hitems
      exact value_of_arrayItems hitems
    | a :: b :: as, h =>
      have hitems := h.arrayItems_lines rest
      have hmap : ((a :: b :: as).map text).flatMap indented = (a :: b :: as).flatMap (indented ∘ text) :=
        List.flatMap_map ..
      rw [← hmap, List.append_cons] at hitems
      exact value_of_arrayItems hitems

end Arrays

/-! ## Keys -/

/-- A key without quotes. -/
structure IsBare (name : String) : Prop where
  ne_nil : name.toList ≠ []
  bare : ∀ c ∈ name.toList, isBare c = true

theorem ne_of_isBare {c d : Char} (hd : isBare d = true) (hc : isBare c = false) : d ≠ c := by
  rintro rfl
  rw [hd] at hc
  cases hc

namespace IsBare

variable {name : String} (h : IsBare name)

include h

theorem exists_cons : ∃ c tail, name.toList = c :: tail ∧ isBare c = true := by
  obtain ⟨c, tail, hname⟩ := List.exists_cons_of_ne_nil h.ne_nil
  exact ⟨c, tail, hname, h.bare c (hname ▸ List.mem_cons_self)⟩

/-- Nothing in front of a bare key is skipped. -/
theorem skipBlanks_append (rest : List Char) : skipBlanks (name.toList ++ rest) = name.toList ++ rest := by
  obtain ⟨c, tail, hname, hc⟩ := h.exists_cons
  have hblank : isBlank c = false := by
    simp [isBlank, ne_of_isBare hc (c := ' ') (by decide), ne_of_isBare hc (c := '\t') (by decide)]
  rw [hname]
  exact skipBlanks_of_stops (stops_cons.2 hblank)

theorem keyPart_append (hstop : Stops isBare rest) : keyPart (name.toList ++ rest) = some (name.toList, rest) := by
  have hline : lineString (name.toList ++ rest) = none := by
    obtain ⟨c, tail, hname, hc⟩ := h.exists_cons
    have hquote : isQuote c = false := by
      simp [isQuote, ne_of_isBare hc (c := '"') (by decide), ne_of_isBare hc (c := '\'') (by decide)]
    rw [hname]
    exact lineString_of_stops (stops_cons.2 hquote)
  have htake : (name.toList ++ rest).takeWhile Toml.isBare = name.toList := takeWhile_append_of_stops h.bare hstop
  unfold keyPart
  rw [hline, htake]
  dsimp only
  rw [if_neg h.ne_nil, List.drop_left]
  rfl

theorem key_append (hstop : Stops isBare rest) (hpart : furtherPart (skipBlanks rest) = none) :
    key (name.toList ++ rest) = some (([], name), skipBlanks rest) := by
  have hfirst := h.keyPart_append hstop
  have hmany := Reader.many_of_none hpart
  simp [key, h.skipBlanks_append, hfirst, hmany, maxParts]

/-! ## Statements -/

theorem header_append (rest : List Char) :
    header ('[' :: (name.toList ++ ']' :: rest)) = some (.header [] name, rest) := by
  have hkey : key (name.toList ++ ']' :: rest) = some (([], name), ']' :: rest) :=
    h.key_append (stops_cons.2 (by decide)) rfl
  obtain ⟨c, tail, hname, hc⟩ := h.exists_cons
  rw [hname] at hkey ⊢
  unfold header
  split
  next heq => exact absurd (List.cons.inj (List.cons.inj heq).2).1 (ne_of_isBare hc (by decide))
  next heq =>
    cases heq
    rw [hkey]
    rfl
  next hno => exact absurd rfl (hno _)

/-- A value that is read up to the end of its line. -/
theorem statement_append (hskip : skipBlanks (text ++ '\n' :: rest) = text ++ '\n' :: rest)
    (hvalue : value maxDepth (text ++ '\n' :: rest) = some (node, '\n' :: rest)) :
    statement (name.toList ++ ' ' :: '=' :: ' ' :: (text ++ '\n' :: rest)) =
      some (.entry [] name node, '\n' :: rest) := by
  have hkey : key (name.toList ++ ' ' :: '=' :: ' ' :: (text ++ '\n' :: rest)) =
      some (([], name), '=' :: ' ' :: (text ++ '\n' :: rest)) :=
    h.key_append (stops_cons.2 (by decide)) rfl
  have hblank : skipBlanks (' ' :: (text ++ '\n' :: rest)) = text ++ '\n' :: rest := hskip
  have hend : skipBlanks ('\n' :: rest) = '\n' :: rest := rfl
  have hentry : entry (value maxDepth) (name.toList ++ ' ' :: '=' :: ' ' :: (text ++ '\n' :: rest)) =
      some ((([], name), node), '\n' :: rest) := by
    simp [entry, hkey, hblank, hvalue, hend]
  obtain ⟨c, tail, hname, hc⟩ := h.exists_cons
  rw [hname] at hentry ⊢
  unfold statement
  split
  next heq => exact absurd (List.cons.inj heq).1 (ne_of_isBare hc (by decide))
  next =>
    rw [hentry]
    rfl

end IsBare

/-! ## Lines -/

theorem line_of_statement {s : Statement} (hskip : skipBlanks cs = cs) (h : statement cs = some (s, '\n' :: rest)) :
    line cs = some (some s, rest) := by
  have hend : endOfLine ('\n' :: rest) = some rest := rfl
  unfold line
  rw [hskip, h]
  dsimp only
  rw [hend]
  rfl

theorem IsBare.takes_header {name : String} (h : IsBare name) :
    line.Takes (headerLine name) (some (.header [] name)) where
  ne_nil := List.cons_ne_nil _ _
  read rest := by
    have hstatement : statement ('[' :: (name.toList ++ ']' :: '\n' :: rest)) = some (.header [] name, '\n' :: rest) :=
      h.header_append ('\n' :: rest)
    have hline := line_of_statement (skipBlanks_of_stops (stops_cons.2 rfl)) hstatement
    simpa [headerLine] using hline

theorem IsBare.takes_entry {name : String} {v : Value} (h : IsBare name) (hstart : Stops isBlank (v.layout ++ ['\n']))
    (hvalue : ∀ rest, value maxDepth (v.layout ++ '\n' :: rest) = some (node, '\n' :: rest)) :
    line.Takes (entryLine name v) (some (.entry [] name node)) where
  ne_nil := List.append_ne_nil_of_left_ne_nil h.ne_nil _
  read rest := by
    have hstops : Stops isBlank (v.layout ++ ['\n'] ++ rest) :=
      stops_append hstart fun hnil => absurd hnil (List.append_ne_nil_of_right_ne_nil _ (List.cons_ne_nil _ _))
    rw [List.append_assoc] at hstops
    have hline := line_of_statement (h.skipBlanks_append _)
      (h.statement_append (skipBlanks_of_stops hstops) (hvalue rest))
    simpa [entryLine] using hline

theorem takes_blank : line.Takes ['\n'] none where
  ne_nil := List.cons_ne_nil _ _
  read rest := by
    have hkey : key ('\n' :: rest) = none := rfl
    have hstatement : statement ('\n' :: rest) = none := by
      simp [statement, entry, hkey]
    have hskip : skipBlanks ('\n' :: rest) = '\n' :: rest := rfl
    have hend : endOfLine ('\n' :: rest) = some rest := rfl
    show line ('\n' :: rest) = some (none, rest)
    simp [line, hskip, hstatement, hend]

/-- Lines one after another are a document. -/
theorem statements_flatten {lines : List (List Char)} {found : List (Option Statement)}
    (h : List.Forall₂ line.Takes lines found) : Document.statements lines.flatten = some (found.filterMap id) := by
  have hline : line [] = some (none, []) := rfl
  have hstop : Reader.many line [] = ([], []) := by
    rw [Reader.many, hline]
    rfl
  have hmany := Reader.many_flatten h hstop
  rw [List.append_nil] at hmany
  rw [Document.statements, hmany]
  rfl

end ManagedRuntime.Toml
