import ManagedRuntime.Execution.Raising
import ManagedRuntime.Proofs.Memory.Blocks
import ManagedRuntime.Proofs.SharedArray.Refinement

/-!
# Memory as arrays of bytes

Named blocks behave as arrays of bytes that share nothing, as long as all accesses stay inside of them.

* `Arrays.run` : the commands on arrays, told whether the allocator grants a request;
* `Arrays.stored?` : the value that a command stores in a place of an array, if it stores one;
* `step_agrees` : a command does on the contents of blocks what it does on arrays;
* `memory_acts_as_arrays` : so do sequences of commands, with an allocator that is free at every step.
-/

namespace ManagedRuntime.Memory

set_option autoImplicit false

/-! ## Arrays of bytes -/

/-- The bytes under each name; a null pointer has none. -/
abbrev Arrays := String → List (Option UInt8)

namespace Arrays

def write (arrays : Arrays) (name : String) (bytes : List (Option UInt8)) : Arrays :=
  fun k => if k = name then bytes else arrays k

/-- A new array for a positive size, if it is granted. -/
def request (arrays : Arrays) (granted : Bool) (name : String) (size : Int32) (bytes : Nat → List (Option UInt8)) :
    Except Failure Reply × Arrays :=
  let n := Word.toSize size
  if n = 0 then (.ok (.block false), arrays.write name [])
  else if granted then (.ok (.block true), arrays.write name (bytes n))
  else (.error (.outOfMemory n), arrays)

/-- Store bytes in the place of others. -/
def store (arrays : Arrays) (name : String) (offset : Nat) (bytes : List (Option UInt8)) :
    Except Failure Reply × Arrays :=
  (.ok .done, arrays.write name (overwrite (arrays name) offset bytes))

def run (arrays : Arrays) : Bool × Command → Except Failure Reply × Arrays
  | (granted, .get name size) => arrays.request granted name size fun n => List.replicate n none
  | (granted, .allocate name size) => arrays.request granted name size fun n => List.replicate n (some 0)
  | (granted, .resize name size) =>
    arrays.request granted name size fun n =>
      (arrays name).take n ++ List.replicate (n - (arrays name).length) none
  | (_, .free name) => (.ok .done, arrays.write name [])
  | (_, .fill name offset count value) => arrays.store name offset (List.replicate (Word.toSize count) (some value))
  | (_, .move source start target offset count) =>
    arrays.store target offset (((arrays source).drop start).take (Word.toSize count))
  | (_, .write name offset values) => arrays.store name offset (values.map some)
  | (_, .read name offset count) => (.ok (.bytes (((arrays name).drop offset).take count)), arrays)

/-- Some bytes of a name, if there are any at all, lie in its array. -/
def Inside (arrays : Arrays) (name : String) (offset n : Nat) : Prop := 0 < n → offset + n ≤ (arrays name).length

/-- All accesses of a command stay inside of the arrays. -/
def Within (arrays : Arrays) : Command → Prop
  | .fill name offset count _ => arrays.Inside name offset (Word.toSize count)
  | .move source start target offset count =>
    arrays.Inside source start (Word.toSize count) ∧ arrays.Inside target offset (Word.toSize count)
  | .write name offset values => arrays.Inside name offset values.length
  | .read name offset count => arrays.Inside name offset count
  | .get .. | .allocate .. | .resize .. | .free _ => True

/--
The value that a command stores in place `i` of the array `name`. A new place has a value only if the allocator
clears it; a move stores what the source holds before it.
-/
def stored? (arrays : Arrays) (name : String) (i : Nat) : Bool × Command → Option (Option UInt8)
  | (granted, .get k size) => if granted ∧ name = k ∧ i < Word.toSize size then some none else none
  | (granted, .allocate k size) => if granted ∧ name = k ∧ i < Word.toSize size then some (some 0) else none
  | (granted, .resize k size) =>
    if granted ∧ name = k ∧ (arrays k).length ≤ i ∧ i < Word.toSize size then some none else none
  | (_, .fill k offset count value) =>
    if name = k ∧ offset ≤ i ∧ i < offset + Word.toSize count then some (some value) else none
  | (_, .move source start k offset count) =>
    if name = k ∧ offset ≤ i ∧ i < offset + Word.toSize count then (arrays source)[start + (i - offset)]? else none
  | (_, .write k offset values) =>
    if name = k ∧ offset ≤ i ∧ i < offset + values.length then (values.map some)[i - offset]? else none
  | (_, .free _) | (_, .read ..) => none

end Arrays

/-! ## Commands -/

/-- Whether the allocator has a place for what a command requests. -/
def Command.granted (a : Allocator) (m : Memory) : Command → Bool
  | .get _ size | .allocate _ size => (a.place? m.inUse (Word.toSize size)).isSome
  | .resize name size => (a.place? (m.free name).inUse (Word.toSize size)).isSome
  | _ => true

/-- A command, with the allocator as it is then. -/
def step (m : Memory) : Allocator × Command → Except Failure Reply × Memory
  | (a, c) => Session.keeping (Command.run a) m c

/-- A command on memory has done what it does on arrays. -/
structure Agrees (r : Except Failure Reply × Memory) (q : Except Failure Reply × Arrays) : Prop where
  valid : r.2.Valid
  contents : r.2.contents = q.2
  reply : r.1 = q.1

variable {m : Memory} {a : Allocator} {c : Command} {name : String}

theorem step_of_ok {reply : Reply} {m' : Memory} (h : c.run a m = .ok (reply, m')) : m.step (a, c) = (.ok reply, m') := by
  simp only [step, Session.keeping, h]

theorem step_of_error {f : Failure} (h : c.run a m = .error f) : m.step (a, c) = (.error f, m) := by
  simp only [step, Session.keeping, h]

theorem contents_free_eq_write (m : Memory) (name : String) :
    (m.free name).contents = Arrays.write m.contents name [] := by
  funext k
  rw [contents_free, Arrays.write]

/-- A request agrees with that on arrays, whatever the allocator answers. -/
theorem request_agrees (h : m.Valid) {inUse : List Block} {size : Int32} {value : Nat → Option UInt8}
    {bytes : Nat → List (Option UInt8)}
    (hrun : c.run a m = Command.requesting name (m.request a inUse name size value))
    (hin : ∀ b ∈ (m.free name).inUse, b ∈ inUse) (hbytes : ∀ n, (List.range n).map value = bytes n) :
    Agrees (m.step (a, c))
      (Arrays.request m.contents (a.place? inUse (Word.toSize size)).isSome name size bytes) := by
  unfold Memory.request at hrun
  unfold Arrays.request
  dsimp only at hrun ⊢
  by_cases hn : Word.toSize size = 0
  · rw [if_pos hn] at hrun
    rw [if_pos hn, step_of_ok hrun]
    refine ⟨h.free name, contents_free_eq_write m name, ?_⟩
    have hnone : (m.free name).isBlock name = false := by
      rw [isBlock, free, lookup_filter_ne, if_pos rfl, Option.isSome_none]
    rw [hnone]
  · rw [if_neg hn] at hrun ⊢
    cases hp : a.place? inUse (Word.toSize size) with
    | none =>
      rw [hp] at hrun
      rw [step_of_error hrun]
      exact ⟨h, rfl, rfl⟩
    | some address =>
      rw [hp] at hrun
      obtain ⟨hpos, hapart⟩ := a.fresh _ _ _ hp
      have hfresh : ∀ b ∈ (m.free name).inUse, b.Apart ⟨address, Word.toSize size⟩ := fun b hb =>
        hapart b (hin b hb)
      rw [step_of_ok hrun]
      refine ⟨h.place ⟨hpos, Nat.pos_of_ne_zero hn⟩ hfresh value, ?_, ?_⟩
      · funext k
        rw [contents_place m hfresh, ← hbytes]
        rfl
      · have hsome : (m.place name ⟨address, Word.toSize size⟩ value).isBlock name = true := by
          rw [isBlock, place, List.lookup_cons_self, Option.isSome_some]
        rw [hsome]
        rfl

/-- What is stored inside of a block agrees with that on arrays. -/
theorem store_agrees (h : m.Valid) {offset n : Nat} {value : Nat → Option UInt8} {bytes : List (Option UInt8)}
    (hrun : c.run a m = .ok (.done, m.store ((m.block name).address + offset) n value))
    (hin : Arrays.Inside m.contents name offset n) (hbytes : (List.range n).map value = bytes) :
    Agrees (m.step (a, c)) (Arrays.store m.contents name offset bytes) := by
  rw [step_of_ok hrun, Arrays.store]
  refine ⟨h.store _ _ _, ?_, rfl⟩
  funext k
  rw [h.contents_store hin, hbytes]
  rfl

/-- A part of a block is a part of its contents. -/
theorem load_of_inside {offset n : Nat} (h : Arrays.Inside m.contents name offset n) :
    m.load ((m.block name).address + offset) n = ((m.contents name).drop offset).take n := by
  refine List.ext_getElem? fun i => ?_
  rw [getElem?_load]
  by_cases hi : i < n
  · have hlength := h (by omega)
    rw [length_contents] at hlength
    rw [if_pos hi, List.getElem?_take_of_lt hi, List.getElem?_drop, contents, getElem?_load, if_pos (by omega),
      Nat.add_assoc]
  · rw [if_neg hi, List.getElem?_eq_none (by rw [List.length_take]; omega)]

/-- The places of an array that has been cut or made longer. -/
theorem getElem?_resized (xs : List (Option UInt8)) (n i : Nat) :
    (xs.take n ++ List.replicate (n - xs.length) none)[i]? =
      if i < n then if i < xs.length then xs[i]? else some none else none := by
  by_cases hi : i < n
  · rw [if_pos hi]
    by_cases hold : i < xs.length
    · rw [if_pos hold, List.getElem?_append_left (by rw [List.length_take]; omega), List.getElem?_take_of_lt hi]
    · rw [if_neg hold, List.getElem?_append_right (by rw [List.length_take]; omega), List.getElem?_replicate,
        if_pos (by rw [List.length_take]; omega)]
  · rw [if_neg hi, List.getElem?_eq_none]
    rw [List.length_append, List.length_take, List.length_replicate]
    omega

/-- A block of another size has the bytes of the old one as far as both reach. -/
theorem resized_bytes (m : Memory) (name : String) (n : Nat) :
    (List.range n).map (fun i => if i < (m.block name).size then m.bytes ((m.block name).address + i) else none) =
      (m.contents name).take n ++ List.replicate (n - (m.contents name).length) none := by
  refine List.ext_getElem? fun i => ?_
  rw [getElem?_map_range, getElem?_resized, length_contents, contents, getElem?_load]
  by_cases hold : i < (m.block name).size
  · rw [if_pos hold, if_pos hold, if_pos hold]
  · rw [if_neg hold, if_neg hold]

theorem map_range_getElem? (values : List UInt8) :
    (List.range values.length).map (fun i => values[i]?) = values.map some := by
  refine List.ext_getElem? fun i => ?_
  rw [getElem?_map_range, List.getElem?_map]
  by_cases hi : i < values.length
  · rw [if_pos hi, List.getElem?_eq_getElem hi, Option.map_some]
  · rw [if_neg hi, List.getElem?_eq_none (by omega), Option.map_none]

theorem map_range_const (value : Option UInt8) (n : Nat) :
    (List.range n).map (fun _ => value) = List.replicate n value := by
  rw [List.map_const', List.length_range]

/-- **A command does to the contents of blocks what it does to arrays**, if all its accesses stay inside of them. -/
theorem step_agrees (h : m.Valid) (a : Allocator) (c : Command) (hw : Arrays.Within m.contents c) :
    Agrees (m.step (a, c)) (Arrays.run m.contents (c.granted a m, c)) := by
  have hothers : ∀ name, ∀ b ∈ (m.free name).inUse, b ∈ m.inUse := fun name b hb => by
    obtain ⟨e, he, rfl⟩ := List.mem_map.1 hb
    exact List.mem_map_of_mem (List.mem_filter.1 he).1
  cases c with
  | get name size => exact request_agrees h rfl (hothers name) (map_range_const none)
  | allocate name size => exact request_agrees h rfl (hothers name) (map_range_const (some 0))
  | resize name size => exact request_agrees h rfl (fun _ hb => hb) (resized_bytes m name)
  | free name => exact ⟨h.free name, contents_free_eq_write m name, rfl⟩
  | fill name offset count value => exact store_agrees h rfl hw (map_range_const (some value) _)
  | move source start target offset count => exact store_agrees h rfl hw.2 (load_of_inside hw.1)
  | write name offset values => exact store_agrees h rfl hw (map_range_getElem? values)
  | read name offset count =>
    refine ⟨h, rfl, ?_⟩
    change Except.ok (Reply.bytes (m.load _ count)) = _
    rw [load_of_inside hw]
    rfl

/-! ## What is stored -/

namespace Arrays

variable {arrays : Arrays} {k : String} {i : Nat} {v : Option UInt8}

/-- A part that lies inside of an array is as long as it is asked for. -/
theorem length_part {offset n : Nat} (hin : arrays.Inside name offset n) :
    (((arrays name).drop offset).take n).length = n := by
  rw [List.length_take, List.length_drop]
  rcases Nat.eq_zero_or_pos n with rfl | hn
  · exact Nat.zero_min _
  · have hlength := hin hn
    omega

/-- A place that is stored inside of an array has the new value, and the other places have what they had. -/
theorem store_cases {offset : Nat} {bytes : List (Option UInt8)} (hin : arrays.Inside name offset bytes.length)
    (hv : ((arrays.store name offset bytes).2 k)[i]? = some v) :
    ((k = name ∧ offset ≤ i ∧ i < offset + bytes.length) ∧ bytes[i - offset]? = some v) ∨
      (¬(k = name ∧ offset ≤ i ∧ i < offset + bytes.length) ∧ (arrays k)[i]? = some v) := by
  change (if k = name then overwrite (arrays name) offset bytes else arrays k)[i]? = some v at hv
  by_cases hk : k = name
  · subst hk
    rw [if_pos rfl] at hv
    rcases Nat.eq_zero_or_pos bytes.length with hzero | hpos
    · rw [List.eq_nil_of_length_eq_zero hzero, overwrite_nil] at hv
      exact .inr ⟨by omega, hv⟩
    · rw [getElem?_overwrite (hin hpos)] at hv
      split at hv
      · next hi => exact .inl ⟨⟨rfl, hi⟩, hv⟩
      · next hi => exact .inr ⟨fun hr => hi hr.2, hv⟩
  · rw [if_neg hk] at hv
    exact .inr ⟨fun hr => hk hr.1, hv⟩

/-- A request changes no array but the one that it gives. -/
theorem request_cases {granted : Bool} {size : Int32} {bytes : Nat → List (Option UInt8)}
    (hv : ((arrays.request granted name size bytes).2 k)[i]? = some v) :
    ((granted = true ∧ k = name) ∧ (bytes (Word.toSize size))[i]? = some v) ∨
      (¬(granted = true ∧ k = name) ∧ (arrays k)[i]? = some v) := by
  unfold request at hv
  dsimp only at hv
  split at hv
  · change (if k = name then [] else arrays k)[i]? = some v at hv
    split at hv
    · cases hv
    · next hk => exact .inr ⟨fun hg => hk hg.2, hv⟩
  split at hv
  · next hg =>
    change (if k = name then bytes (Word.toSize size) else arrays k)[i]? = some v at hv
    split at hv
    · next hk => exact .inl ⟨⟨hg, hk⟩, hv⟩
    · next hk => exact .inr ⟨fun hg => hk hg.2, hv⟩
  · next hg => exact .inr ⟨fun hg' => hg hg'.1, hv⟩

/-- **What is found in a place has been stored by the last command, or was there before it.** -/
theorem stored_or_kept {granted : Bool} {c : Command} (hw : arrays.Within c)
    (hv : ((arrays.run (granted, c)).2 k)[i]? = some v) :
    arrays.stored? k i (granted, c) = some v ∨
      (arrays.stored? k i (granted, c) = none ∧ (arrays k)[i]? = some v) := by
  cases c with
  | get name size | allocate name size =>
    rcases request_cases hv with ⟨hg, hnew⟩ | ⟨hg, hold⟩
    · rw [List.getElem?_replicate] at hnew
      split at hnew
      · next hi =>
        cases hnew
        exact .inl (if_pos ⟨hg.1, hg.2, hi⟩)
      · cases hnew
    · exact .inr ⟨if_neg fun hc => hg ⟨hc.1, hc.2.1⟩, hold⟩
  | resize name size =>
    rcases request_cases hv with ⟨hg, hnew⟩ | ⟨hg, hold⟩
    · obtain ⟨hgranted, rfl⟩ := hg
      rw [getElem?_resized] at hnew
      split at hnew
      · next hi =>
        split at hnew
        · next hlength => exact .inr ⟨if_neg (by omega), hnew⟩
        · cases hnew
          exact .inl (if_pos ⟨hgranted, rfl, by omega, hi⟩)
      · cases hnew
    · exact .inr ⟨if_neg fun hc => hg ⟨hc.1, hc.2.1⟩, hold⟩
  | free name =>
    change (if k = name then [] else arrays k)[i]? = some v at hv
    split at hv
    · cases hv
    · exact .inr ⟨rfl, hv⟩
  | fill name offset count value =>
    have hlength := List.length_replicate (n := Word.toSize count) (a := some value)
    rcases store_cases (by rw [hlength]; exact hw) hv with ⟨hr, hnew⟩ | ⟨hr, hold⟩
    · rw [hlength] at hr
      rw [List.getElem?_replicate, if_pos (by omega)] at hnew
      cases hnew
      exact .inl (if_pos hr)
    · rw [hlength] at hr
      exact .inr ⟨if_neg hr, hold⟩
  | move source start target offset count =>
    have hlength := length_part hw.1
    rcases store_cases (by rw [hlength]; exact hw.2) hv with ⟨hr, hnew⟩ | ⟨hr, hold⟩
    · rw [hlength] at hr
      rw [List.getElem?_take_of_lt (by omega), List.getElem?_drop] at hnew
      exact .inl ((if_pos hr).trans hnew)
    · rw [hlength] at hr
      exact .inr ⟨if_neg hr, hold⟩
  | write name offset values =>
    have hlength : (values.map some).length = values.length := List.length_map ..
    rcases store_cases (by rw [hlength]; exact hw) hv with ⟨hr, hnew⟩ | ⟨hr, hold⟩
    · rw [hlength] at hr
      exact .inl ((if_pos hr).trans hnew)
    · rw [hlength] at hr
      exact .inr ⟨if_neg hr, hold⟩
  | read name offset count => exact .inr ⟨rfl, hv⟩

end Arrays

/-! ## Sequences of commands -/

/-- Which requests are granted along a sequence. -/
def grants : Memory → List (Allocator × Command) → List (Bool × Command)
  | _, [] => []
  | m, s :: rest => (s.2.granted s.1 m, s.2) :: grants (m.step s).2 rest

/-- Every access stays inside of a block that there is when it is made. -/
def AllWithin : Memory → List (Allocator × Command) → Prop
  | _, [] => True
  | m, s :: rest => Arrays.Within m.contents s.2 ∧ AllWithin (m.step s).2 rest

/-- The values that are stored in place `i` of the block `name`, one after the other. -/
def history (name : String) (i : Nat) : Memory → List (Allocator × Command) → List (Option UInt8)
  | _, [] => []
  | m, s :: rest =>
    (Arrays.stored? m.contents name i (s.2.granted s.1 m, s.2)).toList ++ history name i (m.step s).2 rest

/-- The memory after a sequence of commands. -/
abbrev ran (m : Memory) (steps : List (Allocator × Command)) : Memory := SharedArray.after step m steps

theorem ran_append (m : Memory) (steps rest : List (Allocator × Command)) :
    m.ran (steps ++ rest) = (m.ran steps).ran rest := by
  induction steps generalizing m with
  | nil => rfl
  | cons s steps ih =>
    rw [List.cons_append, ran, SharedArray.after_cons, ran, ran, SharedArray.after_cons]
    exact ih _

theorem valid_ran {steps : List (Allocator × Command)} (h : m.Valid) (hw : AllWithin m steps) : (m.ran steps).Valid := by
  induction steps generalizing m with
  | nil => exact h
  | cons s steps ih =>
    rw [ran, SharedArray.after_cons]
    exact ih (step_agrees h s.1 s.2 hw.1).valid hw.2

/-- A sequence answers as on arrays, and leaves the same contents after every command. -/
theorem run_mirrors {steps : List (Allocator × Command)} (h : m.Valid) (hw : AllWithin m steps) :
    (Session.run step m steps).map (fun (reply, m) => (reply, m.contents)) =
      Session.run Arrays.run m.contents (grants m steps) := by
  induction steps generalizing m with
  | nil => rfl
  | cons s steps ih =>
    have hs := step_agrees h s.1 s.2 hw.1
    have hrest := ih hs.valid hw.2
    have hcontents : (m.step s).2.contents = (Arrays.run m.contents (s.2.granted s.1 m, s.2)).2 := hs.contents
    rw [Session.run, List.map_cons, hrest, grants, Session.run, ← hcontents]
    congr 1
    exact Prod.ext hs.reply hs.contents

/-- What is found in a place is what has been stored there last, or what was there before all commands. -/
theorem history_or_kept {steps : List (Allocator × Command)} (h : m.Valid) (hw : AllWithin m steps) {name : String}
    {i : Nat} {v : Option UInt8} (hv : ((m.ran steps).contents name)[i]? = some v) :
    (history name i m steps).getLast? = some v ∨ (history name i m steps = [] ∧ (m.contents name)[i]? = some v) := by
  induction steps generalizing m with
  | nil => exact .inr ⟨rfl, hv⟩
  | cons s steps ih =>
    have hs := step_agrees h s.1 s.2 hw.1
    rw [ran, SharedArray.after_cons] at hv
    rw [history]
    rcases ih hs.valid hw.2 hv with hlast | ⟨hnil, hkept⟩
    · left
      rw [List.getLast?_append, hlast]
      rfl
    · rw [hnil, List.append_nil]
      have hcontents : (m.step s).2.contents = (Arrays.run m.contents (s.2.granted s.1 m, s.2)).2 := hs.contents
      rw [hcontents] at hkept
      rcases Arrays.stored_or_kept hw.1 hkept with hstored | ⟨hnone, hold⟩
      · left
        rw [hstored]
        rfl
      · right
        rw [hnone]
        exact ⟨rfl, hold⟩

/-! ## Requests that are refused, and commands that do nothing -/

theorem refused_of_requesting {inUse : List Block} {size : Int32} {value : Nat → Option UInt8} {f : Failure}
    (h : Command.requesting name (m.request a inUse name size value) = .error f) :
    0 < Word.toSize size ∧ f = .outOfMemory (Word.toSize size) ∧ a.place? inUse (Word.toSize size) = none := by
  unfold Memory.request at h
  dsimp only at h
  split at h
  · cases h
  next hn =>
  split at h
  · cases h
  · next hp =>
    cases h
    exact ⟨Nat.pos_of_ne_zero hn, rfl, hp⟩

/-- Only a request for a block of some size is refused, for which the allocator has no place. -/
theorem refused_of_run {f : Failure} (h : c.run a m = .error f) :
    (∃ n, 0 < n ∧ f = .outOfMemory n) ∧ c.granted a m = false := by
  have hrefused : ∀ {name size value inUse}, Command.requesting name (m.request a inUse name size value) = .error f →
      (∃ n, 0 < n ∧ f = .outOfMemory n) ∧ (a.place? inUse (Word.toSize size)).isSome = false := by
    intro name size value inUse h
    obtain ⟨hpos, hf, hp⟩ := refused_of_requesting h
    exact ⟨⟨_, hpos, hf⟩, by rw [hp]; rfl⟩
  cases c with
  | get | allocate | resize => exact hrefused h
  | free | fill | move | write | read => cases h

/-- The size or the count of a command. -/
def Command.amount? : Command → Option Int32
  | .get _ size | .allocate _ size | .resize _ size => some size
  | .fill _ _ count _ | .move _ _ _ _ count => some count
  | .free _ | .write .. | .read .. => none

/-- The name for which a command requests a block. -/
def Command.requests? : Command → Option String
  | .get name _ | .allocate name _ | .resize name _ => some name
  | .free _ | .fill .. | .move .. | .write .. | .read .. => none

/-- The memory is the same, but that a name may have become a null pointer. -/
def SameBut (name? : Option String) (m m' : Memory) : Prop :=
  m'.bytes = m.bytes ∧ ∀ k, m'.block k = if name? = some k then .null else m.block k

theorem sameBut_free (m : Memory) (name : String) : SameBut (some name) m (m.free name) := by
  refine ⟨rfl, fun k => ?_⟩
  rw [block_free]
  simp only [Option.some.injEq, eq_comm]

theorem sameBut_store (m : Memory) (address : Nat) (value : Nat → Option UInt8) :
    SameBut none m (m.store address 0 value) := by
  refine ⟨?_, fun k => rfl⟩
  funext b
  rw [bytes_store, if_neg (by omega)]

theorem sameBut_of_amount {w : Int32} (hw : c.amount? = some w) (h : w.toInt ≤ 0) :
    SameBut c.requests? m (m.step (a, c)).2 := by
  have hn : Word.toSize w = 0 := Int.toNat_of_nonpos h
  have hrequest : ∀ {c inUse name value}, c.run a m = Command.requesting name (m.request a inUse name w value) →
      SameBut (some name) m (m.step (a, c)).2 := by
    intro c inUse name value h
    unfold Memory.request at h
    rw [hn] at h
    rw [step_of_ok h]
    exact sameBut_free m name
  cases c with
  | get name size | allocate name size | resize name size =>
    cases hw
    exact hrequest rfl
  | fill name offset count value =>
    cases hw
    have hrun : (Command.fill name offset w value).run a m = .ok (.done, m.fill name offset w value) := rfl
    rw [step_of_ok hrun, fill, hn]
    exact sameBut_store m _ _
  | move source start target offset count =>
    cases hw
    have hrun : (Command.move source start target offset w).run a m =
      .ok (.done, m.move source start target offset w) := rfl
    rw [step_of_ok hrun, move, hn]
    exact sameBut_store m _ _
  | free | write | read => cases hw

/-! ## Independent arrays -/

/-- The exception of a request for which there is no memory. -/
def outOfMemory : Exception := .software Exception.codeOutOfMemory (Text.ofString "Out of memory")

open Execution in
/-- What a sequence of commands has done, from a memory without blocks on. -/
structure ActsAsArrays (steps : List (Allocator × Command)) : Prop where
  /-- Every answer, and all contents after it, are those of the commands on arrays of bytes. -/
  mirrored : (Session.run step .empty steps).map (fun (reply, m) => (reply, m.contents)) =
    Session.run Arrays.run (fun _ => []) (grants .empty steps)
  /-- Every byte of a block is the value that has been stored in its place last. -/
  lastStored : ∀ name i v, ((empty.ran steps).contents name)[i]? = some v →
    (history name i .empty steps).getLast? = some v
  /-- A request that the allocator refuses raises an exception, and leaves the memory as it was. -/
  refused : ∀ before a c rest f, steps = before ++ (a, c) :: rest → c.run a (empty.ran before) = .error f →
    c.granted a (empty.ran before) = false ∧ (∃ n, 0 < n ∧ f = .outOfMemory n) ∧
    empty.ran (before ++ [(a, c)]) = empty.ran before ∧
    ∀ process thread, c.perform a ⟨process, thread, empty.ran before⟩ =
      (.unwinding (.raised outOfMemory), ⟨process, (thread.record outOfMemory).beginUnwind, empty.ran before⟩)
  /-- Without a positive size or count no byte changes, and a request gives the null pointer. -/
  idle : ∀ before s rest w, steps = before ++ s :: rest → s.2.amount? = some w → w.toInt ≤ 0 →
    SameBut s.2.requests? (empty.ran before) (empty.ran (before ++ [s]))
  /-- Only the null pointer has no bytes. -/
  null : ∀ name, (empty.ran steps).block name = .null ↔ (empty.ran steps).contents name = []

theorem ran_concat (m : Memory) (steps : List (Allocator × Command)) (s : Allocator × Command) :
    m.ran (steps ++ [s]) = ((m.ran steps).step s).2 := ran_append m steps [s]

theorem Valid.null_iff (h : m.Valid) (name : String) : m.block name = .null ↔ m.contents name = [] := by
  rw [← List.length_eq_zero_iff, length_contents]
  refine ⟨fun hb => by rw [hb]; rfl, fun hsize => ?_⟩
  rcases m.null_or_lookup name with hnull | hb
  · exact hnull
  · have hreal := (h.real _ (mem_of_lookup hb)).2
    dsimp only at hreal
    omega

/--
**Raw memory behaves as arrays of bytes that share nothing.** This holds for all sequences of commands whose accesses
stay inside of blocks, and whatever places the allocator finds or does not find.
-/
theorem memory_acts_as_arrays (steps : List (Allocator × Command)) (hw : AllWithin .empty steps) :
    ActsAsArrays steps where
  mirrored := run_mirrors valid_empty hw
  lastStored name i v hv := by
    rcases history_or_kept valid_empty hw hv with hlast | ⟨-, hold⟩
    · exact hlast
    · cases hold
  refused before a c rest f _ h := by
    obtain ⟨hf, hgranted⟩ := refused_of_run h
    refine ⟨hgranted, hf, ?_, fun process thread => ?_⟩
    · rw [ran_concat, step_of_error h]
    · obtain ⟨n, -, rfl⟩ := hf
      change Execution.Action.proceed _ (Execution.orRaise (c.run a (empty.ran before)) _) = _
      rw [h]
      rfl
  idle before s rest w _ hw h := by
    rw [ran_concat]
    exact sameBut_of_amount hw h
  null name := (valid_ran valid_empty hw).null_iff name

/-- A block that moves over itself in both directions, shrinks, and does not become larger than memory. -/
def movesOverItself : List (Allocator × Command) :=
  [(.standard, .allocate "a" 6), (.standard, .write "a" 0 [1, 2, 3, 4]), (.standard, .move "a" 0 "a" 2 4),
    (.standard, .resize "a" 4), (.standard, .resize "a" Int32.maxValue), (.standard, .move "a" 1 "a" 0 3)]

theorem memory_acts_as_arrays_movesOverItself :
    AllWithin .empty movesOverItself ∧ (empty.ran movesOverItself).contents "a" = [some 2, some 1, some 2, some 2] ∧
      (history "a" 0 .empty movesOverItself).getLast? = some (some 2) := by
  have hw : AllWithin .empty movesOverItself :=
    ⟨trivial, fun _ => by decide, ⟨fun _ => by decide, fun _ => by decide⟩, trivial, trivial,
      ⟨fun _ => by decide, fun _ => by decide⟩, trivial⟩
  have hcontents : (empty.ran movesOverItself).contents "a" = [some 2, some 1, some 2, some 2] := by decide
  refine ⟨hw, hcontents, (memory_acts_as_arrays movesOverItself hw).lastStored "a" 0 _ ?_⟩
  rw [hcontents]
  rfl

end ManagedRuntime.Memory
