import ManagedRuntime.Proofs.SharedArray.Counting
import ManagedRuntime.Proofs.Lookup
import ManagedRuntime.Session

/-!
# Sharing cannot be seen

Named arrays that share buffers answer as lists that share nothing, whatever has happened before.

* `Store.Valid` : every name stands for a counted reference; `Store.plain` : the lists that the names read as;
* `Store.run_spec`, `runText_spec`, `Nested.run_spec` : every command does on these lists what it does on plain ones;
* `Mirrors` : a system looks like a plain one after every history;
* `arrays_mirror_lists` : words, floating-point numbers, texts, and arrays of arrays.
-/

namespace ManagedRuntime.SharedArray

set_option autoImplicit false

open LawfulElement

def Reply.map {α β : Type} (f : α → β) : Reply α → Reply β
  | .done => .done
  | .element a => .element (f a)
  | .elements items => .elements (items.map f)
  | .word w => .word w
  | .count n => .count n
  | .truth b => .truth b
  | .characters cs => .characters cs

/-- Commands on arrays of texts that do not ask how buffers are shared. -/
def TextCommand.AsksContents : TextCommand → Prop
  | .general command => command.AsksContents
  | .setChar _ _ _ _ => True

/-- Commands on arrays of arrays that do not ask how buffers are shared. -/
def NestedCommand.AsksContents {κ : Type} : NestedCommand κ → Prop
  | .general command => command.AsksContents
  | _ => True

/-! ## Names -/

section Names

variable {α : Type}

/-- The names but one. -/
def others (handles : List (String × Ref α)) (h : String) : List (String × Ref α) := handles.filter (·.1 ≠ h)

/-- The names as they are after one of them has been moved. -/
def moved (handles : List (String × Ref α)) (h : String) (r : Ref α) : List (String × Ref α) :=
  handles.map fun (k, old) => if k = h then (k, r) else (k, old)

/-- The references that names stand for. -/
def refsOf (handles : List (String × Ref α)) : Multiset (Ref α) := (handles.map Prod.snd : List (Ref α))

theorem others_cons (name h : String) (r : Ref α) (rest : List (String × Ref α)) :
    others ((name, r) :: rest) h = if name = h then others rest h else (name, r) :: others rest h := by
  by_cases hn : name = h
  · rw [if_pos hn, others, List.filter_cons_of_neg (by simp [hn])]
    rfl
  · rw [if_neg hn, others, List.filter_cons_of_pos (by simp [hn])]
    rfl

theorem moved_cons (name h : String) (r old : Ref α) (rest : List (String × Ref α)) :
    moved ((name, old) :: rest) h r = (name, if name = h then r else old) :: moved rest h r := by
  by_cases hn : name = h <;> simp [moved, hn]

theorem refsOf_cons (name : String) (r : Ref α) (rest : List (String × Ref α)) :
    refsOf ((name, r) :: rest) = r ::ₘ refsOf rest := rfl

theorem lookup_others (handles : List (String × Ref α)) (h k : String) :
    (others handles h).lookup k = if k = h then none else handles.lookup k := lookup_filter_ne handles h k

theorem lookup_moved (handles : List (String × Ref α)) (h k : String) (r : Ref α) :
    (moved handles h r).lookup k = if k = h then (handles.lookup h).map fun _ => r else handles.lookup k := by
  induction handles with
  | nil => simp [moved]
  | cons entry rest ih =>
    obtain ⟨name, old⟩ := entry
    rw [moved_cons, lookup_cons_ite, lookup_cons_ite, lookup_cons_ite, ih]
    by_cases hk : k = h
    · rw [if_pos hk, hk]
      by_cases hn : h = name
      · rw [if_pos hn, if_pos hn.symm, if_pos hn, if_pos rfl]
        rfl
      · rw [if_neg hn, if_neg hn, if_pos rfl]
    · rw [if_neg hk, if_neg hk]
      by_cases hn : k = name
      · rw [if_pos hn, if_pos hn, if_neg (by rw [← hn]; exact hk)]
      · rw [if_neg hn, if_neg hn]

theorem fst_moved (handles : List (String × Ref α)) (h : String) (r : Ref α) :
    (moved handles h r).map Prod.fst = handles.map Prod.fst := by
  induction handles with
  | nil => rfl
  | cons entry rest ih => rw [moved_cons, List.map_cons, List.map_cons, ih]

theorem mem_refsOf {handles : List (String × Ref α)} {h : String} {r : Ref α} (hl : handles.lookup h = some r) :
    r ∈ refsOf handles := by
  induction handles with
  | nil => cases hl
  | cons entry rest ih =>
    obtain ⟨name, old⟩ := entry
    rw [lookup_cons_ite] at hl
    rw [refsOf_cons]
    split at hl
    · cases hl
      exact Multiset.mem_cons_self _ _
    · exact Multiset.mem_cons_of_mem (ih hl)

theorem others_of_notMem {handles : List (String × Ref α)} {h : String} (hn : h ∉ handles.map Prod.fst) :
    others handles h = handles := by
  refine List.filter_eq_self.2 fun entry he => ?_
  have hne : entry.1 ≠ h := fun heq => hn (heq ▸ List.mem_map_of_mem he)
  simpa using hne

theorem moved_of_notMem {handles : List (String × Ref α)} {h : String} (hn : h ∉ handles.map Prod.fst) (r : Ref α) :
    moved handles h r = handles := by
  induction handles with
  | nil => rfl
  | cons entry rest ih =>
    rw [List.map_cons, List.mem_cons, not_or] at hn
    rw [moved_cons, if_neg (Ne.symm hn.1), ih hn.2]

/-- One name stands for one reference, and the others for the rest, also after it has been moved. -/
theorem refsOf_split {handles : List (String × Ref α)} (hnodup : (handles.map Prod.fst).Nodup) {h : String}
    {old : Ref α} (hl : handles.lookup h = some old) :
    refsOf handles = old ::ₘ refsOf (others handles h) ∧
      ∀ r, refsOf (moved handles h r) = r ::ₘ refsOf (others handles h) := by
  induction handles with
  | nil => cases hl
  | cons entry rest ih =>
    obtain ⟨name, r'⟩ := entry
    rw [lookup_cons_ite] at hl
    rw [List.map_cons, List.nodup_cons] at hnodup
    by_cases hn : h = name
    · rw [if_pos hn] at hl
      cases hl
      have hrest : others rest h = rest := others_of_notMem (hn ▸ hnodup.1)
      refine ⟨?_, fun r => ?_⟩
      · rw [others_cons, if_pos hn.symm, hrest, refsOf_cons]
      · have hmoved : moved rest h r = rest := moved_of_notMem (hn ▸ hnodup.1) r
        rw [others_cons, if_pos hn.symm, hrest, moved_cons, if_pos hn.symm, refsOf_cons, hmoved]
    · rw [if_neg hn] at hl
      obtain ⟨hrefs, hmoved⟩ := ih hnodup.2 hl
      rw [others_cons, if_neg (Ne.symm hn), refsOf_cons, refsOf_cons, hrefs, Multiset.cons_swap]
      refine ⟨rfl, fun r => ?_⟩
      rw [moved_cons, if_neg (Ne.symm hn), refsOf_cons, hmoved, Multiset.cons_swap]

theorem nodup_others {handles : List (String × Ref α)} (hnodup : (handles.map Prod.fst).Nodup) (h : String) :
    ((others handles h).map Prod.fst).Nodup ∧ h ∉ (others handles h).map Prod.fst := by
  refine ⟨hnodup.sublist (List.filter_sublist.map _), fun hmem => ?_⟩
  obtain ⟨entry, he, rfl⟩ := List.mem_map.1 hmem
  simpa using (List.mem_filter.1 he).2

theorem others_moved (handles : List (String × Ref α)) (h : String) (r : Ref α) :
    others (moved handles h r) h = others handles h := by
  induction handles with
  | nil => rfl
  | cons entry rest ih =>
    obtain ⟨name, old⟩ := entry
    rw [moved_cons, others_cons, others_cons, ih]
    by_cases hn : name = h
    · rw [if_pos hn, if_pos hn]
    · rw [if_neg hn, if_neg hn, if_neg hn]

/-- Moving a name to where it is changes nothing. -/
theorem moved_self {handles : List (String × Ref α)} (hnodup : (handles.map Prod.fst).Nodup) {h : String} {r : Ref α}
    (hl : handles.lookup h = some r) : moved handles h r = handles := by
  induction handles with
  | nil => rfl
  | cons entry rest ih =>
    obtain ⟨name, old⟩ := entry
    rw [lookup_cons_ite] at hl
    rw [List.map_cons, List.nodup_cons] at hnodup
    rw [moved_cons]
    by_cases hn : h = name
    · rw [if_pos hn] at hl
      cases hl
      rw [ite_self, moved_of_notMem (hn ▸ hnodup.1)]
    · rw [if_neg hn] at hl
      rw [if_neg (Ne.symm hn), ih hnodup.2 hl]

end Names

/-! ## Stores -/

namespace Store

section Handles

variable {α σ : Type} {s : Store α σ} {h : String}

/-- Only an array with a name has places. -/
theorem known_of_slot {index : Int32} {i : Nat} (hs : s.pool.slot (s.lookup h) index = .ok i) :
    s.handles.lookup h = some (s.lookup h) := by
  cases hl : s.handles.lookup h with
  | some r => rw [lookup, hl, Option.getD_some]
  | none =>
    have hread : s.pool.read (s.lookup h) = ⟨[], 0⟩ := by
      rw [lookup, hl]
      exact Pool.read_of_le (Nat.le_refl _)
    have hlt := Pool.lt_of_slot_eq hs
    rw [Pool.items, hread] at hlt
    exact absurd hlt (Nat.not_lt_zero i)

theorem rebind_of_known {r : Ref α} (hl : s.handles.lookup h = some r) (result : Ref α × Pool α σ) :
    s.rebind h result = ⟨result.2, moved s.handles h result.1⟩ := by
  rw [rebind, hl]
  rfl

/-- A name stands for what a write has answered. -/
theorem lookup_rebind {r : Ref α} (hl : s.handles.lookup h = some r) (result : Ref α × Pool α σ) :
    (s.rebind h result).lookup h = result.1 := by
  rw [rebind, hl, lookup]
  show ((moved s.handles h result.1).lookup h).getD _ = _
  rw [lookup_moved, if_pos rfl, hl]
  rfl

end Handles

section Stores

variable {α σ ι : Type} [Element α σ ι] [Values ι] [LawfulElement α σ ι]

/-- Every name is used once, and the pool counts the references that the names stand for. -/
structure Valid (s : Store α σ) : Prop where
  nodup : (s.handles.map Prod.fst).Nodup
  holds : s.pool.Holds (refsOf s.handles)

/-- What every name reads as. -/
def plain (s : Store α σ) : Plain ι := fun h => (s.handles.lookup h).map s.pool.contents

/-- The values of what a command answers. -/
def reads (s : Store α σ) (reply : Except Failure (Reply α)) : Except Failure (Reply ι) :=
  reply.map (Reply.map (view s.pool.beneath))

variable {s : Store α σ} {h : String} {v : List ι} {result : Ref α × Pool α σ}

theorem valid_empty : (empty : Store α σ).Valid := ⟨List.nodup_nil, Pool.holds_start⟩

theorem contents_lookup (s : Store α σ) (h : String) : s.pool.contents (s.lookup h) = s.plain.read h := by
  rw [lookup, Plain.read, plain]
  cases s.handles.lookup h with
  | some r => rfl
  | none =>
    have hnil : s.pool.items ⟨s.pool.buffers.length⟩ = [] :=
      congrArg Buffer.items (Pool.read_of_le (Nat.le_refl s.pool.buffers.length))
    change s.pool.contents ⟨s.pool.buffers.length⟩ = []
    rw [Pool.contents, hnil, List.map_nil]

theorem plain_of_unknown (hl : s.handles.lookup h = none) : s.plain h = none := by
  rw [plain, hl]
  rfl

theorem read_of_unknown (hl : s.handles.lookup h = none) : s.plain.read h = [] := by
  rw [Plain.read, plain_of_unknown hl]
  rfl

/-- A name reads as before if the contents of the references other than that of `h` are kept. -/
theorem plain_of_keeps {p : Pool α σ}
    (hkeeps : ∀ r ∈ refsOf (others s.handles h), p.contents r = s.pool.contents r) {k : String} (hk : k ≠ h) :
    (s.handles.lookup k).map p.contents = s.plain k := by
  rw [plain]
  cases hl : s.handles.lookup k with
  | none => rfl
  | some r =>
    have hr : (others s.handles h).lookup k = some r := by rw [lookup_others, if_neg hk, hl]
    exact congrArg some (hkeeps r (mem_refsOf hr))

/-- A name is bound to a new reference, and the reference that it stood for is released. -/
theorem bindNew_spec (hs : s.Valid) (hy : s.pool.Yields (refsOf s.handles) v result) :
    (s.bindNew h result).Valid ∧ (s.bindNew h result).plain = s.plain.bind h v := by
  obtain ⟨hnodup, hnotMem⟩ := nodup_others hs.nodup h
  have hnodup' : (((h, result.1) :: others s.handles h).map Prod.fst).Nodup := List.nodup_cons.2 ⟨hnotMem, hnodup⟩
  have hplain : ∀ p : Pool α σ, p.contents result.1 = v →
      (∀ r ∈ refsOf (others s.handles h), p.contents r = s.pool.contents r) →
        (⟨p, (h, result.1) :: others s.handles h⟩ : Store α σ).plain = s.plain.bind h v := by
    intro p hv hkeeps
    funext k
    rw [plain, lookup_cons_ite, lookup_others, Plain.bind]
    by_cases hk : k = h
    · rw [if_pos hk, if_pos hk, Option.map_some, hv]
    · rw [if_neg hk, if_neg hk, if_neg hk]
      exact plain_of_keeps hkeeps hk
  unfold bindNew bind
  dsimp only
  cases hl : s.handles.lookup h with
  | none =>
    have hall : others s.handles h = s.handles := by
      refine others_of_notMem fun hmem => ?_
      obtain ⟨entry, he, heq⟩ := List.mem_map.1 hmem
      have hne := List.lookup_eq_none_iff.1 hl entry he
      simp [heq] at hne
    refine ⟨⟨hnodup', ?_⟩, hplain _ hy.contents fun r hr => hy.keeps r (by rwa [hall] at hr)⟩
    have hh := hy.holds
    rw [← hall] at hh
    exact hh
  | some old =>
    obtain ⟨hrefs, -⟩ := refsOf_split hs.nodup hl
    have hh := hy.holds
    rw [hrefs, Multiset.cons_swap] at hh
    obtain ⟨hreleased, hkeeps⟩ := Pool.release_holds hh
    refine ⟨⟨hnodup', hreleased⟩, hplain _ ?_ fun r hr => ?_⟩
    · rw [hkeeps _ (Multiset.mem_cons_self _ _)]
      exact hy.contents
    · rw [hkeeps r (Multiset.mem_cons_of_mem hr)]
      exact hy.keeps r (hrefs ▸ Multiset.mem_cons_of_mem hr)

/-- A name is moved to what a write has answered. -/
theorem moved_spec (hs : s.Valid) {old : Ref α} (hl : s.handles.lookup h = some old)
    (hy : s.pool.Yields (refsOf (others s.handles h)) v result) :
    (⟨result.2, moved s.handles h result.1⟩ : Store α σ).Valid ∧
      (⟨result.2, moved s.handles h result.1⟩ : Store α σ).plain = s.plain.write h v := by
  refine ⟨⟨?_, ?_⟩, ?_⟩
  · rw [fst_moved]
    exact hs.nodup
  · rw [(refsOf_split hs.nodup hl).2]
    exact hy.holds
  · funext k
    rw [plain, lookup_moved, Plain.write]
    by_cases hk : k = h
    · rw [if_pos hk, if_pos hk, plain, hl]
      exact congrArg some hy.contents
    · rw [if_neg hk, if_neg hk]
      exact plain_of_keeps hy.keeps hk

/-- A write to a name, whether the name is known or not. -/
theorem rebind_spec (hs : s.Valid)
    (hy : ∀ r, s.handles.lookup h = some r → s.pool.Yields (refsOf (others s.handles h)) v result) :
    (s.rebind h result).Valid ∧ (s.rebind h result).plain = s.plain.write h v := by
  unfold rebind
  cases hl : s.handles.lookup h with
  | none => exact ⟨hs, (Plain.write_of_none (plain_of_unknown hl) v).symm⟩
  | some old => exact moved_spec hs hl (hy old hl)

/-- The reference of a known name, apart from those of the others. -/
theorem holds_lookup (hs : s.Valid) {r : Ref α} (hl : s.handles.lookup h = some r) :
    s.lookup h = r ∧ s.pool.Holds (r ::ₘ refsOf (others s.handles h)) := by
  refine ⟨by rw [lookup, hl]; rfl, ?_⟩
  rw [← (refsOf_split hs.nodup hl).1]
  exact hs.holds

/-! ## Commands -/

/-- A store and an answer that a plain model would give as well. -/
structure Agrees (s : Store α σ) (reply : Except Failure (Reply α)) (plain : Except Failure (Reply ι) × Plain ι) :
    Prop where
  valid : s.Valid
  lists : s.plain = plain.2
  reply : s.reads reply = plain.1

theorem bound_agrees (hs : s.Valid) (hy : s.pool.Yields (refsOf s.handles) v result) :
    (s.bindNew h result).Agrees (.ok .done) (.ok .done, s.plain.bind h v) := by
  obtain ⟨hvalid, hplain⟩ := bindNew_spec (h := h) hs hy
  exact ⟨hvalid, hplain, rfl⟩

theorem asked_agrees (hs : s.Valid) {reply : Except Failure (Reply α)} {answer : Except Failure (Reply ι)}
    (hr : s.reads reply = answer) : s.Agrees reply (answer, s.plain) :=
  ⟨hs, rfl, hr⟩

theorem assign_agrees (hs : s.Valid) (h source : String) :
    (s.assign h source).Agrees (.ok .done) (.ok .done, s.plain.bind h (s.plain.read source)) := by
  rw [← contents_lookup]
  unfold assign
  cases hl : s.handles.lookup source with
  | none =>
    rw [contents_lookup, read_of_unknown hl]
    exact bound_agrees hs (Pool.nil_yields hs.holds)
  | some r =>
    rw [(holds_lookup hs hl).1]
    exact bound_agrees hs (Pool.retain_yields hs.holds (mem_refsOf hl))

theorem forget_agrees (hs : s.Valid) (h : String) :
    (s.forget h).Agrees (.ok .done) (.ok .done, s.plain.forget h) := by
  unfold forget
  cases hl : s.handles.lookup h with
  | none => exact ⟨hs, (Plain.forget_of_none (plain_of_unknown hl)).symm, rfl⟩
  | some r =>
    obtain ⟨-, hh⟩ := holds_lookup hs hl
    obtain ⟨hreleased, hkeeps⟩ := Pool.release_holds hh
    refine ⟨⟨(nodup_others hs.nodup h).1, hreleased⟩, ?_, rfl⟩
    funext k
    change ((others s.handles h).lookup k).map _ = if k = h then none else s.plain k
    rw [lookup_others]
    by_cases hk : k = h
    · rw [if_pos hk, if_pos hk]
      rfl
    · rw [if_neg hk, if_neg hk]
      exact plain_of_keeps hkeeps hk

/-- A write that may be refused, and is refused alike for names that are not known. -/
theorem afterWrite_agrees (hs : s.Valid) {written : Except Failure (Ref α × Pool α σ)}
    {plain : Except Failure (List ι)} (hrefuse : written.map (fun _ => ()) = plain.map fun _ => ())
    (hanswers : ∀ r, s.handles.lookup h = some r → s.pool.Answers (refsOf (others s.handles h)) plain written) :
    (s.afterWrite h written).2.Agrees (s.afterWrite h written).1 (s.plain.afterWrite h plain) := by
  cases written with
  | error f =>
    cases plain with
    | error g =>
      cases hrefuse
      exact ⟨hs, rfl, rfl⟩
    | ok v => cases hrefuse
  | ok result =>
    cases plain with
    | error g => cases hrefuse
    | ok v =>
      obtain ⟨hvalid, hplain⟩ := rebind_spec hs hanswers
      exact ⟨hvalid, hplain, rfl⟩

theorem set_refuses (p : Pool α σ) (r : Ref α) (index : Int32) (l : ι) :
    (p.set r index l).map (fun _ => ()) = (Plain.set (p.contents r) index l).map fun _ => () := by
  unfold Pool.set Plain.set
  rw [Pool.slot_eq]
  cases Plain.slot (p.contents r) index <;> rfl

theorem setLength_refuses (p : Pool α σ) (r : Ref α) (n : Int32) :
    (p.setLength r n).map (fun _ => ()) = (Plain.setLength (p.contents r) n).map fun _ => () := by
  unfold Pool.setLength Plain.setLength
  dsimp only
  split
  · rfl
  · split <;> rfl

/-- **Every command does to the lists what it does to plain ones.** -/
theorem run_spec (hs : s.Valid) (c : Command ι) :
    (s.run c).2.Valid ∧ (s.run c).2.plain = (s.plain.run c).2 ∧
      (c.AsksContents → (s.run c).2.reads (s.run c).1 = (s.plain.run c).1) := by
  suffices h : c.AsksContents → (s.run c).2.Agrees (s.run c).1 (s.plain.run c) by
    by_cases hc : c.AsksContents
    · obtain ⟨hvalid, hplain, hreply⟩ := h hc
      exact ⟨hvalid, hplain, fun _ => hreply⟩
    · refine ⟨?_, ?_, fun ha => absurd ha hc⟩
      all_goals cases c <;> first | exact hs | rfl | exact absurd trivial hc
  intro hasks
  cases c with
  | create h => exact bound_agrees hs (Pool.nil_yields hs.holds)
  | ofList h items => exact bound_agrees hs (Pool.ofLiterals_yields hs.holds items)
  | assign h source => exact assign_agrees hs h source
  | deepCopy h source =>
    have hy := Pool.deepCopy_yields hs.holds (s.lookup source)
    rw [contents_lookup] at hy
    exact bound_agrees hs hy
  | copyRange h source first count =>
    have hy := Pool.copyRange_yields hs.holds (s.lookup source) first count
    rw [contents_lookup, ← Plain.slice_eq_range] at hy
    exact bound_agrees hs hy
  | forget h => exact forget_agrees hs h
  | setLength h n =>
    refine afterWrite_agrees hs ?_ fun r hl => ?_
    · rw [setLength_refuses, contents_lookup]
    · obtain ⟨he, hh⟩ := holds_lookup hs hl
      rw [← contents_lookup, he]
      exact Pool.setLength_answers hh n
  | get h index =>
    refine asked_agrees hs ?_
    rw [← contents_lookup, ← Pool.get_eq]
    change ((s.pool.get (s.lookup h) index).map Reply.element).map _ = _
    cases s.pool.get (s.lookup h) index <;> rfl
  | set h index value =>
    refine afterWrite_agrees hs ?_ fun r hl => ?_
    · rw [set_refuses, contents_lookup]
    · obtain ⟨he, hh⟩ := holds_lookup hs hl
      rw [← contents_lookup, he]
      exact Pool.set_answers hh index value
  | push h value =>
    have hy : ∀ r, s.handles.lookup h = some r → s.pool.Yields (refsOf (others s.handles h))
        (s.plain.read h ++ [value]) (s.pool.push (s.lookup h) value) := by
      intro r hl
      obtain ⟨he, hh⟩ := holds_lookup hs hl
      rw [← contents_lookup, he]
      exact Pool.push_yields hh value
    obtain ⟨hvalid, hplain⟩ := rebind_spec hs hy
    exact ⟨hvalid, hplain, rfl⟩
  | length h =>
    refine asked_agrees hs ?_
    rw [← contents_lookup, Pool.length_contents]
    rfl
  | low h => exact asked_agrees hs rfl
  | high h =>
    refine asked_agrees hs ?_
    rw [← contents_lookup, Pool.length_contents]
    rfl
  | isEmpty h =>
    refine asked_agrees hs ?_
    rw [← contents_lookup, Pool.contents, List.isEmpty_map]
    rfl
  | refCount h => exact hasks.elim
  | isShared h => exact hasks.elim
  | items h =>
    refine asked_agrees hs ?_
    rw [← contents_lookup]
    rfl
  | describe h =>
    refine asked_agrees hs ?_
    rw [← contents_lookup, ← Pool.describe_eq_values]
    rfl
  | same h other =>
    refine asked_agrees hs ?_
    rw [← contents_lookup, ← contents_lookup, ← Pool.same_eq_values]
    rfl

/-! ## Write accesses to elements -/

/-- What a write access to an element leaves: the lists are the same, and the array has a buffer of its own. -/
structure Accessed (s : Store α σ) (h : String) (index : Int32) (i : Nat) (s' : Store α σ) (r : Ref α) : Prop where
  slot : Plain.slot (s.plain.read h) index = .ok i
  name : s'.handles.lookup h = some r
  valid : s'.Valid
  lists : s'.plain = s.plain
  alone : s'.pool.Alone (refsOf (others s'.handles h)) r
  items : s'.pool.items r = s.pool.items (s.lookup h)

theorem access_spec (hs : s.Valid) (h : String) (index : Int32) :
    (∃ f, s.access h index = .error f ∧ Plain.get (s.plain.read h) index = .error f) ∨
      ∃ i s' r, s.access h index = .ok (i, s') ∧ s.Accessed h index i s' r := by
  unfold access
  rw [Pool.slot_eq, contents_lookup]
  cases hslot : Plain.slot (s.plain.read h) index with
  | error f =>
    refine .inl ⟨f, rfl, ?_⟩
    rw [Plain.get, hslot]
    rfl
  | ok i =>
    have hlt := (Pool.lt_of_slot hslot).1
    rw [← contents_lookup, Pool.length_contents] at hlt
    -- The name is known, since an unknown one has no elements.
    cases hl : s.handles.lookup h with
    | none =>
      rw [← Pool.length_contents, contents_lookup, read_of_unknown hl] at hlt
      exact absurd hlt (Nat.not_lt_zero i)
    | some r =>
      obtain ⟨he, hh⟩ := holds_lookup hs hl
      rw [he]
      obtain ⟨halone, hitems, hy⟩ := Pool.exclusive_spec hh
      obtain ⟨hvalid, hplain⟩ := moved_spec hs hl hy
      refine .inr ⟨i, _, (s.pool.exclusive r).1, rfl, hslot, ?_, ?_, ?_, ?_, ?_⟩ <;> simp only [rebind, hl]
      · exact (lookup_moved _ _ _ _).trans (by rw [if_pos rfl, hl]; rfl)
      · exact hvalid
      · have hread : s.pool.contents r = s.plain.read h := by rw [← he, contents_lookup]
        rw [hread, Plain.write_read] at hplain
        exact hplain
      · change (s.pool.exclusive r).2.Alone (refsOf (others (moved s.handles h (s.pool.exclusive r).1) h)) _
        rw [others_moved]
        exact halone
      · rw [he]
        exact hitems

variable {index : Int32} {i : Nat} {s' : Store α σ} {r : Ref α}

theorem Accessed.lookup (ha : s.Accessed h index i s' r) : s'.lookup h = r := (holds_lookup ha.valid ha.name).1

theorem Accessed.contents (ha : s.Accessed h index i s' r) : s'.pool.contents r = s.plain.read h := by
  rw [← ha.lookup, contents_lookup, ha.lists]

theorem Accessed.lt (ha : s.Accessed h index i s' r) : i < (s'.pool.items r).length := by
  rw [← Pool.length_contents, ha.contents]
  exact (Pool.lt_of_slot ha.slot).1

/-- The element that is written to has the value that the plain model has. -/
theorem Accessed.get (ha : s.Accessed h index i s' r) (hi : i < (s'.pool.items r).length) :
    Plain.get (s.plain.read h) index = .ok (view s'.pool.beneath (s'.pool.items r)[i]) := by
  have hget : (s.plain.read h)[i]? = some (view s'.pool.beneath (s'.pool.items r)[i]) := by
    rw [← ha.contents, Pool.contents, List.getElem?_map, List.getElem?_eq_getElem hi, Option.map_some]
  rw [Plain.get, ha.slot]
  simp only [Bind.bind, Except.bind, hget]

/-- A write to an element, as far as it is refused or done. -/
structure Updates (s : Store α σ) (reply : Except Failure Unit) (plain : Except Failure Unit × Plain ι) : Prop where
  valid : s.Valid
  lists : s.plain = plain.2
  reply : reply = plain.1

/-- The element refuses; its array has a buffer of its own all the same. -/
theorem Accessed.refused (ha : s.Accessed h index i s' r) (hi : i < (s'.pool.items r).length)
    {f : ι → Except Failure ι} {e : Failure} (hf : f (view s'.pool.beneath (s'.pool.items r)[i]) = .error e) :
    s'.Updates (.error e) (s.plain.update h index f) := by
  have hupdate : s.plain.update h index f = (.error e, s.plain) := by
    rw [Plain.update, ha.get hi]
    simp only [hf]
  rw [hupdate]
  exact ⟨ha.valid, ha.lists, rfl⟩

/-- A pool in which the element has been written to takes the place of the one before. -/
theorem Accessed.written (ha : s.Accessed h index i s' r) (hi : i < (s'.pool.items r).length)
    {f : ι → Except Failure ι} {b : ι} (hf : f (view s'.pool.beneath (s'.pool.items r)[i]) = .ok b) {p : Pool α σ}
    (hy : s'.pool.Yields (refsOf (others s'.handles h)) ((s'.pool.contents r).set i b) (r, p)) :
    ({ s' with pool := p } : Store α σ).Updates (.ok ()) (s.plain.update h index f) := by
  obtain ⟨hvalid, hplain⟩ := moved_spec ha.valid ha.name hy
  rw [moved_self ha.valid.nodup ha.name] at hvalid hplain
  have hupdate : s.plain.update h index f = (.ok (), s.plain.write h ((s.plain.read h).set i b)) := by
    rw [Plain.update, ha.get hi]
    simp only [hf]
    rw [(Pool.lt_of_slot ha.slot).2]
  rw [hupdate]
  refine ⟨hvalid, hplain.trans ?_, rfl⟩
  rw [ha.lists, ha.contents]

/-- An index that is refused, whatever the operation on the element is. -/
theorem refused_index (hs : s.Valid) {e : Failure} (he : Plain.get (s.plain.read h) index = .error e)
    (f : ι → Except Failure ι) : s.Updates (.error e) (s.plain.update h index f) := by
  have hupdate : s.plain.update h index f = (.error e, s.plain) := by rw [Plain.update, he]
  rw [hupdate]
  exact ⟨hs, rfl, rfl⟩

end Stores

/-! ## Arrays of texts -/

theorem Updates.agrees {s : Store Text Unit} {reply : Except Failure Unit} {m : Plain Text} {h : String}
    {index : Int32} {f : Text → Except Failure Text} (hu : s.Updates reply (m.update h index f)) :
    s.Agrees (reply.map fun _ => .done) ((m.update h index f).1.map fun _ => .done, (m.update h index f).2) := by
  refine ⟨hu.valid, hu.lists, ?_⟩
  rw [← hu.reply]
  cases reply <;> rfl

theorem setChar_agrees {s : Store Text Unit} (hs : s.Valid) (h : String) (index position : Int32) (unit : UInt16) :
    (s.runText (.setChar h index position unit)).2.Agrees (s.runText (.setChar h index position unit)).1
      (s.plain.runText (.setChar h index position unit)) := by
  simp only [runText]
  rcases access_spec hs h index with ⟨e, haccess, he⟩ | ⟨i, s', r, haccess, ha⟩
  · rw [haccess]
    exact (refused_index hs he _).agrees
  · have hi := ha.lt
    have hget : (s'.pool.items (s'.lookup h)).getD i .empty = (s'.pool.items r)[i] := by
      rw [ha.lookup, List.getD_eq_getElem _ _ hi]
    rw [haccess]
    dsimp only
    rw [hget]
    cases hset : (s'.pool.items r)[i].setChar position unit with
    | error e => exact (ha.refused hi hset).agrees
    | ok t =>
      have hy := ha.alone.store (i := i) (s := s'.pool.beneath) (a := t) hi trivial fun _ _ => rfl
      rw [ha.lookup]
      exact (ha.written hi hset hy).agrees

/-- Every command on texts does to the lists what it does to plain ones. -/
theorem runText_spec {s : Store Text Unit} (hs : s.Valid) (c : TextCommand) :
    (s.runText c).2.Valid ∧ (s.runText c).2.plain = (s.plain.runText c).2 ∧
      (c.AsksContents → (s.runText c).2.reads (s.runText c).1 = (s.plain.runText c).1) := by
  cases c with
  | general command => exact run_spec hs command
  | setChar h index position unit =>
    obtain ⟨hvalid, hplain, hreply⟩ := setChar_agrees hs h index position unit
    exact ⟨hvalid, hplain, fun _ => hreply⟩

end Store

/-! ## Arrays of arrays -/

namespace Nested

variable {β τ κ : Type} [Element β τ κ] [Values κ] [LawfulElement β τ κ] {s : Store (Ref β) (Pool β τ)}

/-- The values of what a command answers. -/
def reads (s : Store (Ref β) (Pool β τ)) (reply : Except Failure (Reply β)) : Except Failure (Plain.NestedReply κ) :=
  reply.map fun
    | .outer reply => .outer (reply.map (view s.pool.beneath))
    | .inner b => .inner (view s.pool.beneath.beneath b)

/-- A store and an answer that a plain model would give as well. -/
structure Agrees (s : Store (Ref β) (Pool β τ)) (reply : Except Failure (Reply β))
    (plain : Except Failure (Plain.NestedReply κ) × Plain (List κ)) : Prop where
  valid : s.Valid
  lists : s.plain = plain.2
  reply : reads s reply = plain.1

theorem Agrees.whenAsked {reply : Except Failure (Reply β)}
    {plain : Except Failure (Plain.NestedReply κ) × Plain (List κ)} (h : Agrees s reply plain) {asked : Prop} :
    s.Valid ∧ s.plain = plain.2 ∧ (asked → reads s reply = plain.1) :=
  ⟨h.valid, h.lists, fun _ => h.reply⟩

theorem agrees_of_updates {reply : Except Failure Unit} {m : Plain (List κ)} {h : String} {index : Int32}
    {f : List κ → Except Failure (List κ)} (hu : s.Updates reply (m.update h index f)) :
    Agrees s (reply.map fun _ => .outer .done) (m.updateInner h index f) := by
  refine ⟨hu.valid, hu.lists, ?_⟩
  change reads s _ = (m.update h index f).1.map fun _ => .outer .done
  rw [← hu.reply]
  cases reply <;> rfl

/-- An operation on an element that does to its list what `f` does. -/
theorem update_agrees (hs : s.Valid) (h : String) (index : Int32) (f : List κ → Except Failure (List κ))
    (write : Pool β τ → Ref β → Except Failure (Ref β × Pool β τ))
    (hwrite : ∀ (p : Pool β τ) (r : Ref β) (rs : Multiset (Ref β)), p.Holds (r ::ₘ rs) →
      p.Answers rs (f (p.contents r)) (write p r)) :
    Agrees (update s h index write).2 (update s h index write).1 (s.plain.updateInner h index f) := by
  unfold update
  rcases Store.access_spec hs h index with ⟨e, haccess, he⟩ | ⟨i, s', r, haccess, ha⟩
  · rw [haccess]
    exact agrees_of_updates (Store.refused_index hs he f)
  · have hi := ha.lt
    rw [haccess]
    dsimp only
    rw [ha.lookup, List.getD_eq_getElem _ _ hi]
    obtain ⟨others, hstock, hput⟩ := ha.alone.put hi
    have hinner : s'.pool.beneath.Holds ((s'.pool.items r)[i] ::ₘ others) := by
      rw [← hstock]
      exact ha.alone.holds.beneath
    rcases (hwrite _ _ _ hinner).refused_or_yields with ⟨e, hf, hw⟩ | ⟨v, result, hf, hw, hy⟩
    · rw [hw]
      exact agrees_of_updates (ha.refused hi hf)
    · rw [hw]
      have hput' := hput result.2 result.1 hy.holds hy.keeps
      rw [show view result.2 result.1 = v from hy.contents] at hput'
      exact agrees_of_updates (ha.written hi hf hput')

theorem share_agrees (hs : s.Valid) (h : String) (index source : Int32) :
    Agrees (share s h index source).2 (share s h index source).1 (s.plain.runNested (.share h index source)) := by
  have hget := Pool.get_eq s.pool (s.lookup h) source
  rw [Store.contents_lookup] at hget
  unfold share Plain.runNested
  dsimp only
  rw [← hget]
  cases hsource : s.pool.get (s.lookup h) source with
  | error e => exact ⟨hs, rfl, rfl⟩
  | ok inner =>
    have hmem : inner ∈ s.pool.items (s.lookup h) := Pool.mem_of_get hsource
    rcases Store.access_spec hs h index with ⟨e, haccess, he⟩ | ⟨i, s', r, haccess, ha⟩
    · rw [haccess]
      exact agrees_of_updates (Store.refused_index hs he _)
    · have hi := ha.lt
      rw [haccess]
      dsimp only
      rw [ha.lookup]
      -- The element has the same value as before the access, and one reference more.
      have hin : inner ∈ s'.pool.items r := by rwa [ha.items]
      obtain ⟨hretained, hviews⟩ := Pool.retain_holds ha.alone.holds.beneath (Pool.mem_stock hin)
      have hsame : s'.pool.beneath.contents inner = view s.pool.beneath inner := by
        have hlists : s'.pool.contents r = s.pool.contents (s.lookup h) := by rw [ha.contents, Store.contents_lookup]
        rw [Pool.contents, Pool.contents, ha.items] at hlists
        exact List.map_inj_left.1 hlists inner hmem
      have hy := ha.alone.store hi hretained fun b _ => hviews b
      have hvalue : view (s'.pool.beneath.retain inner) inner = view s.pool.beneath inner := (hviews inner).trans hsame
      rw [hvalue] at hy
      exact agrees_of_updates (ha.written (f := fun _ => .ok (view s.pool.beneath inner)) hi rfl hy)

theorem get_agrees (hs : s.Valid) (h : String) (index inner : Int32) :
    Agrees (run s (.get h index inner)).2 (run s (.get h index inner)).1
      (s.plain.runNested (.get h index inner)) := by
  refine ⟨hs, rfl, ?_⟩
  have hget := Pool.get_eq s.pool (s.lookup h) index
  rw [Store.contents_lookup] at hget
  change reads s (s.pool.get (s.lookup h) index >>= fun r => s.pool.beneath.get r inner >>= fun b => pure (.inner b)) =
    Plain.get (s.plain.read h) index >>= fun v => Plain.get v inner >>= fun b => pure (.inner b)
  rw [← hget]
  cases s.pool.get (s.lookup h) index with
  | error e => rfl
  | ok r =>
    change reads s (s.pool.beneath.get r inner >>= fun b => pure (.inner b)) =
      Plain.get (s.pool.beneath.contents r) inner >>= fun b => pure (.inner b)
    rw [← Pool.get_eq]
    cases s.pool.beneath.get r inner <;> rfl

theorem general_agrees (hs : s.Valid) (command : Command (List κ)) :
    (run s (.general command)).2.Valid ∧
      (run s (.general command)).2.plain = (s.plain.runNested (.general command)).2 ∧
        (command.AsksContents → reads (run s (.general command)).2 (run s (.general command)).1 =
          (s.plain.runNested (.general command)).1) := by
  obtain ⟨hvalid, hplain, hreply⟩ := Store.run_spec hs command
  refine ⟨hvalid, hplain, fun hasks => ?_⟩
  change reads (s.run command).2 ((s.run command).1.map .outer) = (s.plain.run command).1.map .outer
  rw [← hreply hasks, reads, Store.reads]
  cases (s.run command).1 <;> rfl

/-- **Every command on arrays of arrays does to the lists what it does to plain ones.** -/
theorem run_spec (hs : s.Valid) (c : NestedCommand κ) :
    (run s c).2.Valid ∧ (run s c).2.plain = (s.plain.runNested c).2 ∧
      (c.AsksContents → reads (run s c).2 (run s c).1 = (s.plain.runNested c).1) := by
  cases c with
  | general command => exact general_agrees hs command
  | get h index inner => exact (get_agrees hs h index inner).whenAsked
  | set h index inner value =>
    exact (update_agrees hs h index _ _ fun _ _ _ hh => Pool.set_answers hh inner value).whenAsked
  | push h index value =>
    exact (update_agrees hs h index (fun v => .ok (v ++ [value])) (fun p r => .ok (p.push r value))
      fun _ _ _ hh => Pool.push_yields hh value).whenAsked
  | setLength h index n =>
    exact (update_agrees hs h index _ _ fun _ _ _ hh => Pool.setLength_answers hh n).whenAsked
  | share h index source => exact (share_agrees hs h index source).whenAsked

end Nested

/-! ## Histories -/

section Histories

variable {S C R M Q : Type}

/-- The state after a history of commands. -/
def after (run : S → C → R × S) (first : S) (history : List C) : S :=
  Session.final first (Session.run run first history)

theorem after_cons (run : S → C → R × S) (first : S) (c : C) (history : List C) :
    after run first (c :: history) = after run (run first c).2 history := by
  cases history with
  | nil => rfl
  | cons d history => simp [after, Session.final, Session.run, List.getLast?_cons]

/--
After every history of commands a system looks like a plain one after the same history, and it answers every
command that `asks` picks out as the plain one does.
-/
def Mirrors (run : S → C → R × S) (first : S) (plain : M → C → Q × M) (start : M) (look : S → M)
    (reads : S → R → Q) (asks : C → Prop) : Prop :=
  ∀ history, look (after run first history) = after plain start history ∧ ∀ c, asks c →
    reads (run (after run first history) c).2 (run (after run first history) c).1 =
      (plain (after plain start history) c).1

/-- A system mirrors a plain one if every single command does on the states that an invariant allows. -/
theorem mirrors_of_step {run : S → C → R × S} {plain : M → C → Q × M} {look : S → M} {reads : S → R → Q}
    {asks : C → Prop} (valid : S → Prop)
    (hstep : ∀ s c, valid s → valid (run s c).2 ∧ look (run s c).2 = (plain (look s) c).2 ∧
      (asks c → reads (run s c).2 (run s c).1 = (plain (look s) c).1)) {first : S} (hfirst : valid first) :
    Mirrors run first plain (look first) look reads asks := by
  intro history
  induction history generalizing first with
  | nil => exact ⟨rfl, fun c hc => (hstep first c hfirst).2.2 hc⟩
  | cons c history ih =>
    obtain ⟨hvalid, hlook, -⟩ := hstep first c hfirst
    have h := ih hvalid
    rw [hlook] at h
    simp only [after_cons]
    exact h

end Histories

section Mirrors

variable {α σ ι : Type} [Element α σ ι] [Values ι] [LawfulElement α σ ι]

theorem store_mirrors : Mirrors Store.run (Store.empty : Store α σ) Plain.run Plain.empty Store.plain Store.reads
    Command.AsksContents :=
  mirrors_of_step Store.Valid (fun _ c hs => Store.run_spec hs c) Store.valid_empty

/--
**Arrays behave as lists that share nothing**: arrays of words, of floating-point numbers and of texts, and arrays
of arrays with all writes to their elements.
-/
theorem arrays_mirror_lists :
    Mirrors Store.run (Store.empty : Store Int32 Unit) Plain.run Plain.empty Store.plain Store.reads
      Command.AsksContents ∧
    Mirrors Store.run (Store.empty : Store Binary64 Unit) Plain.run Plain.empty Store.plain Store.reads
      Command.AsksContents ∧
    Mirrors Store.runText Store.empty Plain.runText Plain.empty Store.plain Store.reads TextCommand.AsksContents ∧
    Mirrors Nested.run (Store.empty : Store (Ref Int32) (Pool Int32 Unit)) Plain.runNested Plain.empty Store.plain
      Nested.reads NestedCommand.AsksContents := by
  refine ⟨store_mirrors, store_mirrors, ?_, ?_⟩
  · exact mirrors_of_step Store.Valid (fun _ c hs => Store.runText_spec hs c) Store.valid_empty
  · exact mirrors_of_step Store.Valid (fun _ c hs => Nested.run_spec hs c) Store.valid_empty

end Mirrors

end ManagedRuntime.SharedArray
