import Mathlib
import ManagedRuntime.Proofs.SharedArray.Refinement

/-!
# The references to a buffer

The count of a buffer is the number of references to it that are in use, after every history of
commands, those that were refused included.

* `Store.names` : the names that stand for a reference; `Pool.slots` : the slots of live buffers that hold it;
* `Store.Exact` : all counts are numbers of names, and the queries for a count answer these numbers;
* `Nested.Exact` : the same for arrays of arrays, whose inner buffers are counted by the slots that hold them;
* `counts_are_references` : words, floating-point numbers, texts, and arrays of arrays.
-/

namespace ManagedRuntime.SharedArray

set_option autoImplicit false

/-! ## References in use -/

/-- How many names stand for a reference. -/
def Store.names {α σ : Type} (s : Store α σ) (r : Ref α) : Nat := s.handles.countP fun entry => entry.2 = r

/-- How many slots of live buffers hold a reference; a buffer counts once, whatever shares it. -/
def Pool.slots {β σ : Type} (p : Pool (Ref β) σ) (r : Ref β) : Nat :=
  ((p.buffers.filter fun b => 0 < b.refs).map fun b => b.items.count r).sum

/-- The counts are the numbers of names, and the queries for a count answer them. -/
structure Store.Exact {α σ ι : Type} [Element α σ ι] (s : Store α σ) : Prop where
  /-- A name stands for one reference. -/
  nodup : (s.handles.map Prod.fst).Nodup
  refs : ∀ r, s.pool.refs r = s.names r
  refCount : ∀ h r, s.handles.lookup h = some r → (s.run (.refCount h)).1 = .ok (.count (s.names r))
  isShared : ∀ h r, s.handles.lookup h = some r → (s.run (.isShared h)).1 = .ok (.truth (1 < s.names r))

/-- The counts of the inner buffers, for which no names stand, are the numbers of slots that hold them. -/
structure Nested.Exact {β τ κ : Type} [Element β τ κ] (s : Store (Ref β) (Pool β τ)) : Prop where
  outer : s.Exact
  inner : ∀ r, s.pool.beneath.refs r = s.pool.slots r

theorem count_refsOf {α σ : Type} (s : Store α σ) (r : Ref α) : (refsOf s.handles).count r = s.names r := by
  unfold refsOf Store.names
  rw [Multiset.coe_count, List.count, List.countP_map]
  rfl

section Counts

variable {α σ ι : Type} [Element α σ ι] [Values ι] [LawfulElement α σ ι]

theorem Store.Valid.exact {s : Store α σ} (hs : s.Valid) : s.Exact := by
  have hrefs : ∀ r, s.pool.refs r = s.names r := fun r => (hs.holds.counts.refs r).trans (count_refsOf s r)
  refine ⟨hs.nodup, hrefs, fun h r hl => ?_, fun h r hl => ?_⟩
  · rw [Store.run, (Store.holds_lookup hs hl).1, hrefs]
  · rw [Store.run, (Store.holds_lookup hs hl).1, hrefs]

/-- The slots of buffers, where those that are not live have none. -/
theorem count_sum_items {β : Type} (bs : List (Buffer (Ref β))) (hdead : ∀ b ∈ bs, ¬ 0 < b.refs → b.items = [])
    (r : Ref β) : (bs.map fun b => (b.items : Multiset (Ref β))).sum.count r =
      ((bs.filter fun b => 0 < b.refs).map fun b => b.items.count r).sum := by
  induction bs with
  | nil => rfl
  | cons b bs ih =>
    have hrest := ih fun b' hb' => hdead b' (.tail b hb')
    rw [List.map_cons, List.sum_cons, Multiset.count_add, hrest, Multiset.coe_count]
    by_cases hb : 0 < b.refs
    · rw [List.filter_cons_of_pos (by simpa using hb), List.map_cons, List.sum_cons]
    · rw [List.filter_cons_of_neg (by simpa using hb), hdead b (.head bs) hb, List.count_nil, Nat.zero_add]

theorem Pool.count_stock {β τ : Type} {p : Pool (Ref β) τ} {rs : Multiset (Ref (Ref β))} (hp : p.Counts rs)
    (r : Ref β) : p.stock.count r = p.slots r := by
  refine count_sum_items p.buffers (fun b hb hrefs => ?_) r
  obtain ⟨i, hi, rfl⟩ := List.getElem_of_mem hb
  have hread : p.read ⟨i⟩ = p.buffers[i] := by rw [Pool.read, List.getD_eq_getElem _ _ hi]
  have hempty := hp.empty ⟨i⟩
  rw [Pool.refs, Pool.items, hread] at hempty
  exact hempty (by omega)

theorem Nested.exact_of_valid {s : Store (Ref α) (Pool α σ)} (hs : s.Valid) : Nested.Exact s := by
  refine ⟨hs.exact, fun r => ?_⟩
  have hbeneath : s.pool.beneath.Holds s.pool.stock := hs.holds.beneath
  rw [hbeneath.counts.refs, Pool.count_stock hs.holds.counts]

end Counts

/-! ## Histories -/

/-- What every command keeps holds after every history. -/
theorem invariant_after {S C R : Type} {run : S → C → R × S} (valid : S → Prop)
    (hstep : ∀ s c, valid s → valid (run s c).2) {first : S} (hfirst : valid first) (history : List C) :
    valid (after run first history) := by
  induction history generalizing first with
  | nil => exact hfirst
  | cons c history ih =>
    rw [after_cons]
    exact ih (hstep first c hfirst)

section Histories

variable {α σ ι : Type} [Element α σ ι] [Values ι] [LawfulElement α σ ι]

theorem exact_after (history : List (Command ι)) : (after Store.run (Store.empty : Store α σ) history).Exact :=
  (invariant_after Store.Valid (fun _ c hs => (Store.run_spec hs c).1) Store.valid_empty history).exact

/--
**Counts are exact.** After every history of commands the count of a buffer is the number of references to it that
are in use: the names that stand for it, and in arrays of arrays the slots that hold it.
-/
theorem counts_are_references :
    (∀ history, (after Store.run (Store.empty : Store Int32 Unit) history).Exact) ∧
    (∀ history, (after Store.run (Store.empty : Store Binary64 Unit) history).Exact) ∧
    (∀ history, (after Store.runText Store.empty history).Exact) ∧
    ∀ history, Nested.Exact (after Nested.run (Store.empty : Store (Ref Int32) (Pool Int32 Unit)) history) := by
  refine ⟨exact_after, exact_after, fun history => ?_, fun history => ?_⟩
  · exact (invariant_after Store.Valid (fun _ c hs => (Store.runText_spec hs c).1) Store.valid_empty history).exact
  · exact Nested.exact_of_valid
      (invariant_after Store.Valid (fun _ c hs => (Nested.run_spec hs c).1) Store.valid_empty history)

/-- An array that grows fills its slots with one empty array, and a copy of it has slots that count as well. -/
example : (after Nested.run (Store.empty : Store (Ref Int32) (Pool Int32 Unit))
    [.general (.create "a"), .general (.setLength "a" 3), .general (.deepCopy "b" "a")]).pool.beneath.refs ⟨0⟩ = 6 :=
  rfl

end Histories

end ManagedRuntime.SharedArray
