import Mathlib.Algebra.BigOperators.Group.Multiset.Basic
import Mathlib.Algebra.Order.BigOperators.Group.List
import Mathlib.Data.List.GetD
import Mathlib.Data.Multiset.OrderedMonoid
import ManagedRuntime.Proofs.SharedArray.Plain

/-!
# Counted references

The count of a buffer is the number of references to it, in names and in the elements of other buffers alike.

* `LawfulElement` : what copying and releasing an element must do to the values of all elements in use;
* `Pool.Holds` : the counts of a pool are those of the references in use, and so are the counts beneath it;
* `Pool.Yields` : an operation answers a reference of its own with given contents and changes nothing else;
* `exclusive_spec`, `set_answers`, `push_yields`, `setLength_answers` : the operations of a pool do so;
* arrays of lawful elements are lawful elements.
-/

namespace ManagedRuntime.SharedArray

set_option autoImplicit false

/-- Elements with values: a state owns a number of elements, and no operation changes the value of another one. -/
class LawfulElement (α : Type) (σ ι : outParam Type) [Element α σ ι] [Values ι] where
  view : σ → α → ι
  /-- The elements in use, each as often as it is. -/
  Owned : σ → Multiset α → Prop
  owned_start : Owned (Element.start α) 0
  make_spec : ∀ (s : σ) (es : Multiset α) (l : ι), Owned s es →
    Owned (Element.make s l : α × σ).2 ((Element.make s l).1 ::ₘ es) ∧
      view (Element.make s l : α × σ).2 (Element.make s l).1 = l ∧
      ∀ a ∈ es, view (Element.make s l : α × σ).2 a = view s a
  filler_spec : ∀ (s : σ) (es : Multiset α), Owned s es →
    Owned (Element.filler s : α × σ).2 ((Element.filler s).1 ::ₘ es) ∧
      view (Element.filler s : α × σ).2 (Element.filler s).1 = Values.blank ∧
      ∀ a ∈ es, view (Element.filler s : α × σ).2 a = view s a
  copy_spec : ∀ (s : σ) (es : Multiset α) (a : α), Owned s es → a ∈ es →
    Owned (Element.copy s a) (a ::ₘ es) ∧ ∀ b, view (Element.copy s a) b = view s b
  release_spec : ∀ (s : σ) (es : Multiset α) (a : α), Owned s (a ::ₘ es) →
    Owned (Element.release s a) es ∧ ∀ b ∈ es, view (Element.release s a) b = view s b
  same_eq : ∀ (s : σ) (a b : α), Element.same s a b = Values.same (view s a) (view s b)
  describe_eq : ∀ (s : σ) (a : α), Element.describe s a = Values.describe (view s a)

open LawfulElement

/-! ## Elements without references -/

instance : LawfulElement Int32 Unit Int32 where
  view _ w := w
  Owned _ _ := True
  owned_start := trivial
  make_spec _ _ _ _ := ⟨trivial, rfl, fun _ _ => rfl⟩
  filler_spec _ _ _ := ⟨trivial, rfl, fun _ _ => rfl⟩
  copy_spec _ _ _ _ _ := ⟨trivial, fun _ => rfl⟩
  release_spec _ _ _ _ := ⟨trivial, fun _ _ => rfl⟩
  same_eq _ _ _ := rfl
  describe_eq _ _ := rfl

instance : LawfulElement Binary64 Unit Binary64 where
  view _ x := x
  Owned _ _ := True
  owned_start := trivial
  make_spec _ _ _ _ := ⟨trivial, rfl, fun _ _ => rfl⟩
  filler_spec _ _ _ := ⟨trivial, rfl, fun _ _ => rfl⟩
  copy_spec _ _ _ _ _ := ⟨trivial, fun _ => rfl⟩
  release_spec _ _ _ _ := ⟨trivial, fun _ _ => rfl⟩
  same_eq _ _ _ := rfl
  describe_eq _ _ := rfl

instance : LawfulElement Text Unit Text where
  view _ t := t
  Owned _ _ := True
  owned_start := trivial
  make_spec _ _ _ _ := ⟨trivial, rfl, fun _ _ => rfl⟩
  filler_spec _ _ _ := ⟨trivial, rfl, fun _ _ => rfl⟩
  copy_spec _ _ _ _ _ := ⟨trivial, fun _ => rfl⟩
  release_spec _ _ _ _ := ⟨trivial, fun _ _ => rfl⟩
  same_eq _ _ _ := rfl
  describe_eq _ _ := rfl

/-! ## Several elements -/

section Elements

variable {α σ ι : Type} [Element α σ ι] [Values ι] [LawfulElement α σ ι]

theorem copyAll_spec (items : List α) {s : σ} {es : Multiset α} (h : Owned s es) (hi : ∀ a ∈ items, a ∈ es) :
    Owned (items.foldl Element.copy s) ((items : Multiset α) + es) ∧
      ∀ b : α, view (items.foldl Element.copy s) b = view s b := by
  induction items generalizing s es with
  | nil => exact ⟨by simpa using h, fun _ => rfl⟩
  | cons a items ih =>
    obtain ⟨hc, hv⟩ := copy_spec s es a h (hi a (.head _))
    obtain ⟨ho, hv'⟩ := ih hc fun b hb => Multiset.mem_cons_of_mem (hi b (.tail _ hb))
    refine ⟨?_, fun b => (hv' b).trans (hv b)⟩
    rw [← Multiset.cons_coe, Multiset.cons_add, ← Multiset.add_cons]
    exact ho

theorem releaseAll_spec (items : List α) {s : σ} {es : Multiset α} (h : Owned s ((items : Multiset α) + es)) :
    Owned (items.foldl Element.release s) es ∧
      ∀ b ∈ es, view (items.foldl Element.release s) b = view s b := by
  induction items generalizing s with
  | nil => exact ⟨by simpa using h, fun _ _ => rfl⟩
  | cons a items ih =>
    rw [← Multiset.cons_coe, Multiset.cons_add] at h
    obtain ⟨hr, hv⟩ := release_spec s _ a h
    obtain ⟨ho, hv'⟩ := ih hr
    exact ⟨ho, fun b hb => (hv' b hb).trans (hv b (Multiset.mem_add.2 (.inr hb)))⟩

/-- The elements made so far, and the literals that are left. -/
theorem makeAll_spec (literals : List ι) (items : List α) {s : σ} {es : Multiset α}
    (h : Owned s ((items : Multiset α) + es)) :
    let made := literals.foldl (fun (items, s) l =>
      let (a, s) := Element.make s l
      (items ++ [a], s)) (items, s)
    Owned made.2 ((made.1 : Multiset α) + es) ∧ made.1.map (view made.2) = items.map (view s) ++ literals ∧
      ∀ b ∈ es, view made.2 b = view s b := by
  induction literals generalizing items s with
  | nil => exact ⟨h, (List.append_nil _).symm, fun _ _ => rfl⟩
  | cons l literals ih =>
    obtain ⟨hm, hl, hv⟩ := make_spec s _ l h
    have hitems : Owned (Element.make s l : α × σ).2
        (((items ++ [(Element.make s l).1] : List α) : Multiset α) + es) := by
      rw [← Multiset.coe_add, Multiset.coe_singleton, add_assoc, Multiset.singleton_add, Multiset.add_cons]
      exact hm
    obtain ⟨ho, hi, hv'⟩ := ih _ hitems
    refine ⟨ho, hi.trans ?_, fun b hb => (hv' b hb).trans (hv b (Multiset.mem_add.2 (.inr hb)))⟩
    have hkeep : items.map (view (Element.make s l : α × σ).2) = items.map (view s) :=
      List.map_congr_left fun a ha => hv a (Multiset.mem_add.2 (.inl ha))
    rw [List.map_append, List.map_singleton, hl, hkeep, List.append_assoc]
    rfl

end Elements

/-! ## Buffers -/

namespace Pool

section Buffers

variable {α σ : Type} {p : Pool α σ} {r r' : Ref α}

theorem read_of_le (h : p.buffers.length ≤ r.place) : p.read r = ⟨[], 0⟩ := by
  rw [read, List.getD_eq_default _ _ h]

theorem place_lt (h : 0 < p.refs r) : r.place < p.buffers.length := by
  by_contra hle
  rw [refs, read_of_le (Nat.le_of_not_lt hle)] at h
  exact Nat.lt_irrefl 0 h

theorem read_write_self (h : r.place < p.buffers.length) (b : Buffer α) : (p.write r b).read r = b := by
  rw [read, write, List.getD_eq_getElem _ _ (by rwa [List.length_set]), List.getElem_set_self]

theorem read_write_ne (h : r' ≠ r) (b : Buffer α) : (p.write r b).read r' = p.read r' := by
  have hne : r.place ≠ r'.place := fun heq => h (Ref.ext heq).symm
  simp only [read, write, List.getD_eq_getElem?_getD, List.getElem?_set_ne hne]

theorem write_read (h : r.place < p.buffers.length) : p.write r (p.read r) = p := by
  rw [write, read, List.getD_eq_getElem _ _ h, List.set_getElem_self]

theorem read_alloc_self (items : List α) : (p.alloc items).2.read (p.alloc items).1 = ⟨items, 1⟩ := by
  simp only [read, alloc, List.getD_eq_getElem?_getD, List.getElem?_concat_length, Option.getD_some]

theorem read_alloc_ne (items : List α) (h : r ≠ (p.alloc items).1) : (p.alloc items).2.read r = p.read r := by
  have hne : r.place ≠ p.buffers.length := fun heq => h (Ref.ext heq)
  simp only [read, alloc, List.getD_eq_getElem?_getD]
  rcases Nat.lt_or_gt_of_ne hne with hlt | hgt
  · rw [List.getElem?_append_left hlt]
  · rw [List.getElem?_eq_none (Nat.le_of_lt hgt), List.getElem?_eq_none]
    rw [List.length_append, List.length_singleton]
    omega

section Slots

variable {index : Int32} {i : Nat} {a : α}

theorem lt_of_slot_eq (h : p.slot r index = .ok i) : i < (p.items r).length := by
  unfold slot at h
  split at h
  · cases h
    omega
  · cases h

theorem get_of_slot (h : p.slot r index = .ok i) : ∃ a, (p.items r)[i]? = some a ∧ p.get r index = .ok a := by
  have hi := List.getElem?_eq_getElem (lt_of_slot_eq h)
  refine ⟨_, hi, ?_⟩
  rw [get, h]
  simp only [bind, Except.bind, hi]

theorem get_of_slot_error {f : Failure} (h : p.slot r index = .error f) : p.get r index = .error f := by
  rw [get, h]
  rfl

theorem set_of_slot {ι : Type} [Element α σ ι] (h : p.slot r index = .ok i) (l : ι) :
    p.set r index l =
      let (r, p) := p.exclusive r
      let (a, beneath) := Element.make p.beneath l
      .ok (r, { p with beneath }.store r i a) := by
  rw [set, h]
  rfl

/-- An element that cannot be read has no slot. -/
theorem slot_of_get_error {f : Failure} (hget : p.get r index = .error f) : p.slot r index = .error f := by
  cases hslot : p.slot r index with
  | error g =>
    have hread := get_of_slot_error hslot
    rw [hget] at hread
    cases hread
    rfl
  | ok i =>
    obtain ⟨a, -, hread⟩ := get_of_slot hslot
    rw [hget] at hread
    cases hread

/-- An element that can be read is the one in its slot. -/
theorem slot_of_get (hget : p.get r index = .ok a) :
    p.slot r index = .ok index.toInt.toNat ∧ (p.items r)[index.toInt.toNat]? = some a := by
  cases hslot : p.slot r index with
  | error f =>
    rw [get_of_slot_error hslot] at hget
    cases hget
  | ok i =>
    obtain ⟨b, hitem, hread⟩ := get_of_slot hslot
    obtain rfl : b = a := Except.ok.inj (hread.symm.trans hget)
    obtain rfl : i = index.toInt.toNat := by
      unfold slot at hslot
      split at hslot
      · cases hslot
        rfl
      · cases hslot
    exact ⟨rfl, hitem⟩

theorem getD_of_get (hget : p.get r index = .ok a) (default : α) :
    (p.items r).getD index.toInt.toNat default = a := by
  rw [List.getD_eq_getElem?_getD, (slot_of_get hget).2]
  rfl

theorem mem_of_get (hget : p.get r index = .ok a) : a ∈ p.items r := List.mem_of_getElem? (slot_of_get hget).2

end Slots

theorem items_exclusive {ι : Type} [Element α σ ι] (p : Pool α σ) (r : Ref α) :
    (p.exclusive r).2.items (p.exclusive r).1 = p.items r := by
  unfold exclusive
  split
  · rfl
  · rw [items, read_alloc_self]

/-- The elements in all buffers. -/
def stock (p : Pool α σ) : Multiset α := (p.buffers.map fun b => (b.items : Multiset α)).sum

theorem mem_stock {a : α} (h : a ∈ p.items r) : a ∈ p.stock := by
  have hlt : r.place < p.buffers.length := by
    by_contra hle
    rw [items, read_of_le (Nat.le_of_not_lt hle)] at h
    cases h
  have hread : p.read r ∈ p.buffers := by
    rw [read, List.getD_eq_getElem _ _ hlt]
    exact List.getElem_mem hlt
  have hmem : ((p.read r).items : Multiset α) ∈ p.buffers.map fun b => (b.items : Multiset α) :=
    List.mem_map_of_mem hread
  exact Multiset.mem_of_le (List.single_le_sum (fun _ _ => Multiset.zero_le _) _ hmem) h

theorem stock_alloc (items : List α) : (p.alloc items).2.stock = p.stock + items := by
  simp only [stock, alloc, List.map_append, List.sum_append, List.map_singleton, List.sum_singleton]

/-- The elements in all buffers but one. -/
theorem stock_split (h : r.place < p.buffers.length) :
    ∃ rest, p.stock = rest + p.items r ∧ (∀ b, (p.write r b).stock = rest + b.items) ∧
      ∀ r', r' ≠ r → ∀ a ∈ p.items r', a ∈ rest := by
  have hwrite : ∀ b : Buffer α, (p.write r b).stock = (p.write r ⟨[], 0⟩).stock + b.items := by
    intro b
    simp only [stock, write, List.set_eq_take_append_cons_drop, if_pos h, List.map_append, List.map_cons,
      List.sum_append, List.sum_cons, Multiset.coe_nil, zero_add]
    ac_rfl
  refine ⟨(p.write r ⟨[], 0⟩).stock, ?_, hwrite, fun r' hne a ha => ?_⟩
  · have hself := hwrite (p.read r)
    rw [write_read h] at hself
    exact hself
  · refine mem_stock (r := r') ?_
    rw [items, read_write_ne hne]
    exact ha

/-- The count of every buffer is the number of references to it, and a buffer without references is empty. -/
structure Counts (p : Pool α σ) (rs : Multiset (Ref α)) : Prop where
  refs : ∀ r, p.refs r = rs.count r
  empty : ∀ r, p.refs r = 0 → p.items r = []

theorem Counts.place_lt {rs : Multiset (Ref α)} (h : p.Counts rs) (hr : r ∈ rs) : r.place < p.buffers.length := by
  refine Pool.place_lt ?_
  rw [h.refs]
  exact Multiset.count_pos.2 hr

theorem Counts.write {rs rs' : Multiset (Ref α)} (h : p.Counts rs) (hr : r.place < p.buffers.length) {b : Buffer α}
    (hrefs : b.refs = rs'.count r) (hothers : ∀ r', r' ≠ r → rs'.count r' = rs.count r')
    (hempty : b.refs = 0 → b.items = []) : (p.write r b).Counts rs' := by
  refine ⟨fun r' => ?_, fun r' => ?_⟩
  · by_cases hne : r' = r
    · rw [hne, Pool.refs, read_write_self hr, hrefs]
    · rw [Pool.refs, read_write_ne hne, hothers r' hne]
      exact h.refs r'
  · by_cases hne : r' = r
    · rw [hne, Pool.refs, items, read_write_self hr]
      exact hempty
    · rw [Pool.refs, items, read_write_ne hne]
      exact h.empty r'

theorem Counts.alloc {rs : Multiset (Ref α)} (h : p.Counts rs) (items : List α) :
    (p.alloc items).2.Counts ((p.alloc items).1 ::ₘ rs) := by
  refine ⟨fun r => ?_, fun r => ?_⟩
  · by_cases hne : r = (p.alloc items).1
    · have hnew : rs.count (p.alloc items).1 = 0 := by
        rw [← h.refs]
        exact congrArg Buffer.refs (read_of_le (Nat.le_refl p.buffers.length))
      rw [hne, Pool.refs, read_alloc_self, Multiset.count_cons_self, hnew]
    · rw [Pool.refs, read_alloc_ne items hne, Multiset.count_cons_of_ne hne]
      exact h.refs r
  · by_cases hne : r = (p.alloc items).1
    · rw [hne, Pool.refs, read_alloc_self]
      exact fun h => absurd h (Nat.succ_ne_zero 0)
    · rw [Pool.refs, Pool.items, read_alloc_ne items hne]
      exact h.empty r

end Buffers

/-! ## Operations -/

section Operations

variable {α σ ι : Type} [Element α σ ι] [Values ι] [LawfulElement α σ ι]

/-- The values in the buffer of a reference. -/
def contents (p : Pool α σ) (r : Ref α) : List ι := (p.items r).map (view p.beneath)

/-- The references in use are counted, and the elements of their buffers are in use beneath. -/
structure Holds (p : Pool α σ) (rs : Multiset (Ref α)) : Prop where
  counts : p.Counts rs
  beneath : Owned p.beneath p.stock

/-- The answer is a reference of its own with the contents `v`, and the references `rs` read as before. -/
structure Yields (p : Pool α σ) (rs : Multiset (Ref α)) (v : List ι) (result : Ref α × Pool α σ) : Prop where
  holds : result.2.Holds (result.1 ::ₘ rs)
  contents : result.2.contents result.1 = v
  keeps : ∀ r ∈ rs, result.2.contents r = p.contents r

variable {p : Pool α σ} {rs : Multiset (Ref α)} {r : Ref α}

theorem contents_congr {p' : Pool α σ} (hi : p'.items r = p.items r)
    (hv : ∀ a ∈ p.items r, view p'.beneath a = view p.beneath a) : p'.contents r = p.contents r := by
  rw [contents, hi]
  exact List.map_congr_left hv

theorem holds_start : (Pool.start : Pool α σ).Holds 0 := by
  refine ⟨⟨fun r => ?_, fun r _ => ?_⟩, owned_start⟩
  · rw [refs, read_of_le (Nat.zero_le _), Multiset.count_zero]
  · rw [items, read_of_le (Nat.zero_le _)]

/-- A new buffer takes elements that have come into use beneath. -/
theorem alloc_yields {s : σ} {items : List α} (hc : p.Counts rs) (ho : Owned s ((items : Multiset α) + p.stock))
    (hv : ∀ a ∈ p.stock, view s a = view p.beneath a) :
    p.Yields rs (items.map (view s)) (alloc { p with beneath := s } items) := by
  have hc' : Counts { p with beneath := s } rs := ⟨hc.refs, hc.empty⟩
  refine ⟨⟨hc'.alloc items, ?_⟩, ?_, fun r hr => ?_⟩
  · rw [stock_alloc, add_comm]
    exact ho
  · rw [contents, Pool.items, read_alloc_self]
    rfl
  · have hne : r ≠ (alloc { p with beneath := s } items).1 := by
      rintro rfl
      exact Nat.lt_irrefl _ (hc.place_lt hr)
    refine contents_congr ?_ fun a ha => hv a (mem_stock ha)
    rw [Pool.items, read_alloc_ne items hne]
    rfl

theorem nil_yields (h : p.Holds rs) : p.Yields rs [] (p.alloc []) := by
  have hb : Owned p.beneath ((([] : List α) : Multiset α) + p.stock) := by simpa using h.beneath
  exact alloc_yields h.counts hb fun _ _ => rfl

theorem ofLiterals_yields (h : p.Holds rs) (literals : List ι) : p.Yields rs literals (p.ofLiterals literals) := by
  have hb : Owned p.beneath ((([] : List α) : Multiset α) + p.stock) := by simpa using h.beneath
  obtain ⟨ho, hl, hv⟩ := makeAll_spec literals [] hb
  have hy := alloc_yields h.counts ho hv
  rw [hl] at hy
  exact hy

theorem ofCopies_yields (h : p.Holds rs) {items : List α} (hi : ∀ a ∈ items, a ∈ p.stock) :
    p.Yields rs (items.map (view p.beneath)) (p.ofCopies items) := by
  obtain ⟨ho, hv⟩ := copyAll_spec items h.beneath hi
  have hy := alloc_yields h.counts ho fun a _ => hv a
  rw [List.map_congr_left fun a _ => hv a] at hy
  exact hy

theorem deepCopy_yields (h : p.Holds rs) (r : Ref α) : p.Yields rs (p.contents r) (p.deepCopy r) :=
  ofCopies_yields h fun _ ha => mem_stock ha

theorem map_range {κ : Type} (f : α → κ) (items : List α) (first count : Int32) :
    (range items first count).map f = range (items.map f) first count := by
  unfold range
  split
  · rfl
  · rw [List.map_take, List.map_drop]

theorem copyRange_yields (h : p.Holds rs) (r : Ref α) (first count : Int32) :
    p.Yields rs (range (p.contents r) first count) (p.copyRange r first count) := by
  rw [contents, ← map_range]
  refine ofCopies_yields h fun a ha => mem_stock (r := r) ?_
  unfold range at ha
  split at ha
  · cases ha
  · exact List.mem_of_mem_drop (List.mem_of_mem_take ha)

/-- A reference more or less leaves the elements as they are. -/
theorem Holds.recount (h : p.Holds rs) (hr : r ∈ rs) (rs' : Multiset (Ref α)) {n : Nat} (hn : n = rs'.count r)
    (hpos : 0 < n) (hothers : ∀ r', r' ≠ r → rs'.count r' = rs.count r') :
    (p.write r { p.read r with refs := n }).Holds rs' ∧
      ∀ r', (p.write r { p.read r with refs := n }).contents r' = p.contents r' := by
  have hlt := h.counts.place_lt hr
  refine ⟨⟨h.counts.write hlt hn hothers fun h0 => absurd h0 (Nat.ne_of_gt hpos), ?_⟩, fun r' => ?_⟩
  · obtain ⟨rest, hstock, hwrite, -⟩ := stock_split hlt
    rw [hwrite]
    have hb := h.beneath
    rw [hstock] at hb
    exact hb
  · refine contents_congr ?_ fun _ _ => rfl
    by_cases hne : r' = r
    · rw [hne, items, read_write_self hlt]
      rfl
    · rw [items, read_write_ne hne]
      rfl

theorem retain_holds (h : p.Holds rs) (hr : r ∈ rs) :
    (p.retain r).Holds (r ::ₘ rs) ∧ ∀ r', (p.retain r).contents r' = p.contents r' :=
  h.recount hr (r ::ₘ rs) (by rw [Multiset.count_cons_self, h.counts.refs]) (Nat.succ_pos _)
    fun _ hne => Multiset.count_cons_of_ne hne _

theorem retain_yields (h : p.Holds rs) (hr : r ∈ rs) : p.Yields rs (p.contents r) (r, p.retain r) := by
  obtain ⟨hh, hcontents⟩ := retain_holds h hr
  exact ⟨hh, hcontents r, fun r' _ => hcontents r'⟩

theorem release_holds (h : p.Holds (r ::ₘ rs)) :
    (p.release r).Holds rs ∧ ∀ r' ∈ rs, (p.release r).contents r' = p.contents r' := by
  have hmem : r ∈ r ::ₘ rs := Multiset.mem_cons_self r rs
  have hrefs : p.refs r = rs.count r + 1 := by rw [h.counts.refs, Multiset.count_cons_self]
  have hothers : ∀ r', r' ≠ r → rs.count r' = (r ::ₘ rs).count r' :=
    fun r' hne => (Multiset.count_cons_of_ne hne _).symm
  unfold release
  split
  · obtain ⟨hh, hcontents⟩ := h.recount hmem rs (n := p.refs r - 1) (by omega) (by omega) hothers
    exact ⟨hh, fun r' _ => hcontents r'⟩
  · -- The last reference goes, and with it the elements of the buffer.
    have hlast : rs.count r = 0 := by omega
    have hlt := h.counts.place_lt hmem
    obtain ⟨rest, hstock, hwrite, hrest⟩ := stock_split hlt
    have hb := h.beneath
    rw [hstock, add_comm] at hb
    obtain ⟨ho, hv⟩ := releaseAll_spec _ hb
    have hc : Counts (p.write r ⟨[], 0⟩) rs := h.counts.write hlt hlast.symm hothers fun _ => rfl
    refine ⟨⟨⟨hc.refs, hc.empty⟩, ?_⟩, fun r' hr' => ?_⟩
    · have hs : (p.write r ⟨[], 0⟩).stock = rest := by simpa using hwrite ⟨[], 0⟩
      change Owned _ (p.write r ⟨[], 0⟩).stock
      rw [hs]
      exact ho
    · have hne : r' ≠ r := by
        rintro rfl
        exact absurd (Multiset.count_pos.2 hr') (by omega)
      refine contents_congr ?_ fun a ha => hv a (hrest r' hne a ha)
      change (p.write r ⟨[], 0⟩).items r' = p.items r'
      rw [items, read_write_ne hne]
      rfl

/-! ## Writing to an own buffer -/

/-- A reference that shares its buffer with none of the references `rs`. -/
structure Alone (p : Pool α σ) (rs : Multiset (Ref α)) (r : Ref α) : Prop where
  holds : p.Holds (r ::ₘ rs)
  notMem : r ∉ rs

theorem exclusive_spec (h : p.Holds (r ::ₘ rs)) :
    Alone (p.exclusive r).2 rs (p.exclusive r).1 ∧ (p.exclusive r).2.items (p.exclusive r).1 = p.items r ∧
      p.Yields rs (p.contents r) (p.exclusive r) := by
  have hmem : r ∈ r ::ₘ rs := Multiset.mem_cons_self r rs
  have hrefs : p.refs r = rs.count r + 1 := by rw [h.counts.refs, Multiset.count_cons_self]
  unfold exclusive
  split
  · have hnot : r ∉ rs := Multiset.count_eq_zero.1 (by omega)
    exact ⟨⟨h, hnot⟩, rfl, h, rfl, fun _ _ => rfl⟩
  · -- The buffer keeps its other references, and its elements are copied.
    have hothers : ∀ r', r' ≠ r → rs.count r' = (r ::ₘ rs).count r' :=
      fun r' hne => (Multiset.count_cons_of_ne hne _).symm
    obtain ⟨hh, hcontents⟩ := h.recount hmem rs (n := p.refs r - 1) (by omega) (by omega) hothers
    have hlt := h.counts.place_lt hmem
    have hitems : (p.write r { p.read r with refs := p.refs r - 1 }).items r = p.items r := by
      rw [items, read_write_self hlt]
      rfl
    have hstock : ∀ a ∈ p.items r, a ∈ (p.write r { p.read r with refs := p.refs r - 1 }).stock := by
      intro a ha
      rw [← hitems] at ha
      exact mem_stock ha
    obtain ⟨ho, hv⟩ := copyAll_spec (p.items r) hh.beneath hstock
    have hy := alloc_yields hh.counts ho fun a _ => hv a
    rw [List.map_congr_left fun a _ => hv a] at hy
    refine ⟨⟨hy.holds, ?_⟩, ?_, ⟨hy.holds, hy.contents, fun r' hr' => (hy.keeps r' hr').trans (hcontents r')⟩⟩
    · intro hin
      exact Nat.lt_irrefl _ (hh.counts.place_lt hin)
    · rw [items, read_alloc_self]

/-- What follows a step that keeps the references `rs`. -/
theorem Yields.after {p' : Pool α σ} {v : List ι} {result : Ref α × Pool α σ} (h : p'.Yields rs v result)
    (hk : ∀ r ∈ rs, p'.contents r = p.contents r) : p.Yields rs v result :=
  ⟨h.holds, h.contents, fun r hr => (h.keeps r hr).trans (hk r hr)⟩

/-- An own buffer may be given other elements; the other buffers hold the same rest. -/
theorem Alone.edit (h : p.Alone rs r) :
    ∃ rest, p.stock = (p.items r : Multiset α) + rest ∧
      ∀ (s : σ) (items : List α), Owned s ((items : Multiset α) + rest) →
        (∀ a ∈ rest, view s a = view p.beneath a) →
          p.Yields rs (items.map (view s)) (r, { p.replace r items with beneath := s }) := by
  have hlt := h.holds.counts.place_lt (Multiset.mem_cons_self r rs)
  obtain ⟨rest, hstock, hwrite, hrest⟩ := stock_split hlt
  refine ⟨rest, by rw [hstock, add_comm], fun s items ho hv => ?_⟩
  have hc : Counts (p.replace r items) (r ::ₘ rs) := by
    refine h.holds.counts.write hlt (h.holds.counts.refs r) (fun _ _ => rfl) fun h0 => ?_
    have hpos := Multiset.count_pos.2 (Multiset.mem_cons_self r rs)
    rw [← h.holds.counts.refs] at hpos
    exact absurd h0 (Nat.ne_of_gt hpos)
  refine ⟨⟨⟨hc.refs, hc.empty⟩, ?_⟩, ?_, fun r' hr' => ?_⟩
  · change Owned s (p.replace r items).stock
    rw [replace, hwrite, add_comm]
    exact ho
  · change ((p.replace r items).items r).map (view s) = _
    rw [replace, Pool.items, read_write_self hlt]
  · have hne : r' ≠ r := fun heq => h.notMem (heq ▸ hr')
    refine contents_congr ?_ fun a ha => hv a (hrest r' hne a ha)
    change (p.replace r items).items r' = p.items r'
    rw [replace, Pool.items, read_write_ne hne]
    rfl

/-- One element of an own buffer may be exchanged for another one. -/
theorem Alone.put (h : p.Alone rs r) {i : Nat} (hi : i < (p.items r).length) :
    ∃ others, p.stock = (p.items r)[i] ::ₘ others ∧
      ∀ (s : σ) (a : α), Owned s (a ::ₘ others) → (∀ b ∈ others, view s b = view p.beneath b) →
        p.Yields rs ((p.contents r).set i (view s a)) (r, { p.replace r ((p.items r).set i a) with beneath := s }) := by
  obtain ⟨rest, hstock, hedit⟩ := h.edit
  have hold : (p.items r : Multiset α) = (p.items r)[i] ::ₘ ((p.items r).eraseIdx i : Multiset α) :=
    Multiset.coe_eq_coe.2 (List.getElem_cons_eraseIdx_perm hi).symm
  refine ⟨((p.items r).eraseIdx i : Multiset α) + rest, ?_, fun s a hs hv => ?_⟩
  · rw [hstock, ← Multiset.cons_add, ← hold]
  · have hnew : ((p.items r).set i a : Multiset α) = a ::ₘ ((p.items r).eraseIdx i : Multiset α) :=
      Multiset.coe_eq_coe.2 (List.set_perm_cons_eraseIdx hi a)
    have hedited := hedit s ((p.items r).set i a) (by rw [hnew, Multiset.cons_add]; exact hs)
      fun b hb => hv b (Multiset.mem_add.2 (.inr hb))
    have hcontents : ((p.items r).set i a).map (view s) = (p.contents r).set i (view s a) := by
      rw [List.map_set, contents]
      refine List.ext_getElem (by simp) fun j hj _ => ?_
      simp only [List.getElem_set, List.getElem_map]
      split
      · rfl
      · rename_i hne
        have hj' : j < (p.items r).length := by simpa using hj
        refine hv _ (Multiset.mem_add.2 (.inl ?_))
        exact List.mem_eraseIdx_iff_getElem.2 ⟨j, hj', Ne.symm hne, rfl⟩
    rw [hcontents] at hedited
    exact hedited

/-- A new element takes the place of another one, which is released. -/
theorem Alone.store (h : p.Alone rs r) {i : Nat} (hi : i < (p.items r).length) {s : σ} {a : α}
    (hs : Owned s (a ::ₘ p.stock)) (hv : ∀ b ∈ p.stock, view s b = view p.beneath b) :
    p.Yields rs ((p.contents r).set i (view s a)) (r, Pool.store { p with beneath := s } r i a) := by
  obtain ⟨others, hstock, hput⟩ := h.put hi
  rw [hstock, Multiset.cons_swap] at hs
  obtain ⟨hr, hv'⟩ := release_spec _ _ _ hs
  have hedited := hput _ a hr fun b hb => by
    rw [hv' b (Multiset.mem_cons_of_mem hb)]
    exact hv b (hstock ▸ Multiset.mem_cons_of_mem hb)
  rw [hv' a (Multiset.mem_cons_self _ _)] at hedited
  have hreleased : ((p.items r)[i]?.map (Element.release s)).getD s = Element.release s (p.items r)[i] := by
    rw [List.getElem?_eq_getElem hi]
    rfl
  rw [← hreleased] at hedited
  exact hedited

/-- A new element is appended. -/
theorem Alone.append (h : p.Alone rs r) {s : σ} {a : α} (hs : Owned s (a ::ₘ p.stock))
    (hv : ∀ b ∈ p.stock, view s b = view p.beneath b) :
    p.Yields rs (p.contents r ++ [view s a]) (r, replace { p with beneath := s } r (p.items r ++ [a])) := by
  obtain ⟨rest, hstock, hedit⟩ := h.edit
  have hnew : ((p.items r ++ [a] : List α) : Multiset α) + rest = a ::ₘ p.stock := by
    rw [hstock, ← Multiset.coe_add, Multiset.coe_singleton, add_assoc, Multiset.singleton_add, Multiset.add_cons]
  have hedited := hedit s (p.items r ++ [a]) (hnew ▸ hs) fun b hb => hv b (hstock ▸ Multiset.mem_add.2 (.inr hb))
  have hcontents : (p.items r ++ [a]).map (view s) = p.contents r ++ [view s a] := by
    rw [List.map_append, List.map_singleton]
    exact congrArg (· ++ [view s a]) (List.map_congr_left fun b hb => hv b (mem_stock hb))
  rw [hcontents] at hedited
  exact hedited

/-! ## Writes -/

/-- A refusal is the same, and what is not refused yields what it should. -/
def Answers (p : Pool α σ) (rs : Multiset (Ref α)) :
    Except Failure (List ι) → Except Failure (Ref α × Pool α σ) → Prop
  | .ok v, .ok result => p.Yields rs v result
  | .error f, .error g => f = g
  | _, _ => False

theorem Answers.refused_or_yields {v : Except Failure (List ι)} {written : Except Failure (Ref α × Pool α σ)}
    (h : p.Answers rs v written) :
    (∃ f, v = .error f ∧ written = .error f) ∨
      ∃ items result, v = .ok items ∧ written = .ok result ∧ p.Yields rs items result := by
  cases v with
  | error f =>
    cases written with
    | error g =>
      cases h
      exact .inl ⟨f, rfl, rfl⟩
    | ok result => exact h.elim
  | ok items =>
    cases written with
    | error g => exact h.elim
    | ok result => exact .inr ⟨items, result, rfl, rfl, h⟩

@[simp]
theorem length_contents (p : Pool α σ) (r : Ref α) : (p.contents r).length = (p.items r).length := List.length_map _

theorem slot_eq (p : Pool α σ) (r : Ref α) (index : Int32) : p.slot r index = Plain.slot (p.contents r) index := by
  simp only [slot, Plain.slot, length, length_contents]

theorem lt_of_slot {κ : Type} {v : List κ} {index : Int32} {i : Nat} (h : Plain.slot v index = .ok i) :
    i < v.length ∧ i = index.toInt.toNat := by
  unfold Plain.slot at h
  split at h
  · cases h
    omega
  · cases h

theorem get_eq (p : Pool α σ) (r : Ref α) (index : Int32) :
    (p.get r index).map (view p.beneath) = Plain.get (p.contents r) index := by
  unfold get Plain.get
  rw [slot_eq]
  cases hs : Plain.slot (p.contents r) index with
  | error f => rfl
  | ok i =>
    obtain ⟨hi, -⟩ := lt_of_slot hs
    simp only [bind, Except.bind, contents, List.getElem?_map] at hi ⊢
    rw [List.length_map] at hi
    rw [List.getElem?_eq_getElem hi]
    rfl

theorem push_yields (h : p.Holds (r ::ₘ rs)) (l : ι) : p.Yields rs (p.contents r ++ [l]) (p.push r l) := by
  obtain ⟨halone, -, hy⟩ := exclusive_spec h
  obtain ⟨hm, hl, hv⟩ := make_spec _ _ l halone.holds.beneath
  have happend := halone.append hm hv
  rw [hl, hy.contents] at happend
  exact happend.after hy.keeps

theorem set_answers (h : p.Holds (r ::ₘ rs)) (index : Int32) (l : ι) :
    p.Answers rs (Plain.set (p.contents r) index l) (p.set r index l) := by
  unfold Plain.set set
  rw [slot_eq]
  cases hs : Plain.slot (p.contents r) index with
  | error f => exact rfl
  | ok i =>
    obtain ⟨halone, hitems, hy⟩ := exclusive_spec h
    have hi : i < ((p.exclusive r).2.items (p.exclusive r).1).length := by
      rw [hitems, ← length_contents]
      exact (lt_of_slot hs).1
    obtain ⟨hm, hl, hv⟩ := make_spec _ _ l halone.holds.beneath
    have hstore := halone.store hi hm hv
    rw [hl, hy.contents] at hstore
    exact hstore.after hy.keeps

/-- Filling up adds blank elements. -/
theorem Alone.grow (h : p.Alone rs r) (n : Nat) :
    p.Yields rs (p.contents r ++ List.replicate (n + 1) Values.blank) (r, p.grow r n) := by
  obtain ⟨rest, hstock, hedit⟩ := h.edit
  obtain ⟨hf, hblank, hv⟩ := filler_spec p.beneath p.stock h.holds.beneath
  obtain ⟨ho, hv'⟩ := copyAll_spec (List.replicate n (Element.filler p.beneath : α × σ).1) hf fun a ha => by
    rw [List.eq_of_mem_replicate ha]
    exact Multiset.mem_cons_self _ _
  have hkeep : ∀ a ∈ p.stock, view ((List.replicate n (Element.filler p.beneath : α × σ).1).foldl Element.copy
      (Element.filler p.beneath : α × σ).2) a = view p.beneath a := fun a ha => (hv' a).trans (hv a ha)
  have hnew : ((p.items r ++ List.replicate (n + 1) (Element.filler p.beneath : α × σ).1 : List α) : Multiset α) +
      rest = (List.replicate n (Element.filler p.beneath : α × σ).1 : Multiset α) +
        (Element.filler p.beneath : α × σ).1 ::ₘ p.stock := by
    rw [hstock, ← Multiset.coe_add, List.replicate_succ, ← Multiset.cons_coe, Multiset.add_cons, Multiset.add_cons,
      Multiset.cons_add]
    ac_rfl
  have hedited := hedit _ _ (hnew ▸ ho) fun a ha => hkeep a (hstock ▸ Multiset.mem_add.2 (.inr ha))
  rw [List.map_append, List.map_replicate, hv', hblank,
    List.map_congr_left fun a ha => hkeep a (mem_stock ha)] at hedited
  exact hedited

theorem Alone.shrink (h : p.Alone rs r) (n : Nat) : p.Yields rs ((p.contents r).take n) (r, p.shrink r n) := by
  obtain ⟨rest, hstock, hedit⟩ := h.edit
  have hsplit : p.stock = ((p.items r).drop n : Multiset α) + (((p.items r).take n : Multiset α) + rest) := by
    rw [hstock, ← add_assoc, Multiset.coe_add]
    exact congrArg (· + rest) (Multiset.coe_eq_coe.2 (List.perm_append_comm.trans (by rw [List.take_append_drop])).symm)
  obtain ⟨ho, hv⟩ := releaseAll_spec _ (hsplit ▸ h.holds.beneath)
  have hedited := hedit _ _ ho fun a ha => hv a (Multiset.mem_add.2 (.inr ha))
  rw [List.map_congr_left fun a ha => hv a (Multiset.mem_add.2 (.inl ha)), List.map_take] at hedited
  exact hedited

theorem resize_length (v : List ι) : Plain.resize v v.length = v := by
  rw [Plain.resize, List.take_length, Nat.sub_self, List.replicate_zero, List.append_nil]

theorem setLength_answers (h : p.Holds (r ::ₘ rs)) (n : Int32) :
    p.Answers rs (Plain.setLength (p.contents r) n) (p.setLength r n) := by
  unfold Plain.setLength setLength
  dsimp only
  split
  · exact rfl
  split
  · rename_i hn
    rw [hn, ← length_contents, resize_length]
    exact ⟨h, rfl, fun _ _ => rfl⟩
  · rename_i hne
    obtain ⟨halone, hitems, hy⟩ := exclusive_spec h
    have hlen : (p.contents r).length = (p.items r).length := length_contents p r
    rw [← hy.contents] at hlen ⊢
    refine Yields.after ?_ hy.keeps
    split
    · rename_i hlt
      have hgrow := halone.grow (n.toInt.toNat - (p.items r).length - 1)
      have hresize : Plain.resize ((p.exclusive r).2.contents (p.exclusive r).1) n.toInt.toNat =
          (p.exclusive r).2.contents (p.exclusive r).1 ++
            List.replicate (n.toInt.toNat - (p.items r).length - 1 + 1) Values.blank := by
        rw [Plain.resize, List.take_of_length_le (by omega), hlen, Nat.sub_add_cancel (by omega)]
      rw [hresize]
      exact hgrow
    · have hshrink := halone.shrink n.toInt.toNat
      have hresize : Plain.resize ((p.exclusive r).2.contents (p.exclusive r).1) n.toInt.toNat =
          ((p.exclusive r).2.contents (p.exclusive r).1).take n.toInt.toNat := by
        rw [Plain.resize, hlen, Nat.sub_eq_zero_of_le (by omega), List.replicate_zero, List.append_nil]
      rw [hresize]
      exact hshrink

/-! ## Queries -/

theorem same_eq_values (p : Pool α σ) (r r' : Ref α) :
    p.same r r' = Values.same (p.contents r) (p.contents r') := by
  simp only [same, Values.same, contents, List.length_map, List.zip_map, List.all_map]
  congr 1
  refine congrArg (List.all _) (funext fun ⟨a, b⟩ => ?_)
  exact same_eq p.beneath a b

theorem describe_eq_values (p : Pool α σ) (r : Ref α) : p.describe r = Values.describe (p.contents r) := by
  simp only [describe, Values.describe, contents, List.map_map]
  congr 4
  funext a
  exact describe_eq p.beneath a

end Operations

end Pool

/-! ## Arrays as elements -/

instance {β τ κ : Type} [Element β τ κ] [Values κ] [LawfulElement β τ κ] :
    LawfulElement (Ref β) (Pool β τ) (List κ) where
  view := Pool.contents
  Owned := Pool.Holds
  owned_start := Pool.holds_start
  make_spec _ _ l h := have hy := Pool.ofLiterals_yields h l; ⟨hy.holds, hy.contents, hy.keeps⟩
  filler_spec _ _ h := have hy := Pool.nil_yields h; ⟨hy.holds, hy.contents, hy.keeps⟩
  copy_spec _ _ _ h hr := Pool.retain_holds h hr
  release_spec _ _ _ h := Pool.release_holds h
  same_eq := Pool.same_eq_values
  describe_eq := Pool.describe_eq_values

end ManagedRuntime.SharedArray
