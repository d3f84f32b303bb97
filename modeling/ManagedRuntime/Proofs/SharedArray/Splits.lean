import ManagedRuntime.Proofs.SharedArray.References

/-!
# Splits

A write through a name gives it a buffer of its own, and does so only if there is something to write.

* `Write` : the writes to an array, and which of them are refused or change nothing;
* `Pool.Written` : what a write through a reference leaves of all buffers of a pool, at any level;
* `Store.WritesThrough`, `Store.SplitOff` : the same for a name, and for a split that is all that happens;
* `Store.SplitsWhenNeeded`, `TextsSplitWhenNeeded`, `Nested.SplitsWhenNeeded` : which commands split;
* `splits_when_needed` : words, floating-point numbers, texts, and arrays of arrays, after every history.
-/

namespace ManagedRuntime.SharedArray

set_option autoImplicit false

open LawfulElement

/-! ## Writes -/

/-- The writes to an array, whether a name stands for it or it is an element. -/
inductive Write (ι : Type) where
  | set (index : Int32) (value : ι)
  | push (value : ι)
  | setLength (n : Int32)

namespace Write

variable {α σ ι : Type}

/-- Why an array of so many elements refuses a write. -/
def refusal (length : Nat) : Write ι → Option Failure
  | .set index _ =>
    if 0 ≤ index.toInt ∧ index.toInt < length then none
    else some (.indexOutOfRange "DynArray" index (Word.saturate length))
  | .push _ => none
  | .setLength n => if n < 0 then some (.invalidArgument "SetLength: negative length") else none

/-- A resize to the present length. -/
def Idle (length : Nat) : Write ι → Prop
  | .setLength n => n.toInt = length
  | _ => False

/-- A write that is neither refused nor idle. -/
structure Due (w : Write ι) (length : Nat) : Prop where
  accepted : w.refusal length = none
  busy : ¬ w.Idle length

def apply [Element α σ ι] (p : Pool α σ) (r : Ref α) : Write ι → Except Failure (Ref α × Pool α σ)
  | .set index value => p.set r index value
  | .push value => .ok (p.push r value)
  | .setLength n => p.setLength r n

/-- The write through a name. -/
def command (h : String) : Write ι → Command ι
  | .set index value => .set h index value
  | .push value => .push h value
  | .setLength n => .setLength h n

/-- The write to an element of an array of arrays. -/
def inner (h : String) (index : Int32) : Write ι → NestedCommand ι
  | .set position value => .set h index position value
  | .push value => .push h index value
  | .setLength n => .setLength h index n

end Write

/-! ## Buffers -/

namespace Pool

section Buffers

variable {α σ : Type} {p p' : Pool α σ} {r r' : Ref α}

/--
What a write through `r` leaves: the reference that it answers has a buffer of its own, which is a new one just if
the old one was shared, and the old one has then lost one reference and nothing else.
-/
structure Written (p : Pool α σ) (r r' : Ref α) (p' : Pool α σ) : Prop where
  own : p'.refs r' = 1
  kept : p.refs r = 1 → r' = r
  fresh : 1 < p.refs r → p.refs r' = 0
  left : 1 < p.refs r → p'.read r = ⟨p.items r, p.refs r - 1⟩
  others : ∀ q, q ≠ r → q ≠ r' → p'.read q = p.read q

theorem Written.ne (hw : p.Written r r' p') (hshared : 1 < p.refs r) : r' ≠ r := by
  rintro rfl
  have hfresh := hw.fresh hshared
  omega

theorem Written.place_lt (hw : p.Written r r' p') : r'.place < p'.buffers.length := by
  refine Pool.place_lt ?_
  rw [hw.own]
  exact Nat.one_pos

theorem Written.items_replace (hw : p.Written r r' p') (items : List α) (s : σ) :
    Pool.items { p'.replace r' items with beneath := s } r' = items :=
  congrArg Buffer.items (read_write_self hw.place_lt _)

/-- The own buffer may be given other elements, which may refer to what they want. -/
theorem Written.replace (hw : p.Written r r' p') (items : List α) (s : σ) :
    p.Written r r' { p'.replace r' items with beneath := s } := by
  have hown : (p'.replace r' items).read r' = ⟨items, 1⟩ := by
    rw [Pool.replace, read_write_self hw.place_lt]
    exact congrArg (Buffer.mk items) hw.own
  have hframe : ∀ q, q ≠ r' → (p'.replace r' items).read q = p'.read q := fun q hq => read_write_ne hq _
  refine ⟨congrArg Buffer.refs hown, hw.kept, hw.fresh, fun hshared => ?_, fun q hq hq' => ?_⟩
  · exact (hframe r (hw.ne hshared).symm).trans (hw.left hshared)
  · exact (hframe q hq').trans (hw.others q hq hq')

theorem slot_of_accepted {ι : Type} {index : Int32} {value : ι}
    (hw : (Write.set index value).refusal (p.items r).length = none) : p.slot r index = .ok index.toInt.toNat := by
  unfold slot
  by_cases hrange : 0 ≤ index.toInt ∧ index.toInt < (p.items r).length
  · rw [if_pos hrange]
  · rw [Write.refusal, if_neg hrange] at hw
    cases hw

end Buffers

section Operations

variable {α σ ι : Type} [Element α σ ι] {p : Pool α σ} {r : Ref α} {w : Write ι}

theorem exclusive_written (hlive : 0 < p.refs r) : p.Written r (p.exclusive r).1 (p.exclusive r).2 := by
  have hplace := place_lt hlive
  unfold exclusive
  split
  · rename_i hone
    refine ⟨hone, fun _ => rfl, fun hshared => ?_, fun hshared => ?_, fun _ _ _ => rfl⟩ <;>
      exact absurd hshared (by omega)
  · rename_i hmany
    have hlength : ((p.copyItems (p.items r)).write r { p.read r with refs := p.refs r - 1 }).buffers.length =
        p.buffers.length := List.length_set
    have hnew : r ≠ (alloc ((p.copyItems (p.items r)).write r { p.read r with refs := p.refs r - 1 })
        (p.items r)).1 := by
      intro heq
      have hend : r.place = p.buffers.length := (congrArg Ref.place heq).trans hlength
      omega
    refine ⟨?_, fun hone => absurd hone hmany, fun _ => ?_, fun _ => ?_, fun q hq hq' => ?_⟩
    · rw [refs, read_alloc_self]
    · rw [refs, read_of_le]
      exact hlength.ge
    · rw [read_alloc_ne _ hnew]
      exact read_write_self hplace _
    · rw [read_alloc_ne _ hq']
      exact read_write_ne hq _

theorem apply_refused {f : Failure} (hw : w.refusal (p.items r).length = some f) : w.apply p r = .error f := by
  cases w with
  | set index value =>
    by_cases hrange : 0 ≤ index.toInt ∧ index.toInt < (p.items r).length
    · rw [Write.refusal, if_pos hrange] at hw
      cases hw
    · rw [Write.refusal, if_neg hrange] at hw
      cases hw
      rw [Write.apply, Pool.set, slot, if_neg hrange]
      rfl
  | push value => cases hw
  | setLength n =>
    by_cases hneg : n < 0
    · rw [Write.refusal, if_pos hneg] at hw
      cases hw
      exact if_pos hneg
    · rw [Write.refusal, if_neg hneg] at hw
      cases hw

theorem apply_idle (hw : w.Idle (p.items r).length) : w.apply p r = .ok (r, p) := by
  cases w with
  | set index value => exact hw.elim
  | push value => exact hw.elim
  | setLength n =>
    have hlength : n.toInt = (p.items r).length := hw
    have hneg : ¬ n < 0 := by
      rw [Int32.lt_iff_toInt_lt, hlength]
      exact Int.not_lt.2 (Int.natCast_nonneg _)
    have hnat : n.toInt.toNat = (p.items r).length := by omega
    rw [Write.apply, setLength, if_neg hneg, if_pos hnat]

theorem apply_due (hlive : 0 < p.refs r) (hw : w.Due (p.items r).length) :
    ∃ result, w.apply p r = .ok result ∧ p.Written r result.1 result.2 := by
  have hsplit := exclusive_written hlive
  cases w with
  | set index value =>
    have hslot := slot_of_accepted hw.accepted
    rw [Write.apply, Pool.set_of_slot hslot]
    exact ⟨_, rfl, hsplit.replace _ _⟩
  | push value => exact ⟨p.push r value, rfl, hsplit.replace _ _⟩
  | setLength n =>
    have hneg : ¬ n < 0 := by
      intro hneg
      have haccepted := hw.accepted
      rw [Write.refusal, if_pos hneg] at haccepted
      cases haccepted
    have hbusy : n.toInt.toNat ≠ (p.items r).length := by
      intro hnat
      refine hw.busy ?_
      rw [Int32.lt_iff_toInt_lt, Int32.toInt_zero] at hneg
      change n.toInt = _
      omega
    rw [Write.apply, setLength, if_neg hneg, if_neg hbusy]
    refine ⟨_, rfl, ?_⟩
    dsimp only
    split
    · exact hsplit.replace _ _
    · exact hsplit.replace _ _

/-- Every element of a list is retained as often as it occurs in it. -/
theorem read_retainAll (items : List (Ref α)) (p : Pool α σ) (hlive : ∀ q ∈ items, q.place < p.buffers.length)
    (q : Ref α) : (items.foldl retain p).read q = ⟨p.items q, p.refs q + items.count q⟩ := by
  induction items generalizing p with
  | nil => rfl
  | cons a items ih =>
    have hplace := hlive a List.mem_cons_self
    have hlength : (p.retain a).buffers.length = p.buffers.length := List.length_set
    have hrest : ∀ b ∈ items, b.place < (p.retain a).buffers.length := fun b hb => by
      rw [hlength]
      exact hlive b (List.mem_cons_of_mem a hb)
    rw [List.foldl_cons, ih (p.retain a) hrest]
    by_cases hq : q = a
    · subst hq
      have hself : (p.retain q).read q = ⟨p.items q, p.refs q + 1⟩ := read_write_self hplace _
      rw [List.count_cons_self, Pool.items, refs, hself, Nat.add_assoc, Nat.add_comm 1]
    · rw [List.count_cons_of_ne (Ne.symm hq), Pool.items, refs, retain, read_write_ne hq]
      rfl

theorem beneath_retainAll (items : List (Ref α)) (p : Pool α σ) :
    (items.foldl retain p).beneath = p.beneath := by
  induction items generalizing p with
  | nil => rfl
  | cons a items ih => exact ih (p.retain a)

end Operations

end Pool

/-! ## Plain lists -/

section Lists

variable {ι κ : Type} {h k : String}

theorem Plain.afterWrite_ne (m : Plain ι) (written : Except Failure (List ι)) (hk : k ≠ h) :
    (m.afterWrite h written).2 k = m k := by
  cases written with
  | ok v => exact if_neg hk
  | error f => rfl

theorem Plain.run_write_ne [Values ι] (m : Plain ι) (w : Write ι) (hk : k ≠ h) :
    (m.run (w.command h)).2 k = m k := by
  cases w with
  | set index value => exact m.afterWrite_ne _ hk
  | push value => exact if_neg hk
  | setLength n => exact m.afterWrite_ne _ hk

theorem Plain.update_ne (m : Plain ι) (index : Int32) (f : ι → Except Failure ι) (hk : k ≠ h) :
    (m.update h index f).2 k = m k := by
  unfold Plain.update
  split
  · rfl
  · split
    · rfl
    · exact if_neg hk

theorem Plain.updateInner_ne (m : Plain (List κ)) (index : Int32) (f : List κ → Except Failure (List κ))
    (hk : k ≠ h) : (m.updateInner h index f).2 k = m k :=
  m.update_ne index f hk

theorem Plain.run_inner_ne [Values κ] (m : Plain (List κ)) (w : Write κ) (index : Int32) (hk : k ≠ h) :
    (m.runNested (w.inner h index)).2 k = m k := by
  cases w with
  | set position value => exact m.updateInner_ne index _ hk
  | push value => exact m.updateInner_ne index (fun v => .ok (v ++ [value])) hk
  | setLength n => exact m.updateInner_ne index _ hk

theorem Plain.run_share_ne [Values κ] (m : Plain (List κ)) (index source : Int32) (hk : k ≠ h) :
    (m.runNested (.share h index source)).2 k = m k := by
  unfold Plain.runNested
  dsimp only
  split
  · exact m.updateInner_ne index _ hk
  · rfl

end Lists

/-! ## Names -/

namespace Store

section Commands

variable {α σ ι : Type} [Element α σ ι]

theorem run_write (s : Store α σ) (w : Write ι) (h : String) :
    s.run (w.command h) = s.afterWrite h (w.apply s.pool (s.lookup h)) := by
  cases w <;> rfl

theorem access_refused {s : Store α σ} {h : String} {index : Int32} {f : Failure}
    (hget : s.pool.get (s.lookup h) index = .error f) : s.access h index = .error f := by
  rw [access, Pool.slot_of_get_error hget]
  rfl

end Commands

section Stores

variable {α σ ι : Type} [Element α σ ι] [Values ι] [LawfulElement α σ ι]

/--
What a write through the name `h`, which stood for `r`, leaves: `h` alone stands for the buffer that is written to,
and every other name stands for what it did and reads as it did.
-/
structure WritesThrough (s : Store α σ) (h : String) (r : Ref α) (s' : Store α σ) (r' : Ref α) : Prop where
  name : s'.handles.lookup h = some r'
  alone : ∀ k, s'.handles.lookup k = some r' → k = h
  names : ∀ k, k ≠ h → s'.handles.lookup k = s.handles.lookup k
  buffers : s.pool.Written r r' s'.pool
  contents : ∀ k, k ≠ h → s'.plain k = s.plain k

/-- A write to nothing: a shared buffer is split, and a buffer that is not shared is left as it is. -/
structure SplitOff (s : Store α σ) (h : String) (r : Ref α) (s' : Store α σ) (r' : Ref α) : Prop
    extends WritesThrough s h r s' r' where
  items : s'.pool.items r' = s.pool.items r
  lists : s'.plain = s.plain
  unshared : s.pool.refs r = 1 → s' = s

/-- The writes through the name `h` of the reference `r`, and the reads. -/
structure SplitsWhenNeeded (s : Store α σ) (h : String) (r : Ref α) : Prop where
  refused : ∀ (w : Write ι) f, w.refusal (s.pool.items r).length = some f → s.run (w.command h) = (.error f, s)
  idle : ∀ w : Write ι, w.Idle (s.pool.items r).length → s.run (w.command h) = (.ok .done, s)
  due : ∀ w : Write ι, w.Due (s.pool.items r).length →
    ∃ s' r', s.run (w.command h) = (.ok .done, s') ∧ s.WritesThrough h r s' r'
  reads : ∀ index, s.run (.get h index) = ((s.pool.get r index).map .element, s)

variable {s s' : Store α σ} {h : String} {r r' : Ref α} {index : Int32}

theorem refs_pos (hs : s.Valid) (hl : s.handles.lookup h = some r) : 0 < s.pool.refs r := by
  rw [hs.holds.counts.refs]
  exact Multiset.count_pos.2 (mem_refsOf hl)

theorem rebind_self (hs : s.Valid) (hl : s.handles.lookup h = some r) : s.rebind h (r, s.pool) = s := by
  rw [rebind_of_known hl, moved_self hs.nodup hl]

/-- A name is moved to the reference that a write has answered. -/
theorem moved_writesThrough {p : Pool α σ} (hs : s.Valid) (hl : s.handles.lookup h = some r)
    (hw : s.pool.Written r r' p) (hvalid : (⟨p, moved s.handles h r'⟩ : Store α σ).Valid)
    (hlists : ∀ k, k ≠ h → (⟨p, moved s.handles h r'⟩ : Store α σ).plain k = s.plain k) :
    s.WritesThrough h r ⟨p, moved s.handles h r'⟩ r' := by
  have hnames : ∀ k, k ≠ h → (moved s.handles h r').lookup k = s.handles.lookup k := fun k hk => by
    rw [lookup_moved, if_neg hk]
  refine ⟨?_, fun k hk => ?_, hnames, hw, hlists⟩
  · change (moved s.handles h r').lookup h = some r'
    rw [lookup_moved, if_pos rfl, hl]
    rfl
  · -- With one reference to the buffer there is none left for another name.
    have hone : (refsOf (moved s.handles h r')).count r' = 1 := (hvalid.holds.counts.refs r').symm.trans hw.own
    rw [(refsOf_split hs.nodup hl).2, Multiset.count_cons_self] at hone
    by_contra hne
    have hother : (others s.handles h).lookup k = some r' := by
      rw [lookup_others, if_neg hne, ← hnames k hne]
      exact hk
    have hpos := Multiset.count_pos.2 (mem_refsOf hother)
    omega

/-- **Only a write that has something to write gives its name another buffer.** -/
theorem splits_of_valid (hs : s.Valid) (hl : s.handles.lookup h = some r) : s.SplitsWhenNeeded h r := by
  have hlookup := (holds_lookup hs hl).1
  refine ⟨fun w f hw => ?_, fun w hw => ?_, fun w hw => ?_, fun index => ?_⟩
  · rw [run_write, hlookup, Pool.apply_refused hw]
    rfl
  · rw [run_write, hlookup, Pool.apply_idle hw]
    exact congrArg (Prod.mk _) (rebind_self hs hl)
  · obtain ⟨result, happly, hwritten⟩ := Pool.apply_due (refs_pos hs hl) hw
    have hrun : s.run (w.command h) = (.ok .done, ⟨result.2, moved s.handles h result.1⟩) := by
      rw [run_write, hlookup, happly]
      exact congrArg (Prod.mk _) (rebind_of_known hl result)
    obtain ⟨hvalid, hlists, -⟩ := run_spec hs (w.command h)
    rw [hrun] at hvalid hlists
    refine ⟨_, _, hrun, moved_writesThrough hs hl hwritten hvalid fun k hk => ?_⟩
    rw [hlists]
    exact s.plain.run_write_ne w hk
  · rw [run, hlookup]

/-! ## Accesses to elements -/

/-- An access within the bounds splits, and does nothing else. -/
theorem access_splitOff {a : α} (hs : s.Valid) (hl : s.handles.lookup h = some r) (hget : s.pool.get r index = .ok a) :
    ∃ s₁ r₁, s.access h index = .ok (index.toInt.toNat, s₁) ∧ s.Accessed h index index.toInt.toNat s₁ r₁ ∧
      s.SplitOff h r s₁ r₁ ∧ s₁.pool = (s.pool.exclusive r).2 := by
  have hlookup := (holds_lookup hs hl).1
  have hrebind := rebind_of_known hl (s.pool.exclusive r)
  have haccess : s.access h index = .ok (index.toInt.toNat, s.rebind h (s.pool.exclusive r)) := by
    rw [access, hlookup, (Pool.slot_of_get hget).1]
    rfl
  rcases access_spec hs h index with ⟨f, hrefused, -⟩ | ⟨j, s₁, r₁, haccess', ha⟩
  · rw [haccess] at hrefused
    cases hrefused
  · rw [haccess] at haccess'
    cases haccess'
    refine ⟨_, r₁, haccess, ha, ?_, congrArg Store.pool hrebind⟩
    obtain rfl : r₁ = (s.pool.exclusive r).1 := ha.lookup.symm.trans (lookup_rebind hl _)
    have hlists : ∀ k, k ≠ h → (s.rebind h (s.pool.exclusive r)).plain k = s.plain k := fun k _ => congrFun ha.lists k
    have hvalid := ha.valid
    rw [hrebind] at hvalid hlists
    have hthrough := moved_writesThrough hs hl (Pool.exclusive_written (refs_pos hs hl)) hvalid hlists
    rw [← hrebind] at hthrough
    refine ⟨hthrough, ?_, ha.lists, fun hone => ?_⟩
    · rw [ha.items, hlookup]
    · rw [Pool.exclusive, if_pos hone, rebind_self hs hl]

/-- After a split the elements of the own buffer may be exchanged. -/
theorem SplitOff.writesThrough (hsplit : s.SplitOff h r s' r') {items : List α} {b : σ}
    (hlists : ∀ k, k ≠ h → (⟨{ s'.pool.replace r' items with beneath := b }, s'.handles⟩ : Store α σ).plain k =
      s.plain k) :
    s.WritesThrough h r ⟨{ s'.pool.replace r' items with beneath := b }, s'.handles⟩ r' :=
  ⟨hsplit.name, hsplit.alone, hsplit.names, hsplit.buffers.replace items b, hlists⟩

end Stores

end Store

/-! ## Arrays of texts -/

section Texts

/--
The writes through the name `h` of the reference `r`: those to the array, which are those to any other array, and
those to a text in it.
-/
structure TextsSplitWhenNeeded (s : Store Text Unit) (h : String) (r : Ref Text) : Prop where
  general : s.SplitsWhenNeeded h r
  outside : ∀ index f position unit, s.pool.get r index = .error f →
    s.runText (.setChar h index position unit) = (.error f, s)
  inside : ∀ index t, s.pool.get r index = .ok t → ∃ s₁ r₁, s.SplitOff h r s₁ r₁ ∧
    (∀ position unit f, t.setChar position unit = .error f →
      s.runText (.setChar h index position unit) = (.error f, s₁)) ∧
    ∀ position unit u, t.setChar position unit = .ok u →
      ∃ s', s.runText (.setChar h index position unit) = (.ok .done, s') ∧ s.WritesThrough h r s' r₁ ∧
        s'.pool.items r₁ = (s.pool.items r).set index.toInt.toNat u

theorem texts_split_of_valid {s : Store Text Unit} (hs : s.Valid) {h : String} {r : Ref Text}
    (hl : s.handles.lookup h = some r) : TextsSplitWhenNeeded s h r := by
  have hlookup := (Store.holds_lookup hs hl).1
  refine ⟨Store.splits_of_valid hs hl, fun index f position unit hget => ?_, fun index t hget => ?_⟩
  · rw [Store.runText, Store.access_refused (hlookup.symm ▸ hget)]
  · obtain ⟨s₁, r₁, haccess, ha, hsplit, -⟩ := Store.access_splitOff hs hl hget
    have htext : (s₁.pool.items (s₁.lookup h)).getD index.toInt.toNat .empty = t := by
      rw [ha.lookup, hsplit.items, Pool.getD_of_get hget]
    refine ⟨s₁, r₁, hsplit, fun position unit f hchar => ?_, fun position unit u hchar => ?_⟩
    · simp only [Store.runText, haccess, htext, hchar]
    · have hrun : s.runText (.setChar h index position unit) =
          (.ok .done, ⟨{ s₁.pool.replace r₁ ((s.pool.items r).set index.toInt.toNat u) with beneath := () },
            s₁.handles⟩) := by
        simp only [Store.runText, haccess, htext, hchar]
        rw [ha.lookup, ← hsplit.items]
        rfl
      have hlists := (Store.runText_spec hs (.setChar h index position unit)).2.1
      rw [hrun] at hlists
      refine ⟨_, hrun, hsplit.writesThrough fun k hk => ?_, hsplit.buffers.items_replace _ _⟩
      rw [hlists]
      exact s.plain.update_ne index _ hk

end Texts

/-! ## Arrays of arrays -/

namespace Nested

section Runs

variable {β τ κ : Type} [Element β τ κ] {s s₁ : Store (Ref β) (Pool β τ)} {h : String} {index : Int32} {i : Nat}
  {w : Write κ}

theorem run_inner (s : Store (Ref β) (Pool β τ)) (w : Write κ) (h : String) (index : Int32) :
    run s (w.inner h index) = update s h index fun p q => w.apply p q := by
  cases w <;> rfl

/-- What an element refuses is refused after the access to it. -/
theorem run_inner_refused (haccess : s.access h index = .ok (i, s₁)) {f : Failure}
    (hw : w.apply s₁.pool.beneath ((s₁.pool.items (s₁.lookup h)).getD i ⟨s₁.pool.beneath.buffers.length⟩) =
      .error f) : run s (w.inner h index) = (.error f, s₁) := by
  simp only [run_inner, update, haccess, hw]

/-- What an element answers is put into its slot. -/
theorem run_inner_written (haccess : s.access h index = .ok (i, s₁)) {q : Ref β} {p : Pool β τ}
    (hw : w.apply s₁.pool.beneath ((s₁.pool.items (s₁.lookup h)).getD i ⟨s₁.pool.beneath.buffers.length⟩) =
      .ok (q, p)) :
    run s (w.inner h index) = (.ok (.outer .done),
      ⟨{ s₁.pool.replace (s₁.lookup h) ((s₁.pool.items (s₁.lookup h)).set i q) with beneath := p }, s₁.handles⟩) := by
  simp only [run_inner, update, haccess, hw]
  rfl

end Runs

section Elements

variable {β τ κ : Type} [Element β τ κ] [Values κ] [LawfulElement β τ κ]

/--
A split of a buffer of arrays, whose elements are copied: every inner buffer gains one reference for each slot that
holds it, and nothing else happens to it.
-/
structure SplitOff (s : Store (Ref β) (Pool β τ)) (h : String) (r : Ref (Ref β)) (s' : Store (Ref β) (Pool β τ))
    (r' : Ref (Ref β)) : Prop extends Store.SplitOff s h r s' r' where
  copied : 1 < s.pool.refs r → ∀ q, s'.pool.beneath.read q =
    ⟨s.pool.beneath.items q, s.pool.beneath.refs q + (s.pool.items r).count q⟩
  beneath : s'.pool.beneath.beneath = s.pool.beneath.beneath

/-- What a write to the element `q` leaves: its slot alone refers to the inner buffer that is written to. -/
structure WritesElement (s : Store (Ref β) (Pool β τ)) (r : Ref (Ref β)) (i : Nat) (q : Ref β)
    (s' : Store (Ref β) (Pool β τ)) (q' : Ref β) : Prop where
  buffers : s.pool.beneath.Written q q' s'.pool.beneath
  items : s'.pool.items r = (s.pool.items r).set i q'
  alone : s'.pool.slots q' = 1

/-- What is written to the element `q` of the array `h`: the outer buffer is split before the write is looked at. -/
structure ElementSplits (s : Store (Ref β) (Pool β τ)) (h : String) (r : Ref (Ref β)) (index : Int32) (q : Ref β)
    (s₁ : Store (Ref β) (Pool β τ)) (r₁ : Ref (Ref β)) : Prop where
  split : SplitOff s h r s₁ r₁
  refused : ∀ (w : Write κ) f, w.refusal (s.pool.beneath.items q).length = some f →
    run s (w.inner h index) = (.error f, s₁)
  idle : ∀ w : Write κ, w.Idle (s.pool.beneath.items q).length → run s (w.inner h index) = (.ok (.outer .done), s₁)
  due : ∀ w : Write κ, w.Due (s.pool.beneath.items q).length →
    ∃ s' q', run s (w.inner h index) = (.ok (.outer .done), s') ∧ s.WritesThrough h r s' r₁ ∧
      WritesElement s₁ r₁ index.toInt.toNat q s' q'

/--
The writes through the name `h` of the reference `r`: those to the array, which are those to any other array, those
to its elements, and those that let one element share the buffer of another one; and the reads.
-/
structure SplitsWhenNeeded (s : Store (Ref β) (Pool β τ)) (h : String) (r : Ref (Ref β)) : Prop where
  general : s.SplitsWhenNeeded h r
  outside : ∀ (w : Write κ) index f, s.pool.get r index = .error f → run s (w.inner h index) = (.error f, s)
  inside : ∀ index q, s.pool.get r index = .ok q → ∃ s₁ r₁, ElementSplits s h r index q s₁ r₁
  noSource : ∀ index source f, s.pool.get r source = .error f → run s (.share h index source) = (.error f, s)
  noPlace : ∀ index source q f, s.pool.get r source = .ok q → s.pool.get r index = .error f →
    run s (.share h index source) = (.error f, s)
  shared : ∀ index source q old, s.pool.get r source = .ok q → s.pool.get r index = .ok old →
    ∃ s' r', run s (.share h index source) = (.ok (.outer .done), s') ∧ s.WritesThrough h r s' r' ∧
      s'.pool.items r' = (s.pool.items r).set index.toInt.toNat q
  reads : ∀ index position, (run s (.get h index position)).2 = s

variable {s s₁ s' : Store (Ref β) (Pool β τ)} {h : String} {r r₁ : Ref (Ref β)} {q : Ref β} {index : Int32}

theorem SplitOff.items_beneath (hsplit : SplitOff s h r s₁ r₁) (hlive : 0 < s.pool.refs r) (q : Ref β) :
    s₁.pool.beneath.items q = s.pool.beneath.items q := by
  rcases Nat.lt_or_ge 1 (s.pool.refs r) with hshared | hone
  · rw [Pool.items, hsplit.copied hshared q]
  · rw [hsplit.unshared (by omega)]

/-- The elements of a buffer in use are in use beneath. -/
theorem refs_beneath_pos (hs : s.Valid) (hq : q ∈ s.pool.items r) : 0 < s.pool.beneath.refs q := by
  have hbeneath : s.pool.beneath.Holds s.pool.stock := hs.holds.beneath
  rw [hbeneath.counts.refs]
  exact Multiset.count_pos.2 (Pool.mem_stock hq)

theorem access_splitOff (hs : s.Valid) (hl : s.handles.lookup h = some r) (hget : s.pool.get r index = .ok q) :
    ∃ s₁ r₁, s.access h index = .ok (index.toInt.toNat, s₁) ∧ s.Accessed h index index.toInt.toNat s₁ r₁ ∧
      SplitOff s h r s₁ r₁ := by
  obtain ⟨s₁, r₁, haccess, ha, hsplit, hpool⟩ := Store.access_splitOff hs hl hget
  refine ⟨s₁, r₁, haccess, ha, hsplit, fun hshared q => ?_, ?_⟩
  · have hcopied : s₁.pool.beneath = (s.pool.items r).foldl Pool.retain s.pool.beneath := by
      rw [hpool, Pool.exclusive, if_neg (by omega)]
      rfl
    rw [hcopied]
    exact Pool.read_retainAll _ _ (fun a ha => Pool.place_lt (refs_beneath_pos hs ha)) q
  · rw [hpool, Pool.exclusive]
    split
    · rfl
    · exact Pool.beneath_retainAll _ _

theorem element_splits_of_valid (hs : s.Valid) (hl : s.handles.lookup h = some r) (hget : s.pool.get r index = .ok q) :
    ∃ s₁ r₁, ElementSplits s h r index q s₁ r₁ := by
  obtain ⟨s₁, r₁, haccess, ha, hsplit⟩ := access_splitOff hs hl hget
  have hitem : (s₁.pool.items r₁)[index.toInt.toNat]? = some q := by
    rw [hsplit.items]
    exact (Pool.slot_of_get hget).2
  have helement : ∀ default, (s₁.pool.items (s₁.lookup h)).getD index.toInt.toNat default = q := by
    intro default
    rw [ha.lookup, hsplit.items, Pool.getD_of_get hget]
  have hlength : (s₁.pool.beneath.items q).length = (s.pool.beneath.items q).length := by
    rw [hsplit.items_beneath (Store.refs_pos hs hl)]
  refine ⟨s₁, r₁, hsplit, fun w f hw => ?_, fun w hw => ?_, fun w hw => ?_⟩
  · refine run_inner_refused haccess ?_
    rw [helement, Pool.apply_refused (hlength ▸ hw)]
  · -- The element is put back where it was.
    have hset : (s₁.pool.items r₁).set index.toInt.toNat q = s₁.pool.items r₁ := by
      obtain ⟨hi, rfl⟩ := List.getElem?_eq_some_iff.1 hitem
      exact List.set_getElem_self hi
    have hback : s₁.pool.replace r₁ (s₁.pool.items r₁) = s₁.pool := Pool.write_read hsplit.buffers.place_lt
    have happly := Pool.apply_idle (p := s₁.pool.beneath) (hlength ▸ hw)
    rw [← helement ⟨s₁.pool.beneath.buffers.length⟩] at happly
    have hrun := run_inner_written haccess happly
    rw [helement, ha.lookup, hset, hback] at hrun
    exact hrun
  · have hlive := refs_beneath_pos ha.valid (List.mem_of_getElem? hitem)
    obtain ⟨⟨q', p⟩, happly, hwritten⟩ := Pool.apply_due hlive (hlength ▸ hw)
    rw [← helement ⟨s₁.pool.beneath.buffers.length⟩] at happly
    have hrun := run_inner_written haccess happly
    rw [ha.lookup] at hrun
    obtain ⟨hvalid, hlists, -⟩ := run_spec hs (w.inner h index)
    rw [hrun] at hvalid hlists
    refine ⟨_, q', hrun, hsplit.writesThrough fun k hk => ?_, hwritten, hsplit.buffers.items_replace _ _, ?_⟩
    · rw [hlists]
      exact s.plain.run_inner_ne w index hk
    · rw [← (exact_of_valid hvalid).inner q']
      exact hwritten.own

/-- **A write to an element splits its array first**, and the inner buffer only if there is something to write. -/
theorem splits_of_valid (hs : s.Valid) (hl : s.handles.lookup h = some r) : SplitsWhenNeeded s h r := by
  have hlookup := (Store.holds_lookup hs hl).1
  have hrefused : ∀ index f, s.pool.get r index = .error f → s.access h index = .error f := fun index f hget =>
    Store.access_refused (hlookup.symm ▸ hget)
  refine ⟨Store.splits_of_valid hs hl, fun w index f hget => ?_, fun index q hget => element_splits_of_valid hs hl hget,
    fun index source f hget => ?_, fun index source q f hsource hget => ?_, fun index source q old hsource hget => ?_,
    fun index position => rfl⟩
  · rw [run_inner, update, hrefused index f hget]
  · rw [run, share, hlookup, hget]
  · rw [run, share, hlookup, hsource]
    dsimp only
    rw [hrefused index f hget]
  · obtain ⟨s₁, r₁, haccess, ha, hsplit⟩ := access_splitOff hs hl hget
    have hrun : ∃ p, run s (.share h index source) = (.ok (.outer .done),
        ⟨{ s₁.pool.replace r₁ ((s.pool.items r).set index.toInt.toNat q) with beneath := p }, s₁.handles⟩) := by
      rw [run, share, hlookup, hsource]
      dsimp only
      rw [haccess, ← hsplit.items]
      dsimp only
      rw [ha.lookup]
      exact ⟨_, rfl⟩
    obtain ⟨p, hrun⟩ := hrun
    have hlists := (run_spec hs (.share h index source)).2.1
    rw [hrun] at hlists
    refine ⟨_, _, hrun, hsplit.writesThrough fun k hk => ?_, hsplit.buffers.items_replace _ _⟩
    rw [hlists]
    exact s.plain.run_share_ne index source hk

end Elements

end Nested

/-! ## Histories -/

section Histories

variable {α σ ι : Type} [Element α σ ι] [Values ι] [LawfulElement α σ ι]

theorem splits_after (history : List (Command ι)) {h : String} {r : Ref α}
    (hl : (after Store.run (Store.empty : Store α σ) history).handles.lookup h = some r) :
    (after Store.run (Store.empty : Store α σ) history).SplitsWhenNeeded h r :=
  Store.splits_of_valid
    (invariant_after Store.Valid (fun _ c hs => (Store.run_spec hs c).1) Store.valid_empty history) hl

/--
**Splits happen exactly when needed.** After every history of commands a write through a name that is refused, or
that is a resize to the present length, leaves the whole store as it is; every other one leaves the name with a
buffer of its own, takes one reference from the buffer that it shared, and touches no other name. A write to an
element of an array of texts or of arrays splits that array as soon as the element exists, before the element
sees its own operation; the split of an array of arrays gives every inner buffer one reference more for each slot
that holds it. Reading splits nothing.
-/
theorem splits_when_needed :
    (∀ history h r, (after Store.run (Store.empty : Store Int32 Unit) history).handles.lookup h = some r →
      (after Store.run (Store.empty : Store Int32 Unit) history).SplitsWhenNeeded h r) ∧
    (∀ history h r, (after Store.run (Store.empty : Store Binary64 Unit) history).handles.lookup h = some r →
      (after Store.run (Store.empty : Store Binary64 Unit) history).SplitsWhenNeeded h r) ∧
    (∀ history h r, (after Store.runText Store.empty history).handles.lookup h = some r →
      TextsSplitWhenNeeded (after Store.runText Store.empty history) h r) ∧
    ∀ history h r,
      (after Nested.run (Store.empty : Store (Ref Int32) (Pool Int32 Unit)) history).handles.lookup h = some r →
        Nested.SplitsWhenNeeded (after Nested.run (Store.empty : Store (Ref Int32) (Pool Int32 Unit)) history) h r := by
  refine ⟨fun history _ _ hl => splits_after history hl, fun history _ _ hl => splits_after history hl,
    fun history h r hl => texts_split_of_valid ?_ hl, fun history h r hl => Nested.splits_of_valid ?_ hl⟩
  · exact invariant_after Store.Valid (fun _ c hs => (Store.runText_spec hs c).1) Store.valid_empty history
  · exact invariant_after Store.Valid (fun _ c hs => (Nested.run_spec hs c).1) Store.valid_empty history

/-- An array is assigned and written to: with need, without need, and at a place that its element does not have. -/
theorem splits_when_needed_assigned :
    (∃ s' r', (after Store.run (Store.empty : Store Int32 Unit) [.create "a", .assign "b" "a"]).run (.push "b" 9) =
        (.ok .done, s') ∧
      (after Store.run (Store.empty : Store Int32 Unit) [.create "a", .assign "b" "a"]).WritesThrough "b" ⟨0⟩ s' r') ∧
    (after Store.run (Store.empty : Store Binary64 Unit) [.create "a", .assign "b" "a"]).run (.setLength "b" 0) =
      (.ok .done, after Store.run (Store.empty : Store Binary64 Unit) [.create "a", .assign "b" "a"]) ∧
    (∃ s₁ r₁,
      (after Store.runText Store.empty
        [.general (.ofList "a" [.empty]), .general (.assign "b" "a")]).SplitOff "b" ⟨0⟩ s₁ r₁ ∧
      (after Store.runText Store.empty
        [.general (.ofList "a" [.empty]), .general (.assign "b" "a")]).runText (.setChar "b" 0 0 65) =
          (.error (.indexOutOfRange "String" 0 0), s₁)) ∧
    ∃ s₁ r₁,
      Nested.SplitOff (after Nested.run (Store.empty : Store (Ref Int32) (Pool Int32 Unit))
        [.general (.ofList "a" [[7], [8]]), .general (.assign "b" "a")]) "b" ⟨0⟩ s₁ r₁ ∧
      Nested.run (after Nested.run (Store.empty : Store (Ref Int32) (Pool Int32 Unit))
        [.general (.ofList "a" [[7], [8]]), .general (.assign "b" "a")]) (.set "b" 1 5 9) =
          (.error (.indexOutOfRange "DynArray" 5 1), s₁) := by
  obtain ⟨hwords, hfloats, htexts, harrays⟩ := splits_when_needed
  refine ⟨?_, ?_, ?_, ?_⟩
  · exact (hwords [.create "a", .assign "b" "a"] "b" ⟨0⟩ rfl).due (.push 9) ⟨rfl, id⟩
  · exact (hfloats [.create "a", .assign "b" "a"] "b" ⟨0⟩ rfl).idle (.setLength 0) rfl
  · have hsplits := htexts [.general (.ofList "a" [.empty]), .general (.assign "b" "a")] "b" ⟨0⟩ rfl
    obtain ⟨s₁, r₁, hsplit, hrefused, -⟩ := hsplits.inside 0 .empty rfl
    exact ⟨s₁, r₁, hsplit, hrefused 0 65 _ rfl⟩
  · have hsplits := harrays [.general (.ofList "a" [[7], [8]]), .general (.assign "b" "a")] "b" ⟨0⟩ rfl
    obtain ⟨s₁, r₁, hinside⟩ := hsplits.inside 1 ⟨1⟩ rfl
    exact ⟨s₁, r₁, hinside.split, hinside.refused (.set 5 9) _ rfl⟩

/-- An inner buffer that fills two slots gains two references, and not one. -/
theorem split_counts_slots :
    ¬ ∀ (history : List (NestedCommand Int32)) (h : String) (r : Ref (Ref Int32)) (index position value : Int32)
      (a q : Ref Int32) (f : Failure),
      let s := after Nested.run (Store.empty : Store (Ref Int32) (Pool Int32 Unit)) history
      s.handles.lookup h = some r → 1 < s.pool.refs r → s.pool.get r index = .ok a → q ∈ s.pool.items r →
        (Nested.run s (.set h index position value)).1 = .error f →
          (Nested.run s (.set h index position value)).2.pool.beneath.refs q = s.pool.beneath.refs q + 1 := by
  intro hone
  have hcount := hone [.general (.create "a"), .general (.setLength "a" 2), .general (.assign "b" "a")]
    "b" ⟨0⟩ 0 5 9 ⟨0⟩ ⟨0⟩ (.indexOutOfRange "DynArray" 5 0) rfl (by decide) rfl List.mem_cons_self rfl
  exact absurd hcount (by decide)

end Histories

end ManagedRuntime.SharedArray
