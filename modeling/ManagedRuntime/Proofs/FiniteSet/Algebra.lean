import Mathlib.Data.Finset.Card
import Mathlib.Data.Finset.Dedup
import Mathlib.Data.Finset.SDiff
import ManagedRuntime.FiniteSet.Register
import ManagedRuntime.Proofs.SharedArray.Refinement

/-!
# Named sets and finite sets

Named sets are the finite sets that the same commands compute, whatever has happened before.

* `FiniteSet.toFinset` : the members of a set; every operation does to them what its name says.
* `same_iff` : sets are the same if they have the same members.
* `Finsets.run` : the commands on finite sets under names, as far as they are about members.
* `sets_mirror_finsets` : the refinement, and the laws of the operators in every form.
-/

namespace ManagedRuntime.FiniteSet

set_option autoImplicit false

variable {α : Type}

/-! ## Members -/

/-- The members of a set. -/
def toFinset (s : FiniteSet α) : Finset α := ⟨s.elements, s.nodup⟩

@[simp]
theorem mem_toFinset (s : FiniteSet α) (a : α) : a ∈ s.toFinset ↔ a ∈ s.elements := Iff.rfl

theorem card_toFinset (s : FiniteSet α) : s.toFinset.card = s.elements.length := rfl

theorem toInt_size (s : FiniteSet α) : s.size.toInt = min s.toFinset.card Word.largest :=
  Word.toInt_saturate _

theorem toFinset_filter (s : FiniteSet α) (p : α → Bool) : (s.filter p).toFinset = s.toFinset.filter fun a => p a := by
  ext a
  simp [filter]

theorem toFinset_empty : (empty : FiniteSet α).toFinset = ∅ := rfl

variable [DecidableEq α]

@[simp]
theorem contains_eq_decide (s : FiniteSet α) (a : α) : s.contains a = decide (a ∈ s.toFinset) := by
  simp [contains]

theorem isEmpty_eq_decide (s : FiniteSet α) : s.isEmpty = decide (s.toFinset = ∅) := by
  rw [Bool.eq_iff_iff, decide_eq_true_iff, ← Finset.card_eq_zero, card_toFinset, List.length_eq_zero_iff]
  exact List.isEmpty_iff

theorem toFinset_insert (s : FiniteSet α) (a : α) : (s.insert a).toFinset = Insert.insert a s.toFinset := by
  ext b
  unfold insert
  split
  next h =>
    rw [Finset.mem_insert, mem_toFinset]
    constructor
    · exact .inr
    · rintro (rfl | hb)
      · exact h
      · exact hb
  next h => simp

theorem toFinset_erase (s : FiniteSet α) (a : α) : (s.erase a).toFinset = s.toFinset.erase a := by
  ext b
  simp [erase, toFinset_filter, and_comm]

theorem toFinset_insertAll (s : FiniteSet α) (members : List α) :
    (s.insertAll members).toFinset = s.toFinset ∪ members.toFinset := by
  unfold insertAll
  induction members generalizing s with
  | nil => simp
  | cons a rest ih =>
    rw [List.foldl_cons, ih, toFinset_insert, List.toFinset_cons, Finset.insert_union, Finset.union_insert]

theorem toFinset_ofList (members : List α) : (ofList members).toFinset = members.toFinset := by
  rw [ofList, toFinset_insertAll, toFinset_empty, Finset.empty_union]

theorem toFinset_elements (s : FiniteSet α) : s.elements.toFinset = s.toFinset := by
  ext a
  simp

/-! ## Operators -/

/-- The finite set that a combination makes of two. -/
def Combination.ofFinsets : Combination → Finset α → Finset α → Finset α
  | .union, s, t => s ∪ t
  | .diff, s, t => s \ t
  | .inter, s, t => s ∩ t

/-- A combination in either form: as a new set, or by changing the first one. -/
def Combination.apply (c : Combination) (changing : Bool) : FiniteSet α → FiniteSet α → FiniteSet α :=
  if changing then c.change else c.make

theorem toFinset_make (c : Combination) (s t : FiniteSet α) :
    (c.make s t).toFinset = c.ofFinsets s.toFinset t.toFinset := by
  cases c with
  | union =>
    show (ofList _).toFinset = s.toFinset ∪ t.toFinset
    rw [toFinset_ofList]
    ext a
    by_cases ha : a ∈ s.elements <;> simp [ha]
  | diff =>
    show (ofList _).toFinset = s.toFinset \ t.toFinset
    rw [toFinset_ofList]
    ext a
    simp
  | inter =>
    show (ofList _).toFinset = s.toFinset ∩ t.toFinset
    rw [toFinset_ofList]
    ext a
    simp

theorem toFinset_change (c : Combination) (s t : FiniteSet α) :
    (c.change s t).toFinset = c.ofFinsets s.toFinset t.toFinset := by
  cases c with
  | union =>
    show (s.insertAll t.elements).toFinset = s.toFinset ∪ t.toFinset
    rw [toFinset_insertAll, toFinset_elements]
  | diff =>
    show (s.filter _).toFinset = s.toFinset \ t.toFinset
    ext a
    simp [toFinset_filter]
  | inter =>
    show (s.filter _).toFinset = s.toFinset ∩ t.toFinset
    ext a
    simp [toFinset_filter]

theorem toFinset_apply (c : Combination) (changing : Bool) (s t : FiniteSet α) :
    (c.apply changing s t).toFinset = c.ofFinsets s.toFinset t.toFinset := by
  unfold Combination.apply
  split
  · exact toFinset_change c s t
  · exact toFinset_make c s t

/-- Sets are the same exactly if they have the same members. -/
theorem same_iff (s t : FiniteSet α) : s.same t = true ↔ s.toFinset = t.toFinset := by
  have hsame : s.same t = true ↔ s.toFinset.card = t.toFinset.card ∧ s.toFinset ⊆ t.toFinset := by
    simp [same, card_toFinset, Finset.subset_iff]
  rw [hsame]
  constructor
  · rintro ⟨hcard, hsub⟩
    exact Finset.eq_of_subset_of_card_le hsub (Nat.le_of_eq hcard.symm)
  · intro h
    exact ⟨congrArg Finset.card h, Finset.subset_of_eq h⟩

/-! ## Named finite sets -/

/-- What an answer says about members. -/
inductive Answer (α : Type) where
  | members (s : Finset α)
  | truth (b : Bool)
  | word (w : Int32)
  | other

/-- Finite sets under names. -/
abbrev Finsets (α : Type) := String → Finset α

namespace Finsets

def write (m : Finsets α) (name : String) (s : Finset α) : Finsets α := fun k => if k = name then s else m k

def writing (m : Finsets α) (name : String) (s : Finset α) : Answer α × Finsets α := (.members s, m.write name s)

/-- Texts and comparisons of sets are left open. -/
def run (m : Finsets α) : Command α → Answer α × Finsets α
  | .create name => m.writing name ∅
  | .ofList name members => m.writing name members.toFinset
  | .assign name source => m.writing name (m source)
  | .combine c name a b | .combineChanging c name a b => m.writing name (c.ofFinsets (m a) (m b))
  | .insert name a => m.writing name (Insert.insert a (m name))
  | .erase name a => m.writing name ((m name).erase a)
  | .insertAll name members => m.writing name (m name ∪ members.toFinset)
  | .contains name a => (.truth (a ∈ m name), m)
  | .size name => (.word (Word.saturate (m name).card), m)
  | .isEmpty name => (.truth (m name = ∅), m)
  | .describe _ | .compare .. | .order .. => (.other, m)

end Finsets

namespace Registers

omit [DecidableEq α] in
theorem read_write (rs : Registers α) (name : String) (s : FiniteSet α) (k : String) :
    (rs.write name s).read k = if k = name then s else rs.read k := by
  unfold read write
  split
  next hk => rw [hk, List.lookup_cons_self, Option.getD_some]
  next hk => rw [lookup_cons_ite, if_neg hk, lookup_filter_ne, if_neg hk]

/-- The members of all sets. -/
def finsets (rs : Registers α) : Finsets α := fun name => (rs.read name).toFinset

omit [DecidableEq α] in
theorem finsets_write (rs : Registers α) (name : String) (s : FiniteSet α) :
    (rs.write name s).finsets = rs.finsets.write name s.toFinset := by
  funext k
  rw [finsets, read_write, Finsets.write]
  split <;> rfl

end Registers

/-- What an answer says about members. -/
def Reply.answer : Reply α → Answer α
  | .members s => .members s.toFinset
  | .truth b => .truth b
  | .word w => .word w
  | .ordering _ | .characters _ => .other

namespace Command

/-- The commands that are about members, and not about texts or comparisons. -/
def AsksMembers : Command α → Prop
  | .describe _ | .compare .. | .order .. => False
  | _ => True

/-- The name whose set a command writes. -/
def target? : Command α → Option String
  | .create name | .ofList name _ | .assign name _ | .combine _ name .. | .combineChanging _ name .. | .insert name _
  | .erase name _ | .insertAll name _ => some name
  | .contains .. | .size _ | .isEmpty _ | .describe _ | .compare .. | .order .. => none

variable (member : α → List Char)

omit [DecidableEq α] in
theorem writing_agrees (rs : Registers α) (name : String) {s : FiniteSet α} {t : Finset α} (h : s.toFinset = t) :
    (writing rs name s).2.finsets = (rs.finsets.writing name t).2 ∧
      (writing rs name s).1.answer = (rs.finsets.writing name t).1 := by
  subst h
  exact ⟨Registers.finsets_write rs name s, rfl⟩

/-- **Every command does to the sets what it does to finite sets.** -/
theorem run_agrees (rs : Registers α) (command : Command α) :
    (run member rs command).2.finsets = (Finsets.run rs.finsets command).2 ∧
      (command.AsksMembers → (run member rs command).1.answer = (Finsets.run rs.finsets command).1) := by
  cases command with
  | create name => exact (writing_agrees rs name toFinset_empty).imp_right fun h _ => h
  | ofList name members => exact (writing_agrees rs name (toFinset_ofList members)).imp_right fun h _ => h
  | assign name source => exact (writing_agrees rs name rfl).imp_right fun h _ => h
  | combine c name a b => exact (writing_agrees rs name (toFinset_make c _ _)).imp_right fun h _ => h
  | combineChanging c name a b => exact (writing_agrees rs name (toFinset_change c _ _)).imp_right fun h _ => h
  | insert name a => exact (writing_agrees rs name (toFinset_insert _ a)).imp_right fun h _ => h
  | erase name a => exact (writing_agrees rs name (toFinset_erase _ a)).imp_right fun h _ => h
  | insertAll name members => exact (writing_agrees rs name (toFinset_insertAll _ members)).imp_right fun h _ => h
  | contains name a =>
    refine ⟨rfl, fun _ => ?_⟩
    show Answer.truth ((rs.read name).contains a) = _
    rw [contains_eq_decide]
    rfl
  | size name => exact ⟨rfl, fun _ => rfl⟩
  | isEmpty name =>
    refine ⟨rfl, fun _ => ?_⟩
    show Answer.truth (rs.read name).isEmpty = _
    rw [isEmpty_eq_decide]
    rfl
  | describe | compare | order => exact ⟨rfl, False.elim⟩

omit [DecidableEq α] in
theorem read_writing_of_ne (rs : Registers α) {target name : String} (h : some target ≠ some name)
    (s : FiniteSet α) : (writing rs target s).2.read name = rs.read name := by
  show (rs.write target s).read name = _
  rw [Registers.read_write, if_neg fun heq => h (by rw [heq])]

/-- A command changes no set but the one that it writes. -/
theorem read_run_of_ne (rs : Registers α) (command : Command α) {name : String} (h : command.target? ≠ some name) :
    (run member rs command).2.read name = rs.read name := by
  cases command with
  | create | ofList | assign | combine | combineChanging | insert | erase | insertAll =>
    exact read_writing_of_ne rs h _
  | contains | size | isEmpty | describe | compare | order => rfl

end Command

/-! ## The laws -/

/-- Where the union is small enough for a word to count it, sizes add up. -/
theorem size_union_add_size_inter (p q : Bool) (s t : FiniteSet α)
    (h : (s.toFinset ∪ t.toFinset).card ≤ Word.largest) :
    (Combination.union.apply p s t).size.toInt + (Combination.inter.apply q s t).size.toInt =
      s.size.toInt + t.size.toInt := by
  simp only [toInt_size, toFinset_apply, Combination.ofFinsets]
  have hcard := Finset.card_union_add_card_inter s.toFinset t.toFinset
  have hs : s.toFinset.card ≤ (s.toFinset ∪ t.toFinset).card := Finset.card_le_card Finset.subset_union_left
  have ht : t.toFinset.card ≤ (s.toFinset ∪ t.toFinset).card := Finset.card_le_card Finset.subset_union_right
  omega

/-- A set is the union of what it does not share with another and of what it shares. -/
theorem union_diff_inter (p q r : Bool) (s t : FiniteSet α) :
    (Combination.union.apply p (Combination.diff.apply q s t) (Combination.inter.apply r s t)).same s = true := by
  rw [same_iff]
  simp only [toFinset_apply, Combination.ofFinsets]
  exact Finset.sdiff_union_inter s.toFinset t.toFinset

theorem disjoint_diff (p : Bool) (s t : FiniteSet α) :
    Disjoint (Combination.diff.apply p s t).toFinset t.toFinset := by
  rw [toFinset_apply]
  exact Finset.sdiff_disjoint

open SharedArray (Mirrors mirrors_of_step)

theorem registers_mirror (member : α → List Char) :
    Mirrors (Command.run member) ([] : Registers α) Finsets.run (Registers.finsets []) Registers.finsets
      (fun _ reply => reply.answer) Command.AsksMembers :=
  mirrors_of_step (fun _ => True) (fun rs command _ => ⟨trivial, Command.run_agrees member rs command⟩) trivial

/--
**Named sets mirror finite sets** after every history of commands. The operators obey the laws of finite sets in either
form: the flags tell whether an operator changes its first operand.
-/
theorem sets_mirror_finsets (member : α → List Char) :
    Mirrors (Command.run member) ([] : Registers α) Finsets.run (fun _ => ∅) Registers.finsets
      (fun _ reply => reply.answer) Command.AsksMembers ∧
    (∀ (rs : Registers α) (command : Command α) (name : String), command.target? ≠ some name →
      (command.run member rs).2.read name = rs.read name) ∧
    (∀ s : FiniteSet α, s.elements.Nodup ∧ s.size.toInt = min s.toFinset.card 2147483647) ∧
    (∀ (c : Combination) (s t : FiniteSet α), (c.make s t).same (c.change s t) = true) ∧
    (∀ (p q : Bool) (s t : FiniteSet α), (s.toFinset ∪ t.toFinset).card < 2147483648 →
      (Combination.union.apply p s t).size.toInt + (Combination.inter.apply q s t).size.toInt =
        s.size.toInt + t.size.toInt) ∧
    (∀ (p q r : Bool) (s t : FiniteSet α),
      (Combination.union.apply p (Combination.diff.apply q s t) (Combination.inter.apply r s t)).same s = true) ∧
    ∀ (p : Bool) (s t : FiniteSet α), Disjoint (Combination.diff.apply p s t).toFinset t.toFinset := by
  refine ⟨registers_mirror member, fun rs command _ h => Command.read_run_of_ne member rs command h,
    fun s => ⟨s.nodup, toInt_size s⟩, fun c s t => ?_,
    fun p q s t h => size_union_add_size_inter p q s t (Nat.le_of_lt_succ h), union_diff_inter, disjoint_diff⟩
  rw [same_iff, toFinset_make, toFinset_change]

end ManagedRuntime.FiniteSet
