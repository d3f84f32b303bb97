import Mathlib.Data.List.TFAE
import Mathlib.Tactic.TFAE
import ManagedRuntime.Proofs.FiniteSet.Algebra

/-!
# Sets ordered by inclusion

* `isSubset_iff` : the test for a subset, which compares sizes first, is inclusion;
* `Compares` : what an answer tells about two finite sets; `compares_compare?` : the comparison of sets answers so;
* `le_iff`, `lt_iff`, `ge_iff`, `gt_iff` : the comparisons that are made from it;
* `le_tfae` : the comparisons and the operators that say the same as inclusion;
* `ordered_by_inclusion` : the answers of comparisons, and the laws of the order.
-/

namespace ManagedRuntime.FiniteSet

set_option autoImplicit false

variable {α : Type}

/-- What an answer tells about the sets that were compared. -/
structure Compares (s t : Finset α) (answer : Option Ordering) : Prop where
  equal : answer = some .eq ↔ s = t
  less : answer = some .lt ↔ s ⊂ t
  greater : answer = some .gt ↔ t ⊂ s
  unordered : answer = none ↔ ¬ s ⊆ t ∧ ¬ t ⊆ s

variable [DecidableEq α] (s t : FiniteSet α)

/-! ## Comparisons -/

/-- A subset has no more members, so the comparison of sizes refuses none. -/
theorem isSubset_iff : s.isSubset t = true ↔ s.toFinset ⊆ t.toFinset := by
  have hparts : s.isSubset t = true ↔ s.toFinset.card ≤ t.toFinset.card ∧ s.toFinset ⊆ t.toFinset := by
    simp [isSubset, card_toFinset, Finset.subset_iff]
  rw [hparts, and_iff_right_iff_imp]
  exact Finset.card_le_card

theorem isSuperset_iff : s.isSuperset t = true ↔ t.toFinset ⊆ s.toFinset := isSubset_iff t s

/-- Both inclusions together decide the answer. -/
theorem compares_compare? : Compares s.toFinset t.toFinset (s.compare? t) := by
  have hless := isSubset_iff s t
  have hgreater := isSuperset_iff s t
  unfold compare?
  constructor
  · rw [Finset.Subset.antisymm_iff, ← hless, ← hgreater]
    cases s.isSubset t <;> cases s.isSuperset t <;> simp
  · rw [Finset.ssubset_def, ← hless, ← hgreater]
    cases s.isSubset t <;> cases s.isSuperset t <;> simp
  · rw [Finset.ssubset_def, ← hless, ← hgreater]
    cases s.isSubset t <;> cases s.isSuperset t <;> simp
  · rw [← hless, ← hgreater]
    cases s.isSubset t <;> cases s.isSuperset t <;> simp

theorem le_iff : s.le t = true ↔ s.toFinset ⊆ t.toFinset := by
  have h := compares_compare? s t
  unfold le
  rw [decide_eq_true_iff, h.less, h.equal]
  exact le_iff_lt_or_eq.symm

theorem lt_iff : s.lt t = true ↔ s.toFinset ⊂ t.toFinset := by
  unfold lt
  rw [decide_eq_true_iff, (compares_compare? s t).less]

theorem ge_iff : s.ge t = true ↔ t.toFinset ⊆ s.toFinset := by
  have h := compares_compare? s t
  unfold ge
  rw [decide_eq_true_iff, h.greater, h.equal, eq_comm]
  exact le_iff_lt_or_eq.symm

theorem gt_iff : s.gt t = true ↔ t.toFinset ⊂ s.toFinset := by
  unfold gt
  rw [decide_eq_true_iff, (compares_compare? s t).greater]

/-- Of sets that are not ordered, every comparison is false. -/
theorem comparisons_of_none (h : s.compare? t = none) :
    s.lt t = false ∧ s.le t = false ∧ s.gt t = false ∧ s.ge t = false := by
  simp [lt, le, gt, ge, h]

/-! ## Inclusion -/

/-- The comparisons and operators that say that a set includes another; the flag tells the form of the operators. -/
theorem le_tfae (p : Bool) : [s.toFinset ⊆ t.toFinset, s.le t = true, s.isSubset t = true, t.ge s = true,
    t.isSuperset s = true, (Combination.union.apply p s t).same t = true, (Combination.inter.apply p s t).same s = true,
    (Combination.diff.apply p s t).isEmpty = true].TFAE := by
  tfae_have 1 ↔ 2 := (le_iff s t).symm
  tfae_have 1 ↔ 3 := (isSubset_iff s t).symm
  tfae_have 1 ↔ 4 := (ge_iff t s).symm
  tfae_have 1 ↔ 5 := (isSuperset_iff t s).symm
  tfae_have 1 ↔ 6 := by
    rw [same_iff, toFinset_apply]
    exact Finset.union_eq_right.symm
  tfae_have 1 ↔ 7 := by
    rw [same_iff, toFinset_apply]
    exact Finset.inter_eq_left.symm
  tfae_have 1 ↔ 8 := by
    rw [isEmpty_eq_decide, decide_eq_true_iff, toFinset_apply]
    exact Finset.sdiff_eq_empty_iff_subset.symm
  tfae_finish

/--
**Sets are ordered by inclusion.** All comparisons and operators that can tell an inclusion agree, whatever the order
in which the members have come into the sets. Two sets compare as equal exactly if they are the same, as less or greater
if one is a proper subset of the other, and not at all if neither includes the other. This order is reflexive,
antisymmetric and transitive.
-/
theorem ordered_by_inclusion :
    (∀ (p : Bool) (s t : FiniteSet α), [s.toFinset ⊆ t.toFinset, s.le t = true, s.isSubset t = true, t.ge s = true,
      t.isSuperset s = true, (Combination.union.apply p s t).same t = true,
      (Combination.inter.apply p s t).same s = true, (Combination.diff.apply p s t).isEmpty = true].TFAE) ∧
    (∀ s t : FiniteSet α, (s.same t = true ↔ s.toFinset = t.toFinset) ∧
      Compares s.toFinset t.toFinset (s.compare? t) ∧
      (s.lt t = true ↔ s.toFinset ⊂ t.toFinset) ∧ (s.gt t = true ↔ t.toFinset ⊂ s.toFinset) ∧
      (s.compare? t = none → s.lt t = false ∧ s.le t = false ∧ s.gt t = false ∧ s.ge t = false)) ∧
    (∀ s : FiniteSet α, s.le s = true) ∧
    (∀ s t : FiniteSet α, s.le t = true → t.le s = true → s.same t = true) ∧
    ∀ s t u : FiniteSet α, s.le t = true → t.le u = true → s.le u = true := by
  refine ⟨fun p s t => le_tfae s t p, ?_, ?_, ?_, ?_⟩
  · intro s t
    exact ⟨same_iff s t, compares_compare? s t, lt_iff s t, gt_iff s t, comparisons_of_none s t⟩
  · intro s
    exact (le_iff s s).2 (Finset.Subset.refl _)
  · intro s t hst hts
    rw [le_iff] at hst hts
    rw [same_iff]
    exact Finset.Subset.antisymm hst hts
  · intro s t u hst htu
    rw [le_iff] at hst htu ⊢
    exact Finset.Subset.trans hst htu

/-- Two sets with the same members in another order, a larger set, and one that is not ordered with it. -/
theorem ordered_by_inclusion_histories :
    (ofList [1, 2] : FiniteSet Nat).le (ofList [2, 1, 2]) = true ∧
    (ofList [2, 1, 2] : FiniteSet Nat).le (ofList [1, 2]) = true ∧
    (ofList [1, 2] : FiniteSet Nat).same (ofList [2, 1, 2]) = true ∧
    (ofList [2, 1, 2] : FiniteSet Nat).le (ofList [3, 2, 1]) = true ∧
    (ofList [1, 2] : FiniteSet Nat).le (ofList [3, 2, 1]) = true ∧
    (ofList [1, 2, 3] : FiniteSet Nat).compare? (ofList [2, 1, 4]) = none ∧
    (ofList [1, 2, 3] : FiniteSet Nat).ge (ofList [2, 1, 4]) = false := by
  obtain ⟨-, hcompare, -, hantisymm, htrans⟩ := ordered_by_inclusion (α := Nat)
  obtain ⟨-, -, -, -, hnone⟩ := hcompare (ofList [1, 2, 3]) (ofList [2, 1, 4])
  exact ⟨by decide, by decide, hantisymm _ _ (by decide) (by decide), by decide,
    htrans _ (ofList [2, 1, 2]) _ (by decide) (by decide), by decide, (hnone (by decide)).2.2.2⟩

end ManagedRuntime.FiniteSet
