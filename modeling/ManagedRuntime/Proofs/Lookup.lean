/-!
# Lists with names

* `lookup_cons_ite`, `lookup_filter_ne` : what a name stands for after a list has changed;
* `lookup_eq_none_iff`, `lookup_append_eq_none` : names that stand for nothing;
* `mem_iff_lookup` : in a list without a name that stands twice, what a name stands for wherever it is.
-/

namespace ManagedRuntime

set_option autoImplicit false

variable {β : Type}

theorem lookup_cons_ite (name k : String) (b : β) (rest : List (String × β)) :
    ((name, b) :: rest).lookup k = if k = name then some b else rest.lookup k := by
  by_cases hk : k = name
  · rw [if_pos hk, hk, List.lookup_cons_self]
  · rw [if_neg hk, List.lookup_cons, beq_false_of_ne hk]

theorem lookup_filter_ne (entries : List (String × β)) (name k : String) :
    (entries.filter (·.1 ≠ name)).lookup k = if k = name then none else entries.lookup k := by
  induction entries with
  | nil => exact (ite_self none).symm
  | cons entry rest ih =>
    obtain ⟨other, b⟩ := entry
    by_cases ho : other = name
    · rw [List.filter_cons_of_neg (by simp [ho]), ih, lookup_cons_ite, ho]
      split <;> rfl
    · rw [List.filter_cons_of_pos (by simp [ho]), lookup_cons_ite, lookup_cons_ite, ih]
      by_cases hk : k = name
      · rw [if_pos hk, if_pos hk, if_neg (by rw [hk]; exact Ne.symm ho)]
      · rw [if_neg hk, if_neg hk]

theorem lookup_eq_none_iff {entries : List (String × β)} {k : String} :
    entries.lookup k = none ↔ k ∉ entries.map Prod.fst := by
  rw [List.lookup_eq_none_iff, List.mem_map]
  constructor
  · rintro h ⟨e, he, rfl⟩
    exact bne_iff_ne.1 (h e he) rfl
  · exact fun h e he => bne_iff_ne.2 fun hk => h ⟨e, he, hk.symm⟩

/-- A name that stood for nothing stands for nothing behind another one that is new. -/
theorem lookup_append_eq_none {entries : List (String × β)} {k name : String} (h : entries.lookup k = none)
    (hne : k ≠ name) (b : β) : (entries ++ [(name, b)]).lookup k = none := by
  rw [lookup_eq_none_iff] at h ⊢
  rw [List.map_append, List.mem_append, not_or]
  exact ⟨h, fun hk => hne (List.mem_singleton.1 hk)⟩

theorem mem_of_lookup {entries : List (String × β)} {k : String} {b : β} (h : entries.lookup k = some b) :
    (k, b) ∈ entries := by
  obtain ⟨before, after, rfl, -⟩ := List.lookup_eq_some_iff.1 h
  exact List.mem_append_right _ List.mem_cons_self

theorem mem_iff_lookup {entries : List (String × β)} (h : (entries.map Prod.fst).Nodup) {k : String} {b : β} :
    (k, b) ∈ entries ↔ entries.lookup k = some b := by
  refine ⟨fun hm => ?_, mem_of_lookup⟩
  obtain ⟨before, after, rfl⟩ := List.append_of_mem hm
  refine List.lookup_eq_some_iff.2 ⟨before, after, rfl, fun e he => ?_⟩
  rw [List.map_append, List.nodup_append] at h
  have hne := h.2.2 e.1 (List.mem_map_of_mem he) k List.mem_cons_self
  exact bne_iff_ne.2 (Ne.symm hne)

end ManagedRuntime
