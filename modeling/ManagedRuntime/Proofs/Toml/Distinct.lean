import Mathlib.Data.List.Nodup
import ManagedRuntime.Proofs.Lookup
import ManagedRuntime.Proofs.Toml.Standard

/-!
# Keys of a document

A key stands for one thing only, in every table of a document.

* `Entries.Distinct`, `Node.Distinct` : no table has a key twice, at any depth;
* `Node.Distinct.value`, `Entries.Distinct.table` : the same of the values alone;
* `keeps_insert`, `keeps_openTable`, `keeps_openElement` : no statement defines a key that is there already;
* `Reader.Yields` : a property of all values that a reader finds;
* `distinct_of_parse` : the tables of a document have distinct keys.
-/

namespace ManagedRuntime.Toml

set_option autoImplicit false

/-- Every table in a node has its keys once. -/
inductive Node.Distinct : Node → Prop where
  | text (s : String) : (Node.text s).Distinct
  | integer (i : Int) : (Node.integer i).Distinct
  | float (x : Binary64) : (Node.float x).Distinct
  | boolean (b : Bool) : (Node.boolean b).Distinct
  | moment (spelling : String) : (Node.moment spelling).Distinct
  | array {items : List Node} (h : ∀ node ∈ items, node.Distinct) : (Node.array items).Distinct
  | table {origin : Origin} {entries : Entries} (hk : (entries.map Prod.fst).Nodup) (h : ∀ e ∈ entries, e.2.Distinct) :
    (Node.table origin entries).Distinct
  | tables {elements : List Entries} (hk : ∀ entries ∈ elements, (entries.map Prod.fst).Nodup)
    (h : ∀ entries ∈ elements, ∀ e ∈ entries, e.2.Distinct) : (Node.tables elements).Distinct

structure Entries.Distinct (entries : Entries) : Prop where
  keys : (entries.map Prod.fst).Nodup
  nodes : ∀ e ∈ entries, e.2.Distinct

theorem Node.distinct_table_iff {origin : Origin} {entries : Entries} :
    (Node.table origin entries).Distinct ↔ entries.Distinct := by
  constructor
  · rintro (_ | _ | _ | _ | _ | _ | ⟨hk, h⟩)
    exact ⟨hk, h⟩
  · exact fun h => .table h.keys h.nodes

theorem Node.distinct_tables_iff {elements : List Entries} :
    (Node.tables elements).Distinct ↔ ∀ entries ∈ elements, entries.Distinct := by
  constructor
  · rintro (_ | _ | _ | _ | _ | _ | _ | ⟨hk, h⟩)
    exact fun entries he => ⟨hk entries he, h entries he⟩
  · exact fun h => .tables (fun entries he => (h entries he).keys) fun entries he => (h entries he).nodes

theorem Node.Distinct.value {node : Node} (h : node.Distinct) : node.value.Distinct := by
  have hkeys : ∀ entries : Entries, (Node.tableOf entries).map Prod.fst = entries.map Prod.fst := by
    intro entries
    rw [Node.tableOf_eq, List.map_map]
    rfl
  have hmem : ∀ (entries : Entries) (e' : String × Value), e' ∈ Node.tableOf entries →
      ∃ e ∈ entries, e' = (e.1, e.2.value) := by
    intro entries e' he
    rw [Node.tableOf_eq] at he
    obtain ⟨e, hm, rfl⟩ := List.mem_map.1 he
    exact ⟨e, hm, rfl⟩
  induction h with
  | text => exact .text _
  | integer => exact .integer _
  | float => exact .float _
  | boolean => exact .boolean _
  | moment => exact .moment _
  | @array items _ ih =>
    refine .array fun v hv => ?_
    rw [Node.values_eq] at hv
    obtain ⟨node, hm, rfl⟩ := List.mem_map.1 hv
    exact ih node hm
  | @table origin entries hk _ ih =>
    refine .table ((hkeys entries).symm ▸ hk) fun e' he => ?_
    obtain ⟨e, hm, rfl⟩ := hmem entries e' he
    exact ih e hm
  | @tables elements hk _ ih =>
    refine .array fun v hv => ?_
    rw [Node.tablesOf_eq] at hv
    obtain ⟨entries, hm, rfl⟩ := List.mem_map.1 hv
    refine .table ((hkeys entries).symm ▸ hk entries hm) fun e' he => ?_
    obtain ⟨e, hme, rfl⟩ := hmem entries e' he
    exact ih entries hm e hme

theorem Entries.Distinct.table {entries : Entries} (h : entries.Distinct) : (Node.tableOf entries).Distinct := by
  have hnode : (Node.table .header entries).Distinct := Node.distinct_table_iff.2 h
  exact Value.distinct_table_iff.1 hnode.value

/-! ## Tables -/

namespace Entries

/-- A change of a table keeps its keys distinct. -/
def Keeps (change : Entries → Option Entries) : Prop :=
  ∀ {entries entries' : Entries}, entries.Distinct → change entries = some entries' → entries'.Distinct

namespace Distinct

variable {entries entries' : Entries} {k : String} {node : Node}

theorem nil : Distinct [] := ⟨List.nodup_nil, nofun⟩

theorem of_lookup (h : entries.Distinct) (hl : entries.lookup k = some node) : node.Distinct :=
  h.nodes _ (mem_of_lookup hl)

theorem add (h : entries.Distinct) (hl : entries.lookup k = none) (hn : node.Distinct) :
    (entries.add k node).Distinct := by
  refine ⟨?_, fun e he => ?_⟩
  · rw [Entries.add, List.map_append, List.nodup_append]
    refine ⟨h.keys, List.nodup_singleton k, ?_⟩
    rintro _ hk _ (_ | ⟨_, ⟨⟩⟩) rfl
    obtain ⟨e, he, hek⟩ := List.mem_map.1 hk
    have hne := List.lookup_eq_none_iff.1 hl e he
    exact absurd hek.symm (by simpa using hne)
  · rcases List.mem_append.1 he with he | he
    · exact h.nodes e he
    · rw [List.mem_singleton.1 he]
      exact hn

theorem replace (h : entries.Distinct) (hn : node.Distinct) : (entries.replace k node).Distinct := by
  refine ⟨?_, fun e he => ?_⟩
  · have hkeys : (entries.replace k node).map Prod.fst = entries.map Prod.fst := by
      rw [Entries.replace, List.map_map]
      refine List.map_congr_left fun e _ => ?_
      simp only [Function.comp_apply]
      split <;> rfl
    rw [hkeys]
    exact h.keys
  · obtain ⟨⟨k', old⟩, hold, rfl⟩ := List.mem_map.1 he
    dsimp only
    split
    · exact hn
    · exact h.nodes _ hold

end Distinct

theorem distinct_of_inLast {elements elements' : List Entries} {change : Entries → Option Entries}
    (hc : Keeps change) (h : ∀ entries ∈ elements, entries.Distinct) (hi : inLast elements change = some elements') :
    ∀ entries ∈ elements', entries.Distinct := by
  obtain ⟨last, hlast, rfl⟩ := Option.map_eq_some_iff.1 hi
  have hd : (elements.getLastD []).Distinct := by
    cases elements with
    | nil => exact .nil
    | cons e es =>
      rw [List.getLastD_cons, List.getLastD_eq_getLast?]
      cases hes : es.getLast? with
      | none => exact h e List.mem_cons_self
      | some e' => exact h e' (List.mem_cons_of_mem e (List.mem_of_getLast? hes))
  intro entries he
  rcases List.mem_append.1 he with he | he
  · exact h entries (List.dropLast_subset elements he)
  · rw [List.mem_singleton.1 he]
    exact hc hd hlast

section

variable {change : Entries → Option Entries} {entries entries' : Entries} {k : String}

/-- A new table that has been filled by a change. -/
theorem Distinct.addTable (h : entries.Distinct) (hc : Keeps change) (hl : entries.lookup k = none) {origin : Origin}
    (hs : (change []).map (fun sub => entries.add k (.table origin sub)) = some entries') : entries'.Distinct := by
  obtain ⟨sub, hsub, rfl⟩ := Option.map_eq_some_iff.1 hs
  exact h.add hl (Node.distinct_table_iff.2 (hc .nil hsub))

theorem Distinct.changeTable (h : entries.Distinct) (hc : Keeps change) {origin origin' : Origin} {sub : Entries}
    (hl : entries.lookup k = some (.table origin sub))
    (hs : (change sub).map (fun sub => entries.replace k (.table origin' sub)) = some entries') :
    entries'.Distinct := by
  obtain ⟨sub', hsub, rfl⟩ := Option.map_eq_some_iff.1 hs
  exact h.replace (Node.distinct_table_iff.2 (hc (Node.distinct_table_iff.1 (h.of_lookup hl)) hsub))

theorem Distinct.changeLast (h : entries.Distinct) (hc : Keeps change) {elements : List Entries}
    (hl : entries.lookup k = some (.tables elements))
    (hs : (inLast elements change).map (fun elements => entries.replace k (.tables elements)) = some entries') :
    entries'.Distinct := by
  obtain ⟨elements', helements, rfl⟩ := Option.map_eq_some_iff.1 hs
  exact h.replace (Node.distinct_tables_iff.2
    (distinct_of_inLast hc (Node.distinct_tables_iff.1 (h.of_lookup hl)) helements))

end

theorem keeps_insert (path : List String) {k : String} {node : Node} (hn : node.Distinct) :
    Keeps fun entries => entries.insert path k node := by
  induction path with
  | nil =>
    intro entries entries' h hi
    simp only [insert, insertHere] at hi
    split at hi
    · next hl =>
      cases hi
      exact h.add hl hn
    · cases hi
  | cons part path ih =>
    intro entries entries' h hi
    simp only [insert] at hi
    split at hi
    · next hl => exact h.addTable ih hl hi
    · next hl => exact h.changeTable ih hl hi
    · next hl =>
      split at hi
      · cases hi
      exact h.changeTable ih hl hi
    · next hl =>
      split at hi
      · cases hi
      exact h.changeLast ih hl hi
    · cases hi

theorem keeps_below (path : List String) {change : Entries → Option Entries} (hc : Keeps change) :
    Keeps fun entries => entries.below path change := by
  induction path with
  | nil => exact hc
  | cons part path ih =>
    intro entries entries' h hi
    simp only [below] at hi
    split at hi
    · next hl => exact h.addTable ih hl hi
    · cases hi
    · next hl => exact h.changeTable ih hl hi
    · next hl => exact h.changeLast ih hl hi
    · cases hi

theorem keeps_openTable (path : List String) (k : String) {fill : Entries → Option Entries} (hf : Keeps fill) :
    Keeps fun entries => entries.openTable path k fill := by
  refine keeps_below path fun {entries entries'} h hi => ?_
  split at hi
  · next hl => exact h.addTable hf hl hi
  · next hl => exact h.changeTable hf hl hi
  · cases hi

theorem keeps_openElement (path : List String) (k : String) {fill : Entries → Option Entries} (hf : Keeps fill) :
    Keeps fun entries => entries.openElement path k fill := by
  refine keeps_below path fun {entries entries'} h hi => ?_
  split at hi
  · next hl =>
    obtain ⟨sub, hsub, rfl⟩ := Option.map_eq_some_iff.1 hi
    refine h.add hl (Node.distinct_tables_iff.2 fun entries he => ?_)
    rw [List.mem_singleton.1 he]
    exact hf .nil hsub
  · next hl =>
    obtain ⟨sub, hsub, rfl⟩ := Option.map_eq_some_iff.1 hi
    refine h.replace (Node.distinct_tables_iff.2 fun entries he => ?_)
    rcases List.mem_append.1 he with he | he
    · exact Node.distinct_tables_iff.1 (h.of_lookup hl) entries he
    · rw [List.mem_singleton.1 he]
      exact hf .nil hsub
  · cases hi

end Entries

/-! ## Readers -/

/-- Whatever a reader finds has a property. -/
def Reader.Yields {α : Type} (p : Reader α) (P : α → Prop) : Prop :=
  ∀ cs a rest, p cs = some (a, rest) → P a

section

variable {α : Type} {P : α → Prop}

theorem Reader.Yields.many {item : Reader α} (h : item.Yields P) (cs : List Char) :
    ∀ a ∈ (Reader.many item cs).1, P a := by
  fun_induction Reader.many item cs with
  | case1 => exact nofun
  | case2 cs a rest hitem hlt as rest' hmany ih =>
    intro b hb
    rcases List.mem_cons.1 hb with rfl | hb
    · exact h _ _ _ hitem
    · rw [hmany] at ih
      exact ih b hb
  | case3 => exact nofun

theorem yields_furtherOf {item : Reader α} (h : item.Yields P) : Reader.Yields (furtherOf item) P := by
  intro cs a rest hr
  unfold furtherOf at hr
  split at hr
  · exact h _ _ _ hr
  · cases hr

end

theorem yields_scalar : Reader.Yields scalar Node.Distinct := by
  intro cs node rest h
  unfold scalar at h
  split at h
  · cases h
    exact .text _
  split at h
  · cases h
    exact .boolean _
  split at h
  · cases h
    exact .moment _
  split at h
  · cases h
    exact .float _
  obtain ⟨⟨i, rest'⟩, -, he⟩ := Option.map_eq_some_iff.1 h
  cases he
  exact .integer i

theorem yields_element {value : Reader Node} (h : value.Yields Node.Distinct) :
    Reader.Yields (element value) Node.Distinct := by
  intro cs node rest hr
  obtain ⟨⟨node', rest'⟩, hv, he⟩ := Option.bind_eq_some_iff.1 hr
  cases he
  exact h _ _ _ hv

/-- One item, and further ones behind commas. -/
theorem all_of_items {α : Type} {item : Reader α} {P : α → Prop} (h : item.Yields P) {cs rest : List Char} {first : α}
    (hf : item cs = some (first, rest)) : ∀ a ∈ first :: (Reader.many (furtherOf item) rest).1, P a := by
  intro a ha
  rcases List.mem_cons.1 ha with rfl | ha
  · exact h _ _ _ hf
  · exact (yields_furtherOf h).many rest a ha

theorem yields_arrayItems {value : Reader Node} (h : value.Yields Node.Distinct) :
    Reader.Yields (arrayItems value) fun items => ∀ node ∈ items, node.Distinct := by
  intro cs items rest hr
  unfold arrayItems at hr
  cases hf : element value cs with
  | none =>
    simp only [hf] at hr
    split at hr
    · cases hr
      exact nofun
    · cases hr
  | some result =>
    obtain ⟨first, rest'⟩ := result
    have hitems := all_of_items (yields_element h) hf
    simp only [hf] at hr
    generalize Reader.many (furtherOf (element value)) rest' = further at hr hitems
    split at hr
    · cases hr
      -- A comma at the end is no item.
      split <;> exact hitems
    · cases hr

theorem yields_entry {value : Reader Node} (h : value.Yields Node.Distinct) :
    Reader.Yields (entry value) fun e => e.2.Distinct := by
  intro cs e rest hr
  obtain ⟨⟨name, rest'⟩, -, hr⟩ := Option.bind_eq_some_iff.1 hr
  dsimp only at hr
  split at hr
  · obtain ⟨⟨node, rest''⟩, hv, he⟩ := Option.bind_eq_some_iff.1 hr
    cases he
    exact h _ _ _ hv
  · cases hr

theorem distinct_of_insertAll {items : List ((List String × String) × Node)} {entries entries' : Entries}
    (h : ∀ e ∈ items, e.2.Distinct) (hd : entries.Distinct)
    (hi : items.foldlM (fun (entries : Entries) ((path, k), node) => entries.insert path k node) entries =
      some entries') :
    entries'.Distinct := by
  induction items generalizing entries with
  | nil =>
    cases hi
    exact hd
  | cons e items ih =>
    rw [List.foldlM_cons] at hi
    obtain ⟨next, hn, hi⟩ := Option.bind_eq_some_iff.1 hi
    have hnext := Entries.keeps_insert e.1.1 (h e List.mem_cons_self) hd hn
    exact ih (fun e' he => h e' (List.mem_cons_of_mem e he)) hnext hi

theorem yields_tableItems {value : Reader Node} (h : value.Yields Node.Distinct) :
    Reader.Yields (tableItems value) Entries.Distinct := by
  intro cs entries rest hr
  unfold tableItems at hr
  cases hf : entry value cs with
  | none =>
    simp only [hf] at hr
    split at hr
    · cases hr
      exact .nil
    · cases hr
  | some result =>
    obtain ⟨first, rest'⟩ := result
    have hitems := all_of_items (yields_entry h) hf
    simp only [hf] at hr
    split at hr
    · obtain ⟨entries', hi, he⟩ := Option.bind_eq_some_iff.1 hr
      cases he
      exact distinct_of_insertAll hitems .nil hi
    · cases hr

theorem yields_value (depth : Nat) : Reader.Yields (value depth) Node.Distinct := by
  induction depth with
  | zero => exact yields_scalar
  | succ depth ih =>
    intro cs node rest h
    unfold value at h
    split at h
    · obtain ⟨⟨items, rest'⟩, hi, he⟩ := Option.map_eq_some_iff.1 h
      cases he
      exact .array (yields_arrayItems ih _ _ _ hi)
    · obtain ⟨⟨entries, rest'⟩, hi, he⟩ := Option.map_eq_some_iff.1 h
      cases he
      exact Node.distinct_table_iff.2 (yields_tableItems ih _ _ _ hi)
    · exact yields_scalar _ _ _ h

/-! ## Lines -/

/-- What a line gives a value to has its keys once. -/
def Statement.Distinct : Statement → Prop
  | .entry _ _ node => node.Distinct
  | .header .. => True
  | .elementHeader .. => True

theorem yields_statement : Reader.Yields statement Statement.Distinct := by
  intro cs s rest h
  unfold statement at h
  split at h
  · unfold header at h
    split at h
    · obtain ⟨⟨_, _⟩, -, h⟩ := Option.bind_eq_some_iff.1 h
      obtain ⟨_, -, h⟩ := Option.bind_eq_some_iff.1 h
      cases h
      trivial
    · obtain ⟨⟨_, _⟩, -, h⟩ := Option.bind_eq_some_iff.1 h
      obtain ⟨_, -, h⟩ := Option.bind_eq_some_iff.1 h
      cases h
      trivial
    · cases h
  · obtain ⟨⟨e, rest'⟩, he, hs⟩ := Option.map_eq_some_iff.1 h
    cases hs
    exact yields_entry (yields_value maxDepth) _ _ _ he

theorem yields_line : Reader.Yields line fun s? => ∀ s ∈ s?, s.Distinct := by
  intro cs s? rest h s hs
  unfold line at h
  split at h
  · next hstatement =>
    obtain ⟨_, -, he⟩ := Option.map_eq_some_iff.1 h
    cases he
    cases hs
    exact yields_statement _ _ _ hstatement
  · obtain ⟨_, -, he⟩ := Option.map_eq_some_iff.1 h
    cases he
    cases hs

namespace Document

theorem distinct_of_statements {cs : List Char} {lines : List Statement} (h : statements cs = some lines) :
    ∀ s ∈ lines, s.Distinct := by
  unfold statements at h
  have hall := yields_line.many cs
  generalize Reader.many line cs = result at h hall
  dsimp only at h
  split at h
  · cases h
    intro s hs
    obtain ⟨s?, hs?, he⟩ := List.mem_filterMap.1 hs
    exact hall s? hs? s he
  · cases h

theorem keeps_fill {lines : List Statement} (h : ∀ s ∈ lines, s.Distinct) : Entries.Keeps (fill lines) := by
  intro entries entries' hd hf
  induction lines generalizing entries with
  | nil =>
    cases hf
    exact hd
  | cons s lines ih =>
    cases s with
    | entry path k node =>
      obtain ⟨next, hn, hf⟩ := Option.bind_eq_some_iff.1 hf
      have hnode : node.Distinct := h _ List.mem_cons_self
      exact ih (fun s hs => h s (List.mem_cons_of_mem _ hs)) (Entries.keeps_insert path hnode hd hn) hf
    | header | elementHeader =>
      cases hf
      exact hd

theorem keeps_addHeaders {lines : List Statement} (h : ∀ s ∈ lines, s.Distinct) :
    Entries.Keeps (addHeaders lines) := by
  intro entries entries' hd ha
  induction lines generalizing entries with
  | nil =>
    cases ha
    exact hd
  | cons s lines ih =>
    have hlines : ∀ s ∈ lines, s.Distinct := fun s hs => h s (List.mem_cons_of_mem _ hs)
    cases s with
    | entry => exact ih hlines hd ha
    | header path k =>
      obtain ⟨next, hn, ha⟩ := Option.bind_eq_some_iff.1 ha
      exact ih hlines (Entries.keeps_openTable path k (keeps_fill hlines) hd hn) ha
    | elementHeader path k =>
      obtain ⟨next, hn, ha⟩ := Option.bind_eq_some_iff.1 ha
      exact ih hlines (Entries.keeps_openElement path k (keeps_fill hlines) hd hn) ha

/-- **A document has each key of each table once.** -/
theorem distinct_of_parse {cs : List Char} {table : Table} (h : parse cs = some table) : table.Distinct := by
  obtain ⟨entries, hentries, rfl⟩ := Option.map_eq_some_iff.1 h
  obtain ⟨lines, hlines, hbuild⟩ := Option.bind_eq_some_iff.1 hentries
  obtain ⟨first, hfirst, hrest⟩ := Option.bind_eq_some_iff.1 hbuild
  have hd := distinct_of_statements hlines
  exact (keeps_addHeaders hd (keeps_fill hd .nil hfirst) hrest).table

end Document

end ManagedRuntime.Toml
