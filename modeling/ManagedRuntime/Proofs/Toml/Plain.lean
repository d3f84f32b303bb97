import ManagedRuntime.Proofs.Toml.Distinct
import ManagedRuntime.Proofs.Toml.Reading

/-!
# The plain library

A plain table is read back from its layout, so there is a standard that the reader and the writer of these modules
implement together.

* `Value.node` : what a value is read as;
* `takes_lines` : every line of a layout is read as a statement;
* `build_statements` : the statements of a table define that table;
* `Document.parse_layout` : the layout of a table is a document with that table;
* `plain_implements` : the library and its standard.
-/

namespace ManagedRuntime.Toml

set_option autoImplicit false

/-! ## Nodes of values -/

mutual

/-- What a value is read as, with all of its tables under headers. -/
def Value.node : Value → Node
  | .text s => .text s
  | .integer i => .integer i
  | .float x => .float x
  | .boolean b => .boolean b
  | .moment spelling => .moment spelling
  | .array items => .array (Value.nodes items)
  | .table entries => .table .header (Value.entriesOf entries)

def Value.nodes : List Value → List Node
  | [] => []
  | v :: items => v.node :: Value.nodes items

def Value.entriesOf : List (String × Value) → Entries
  | [] => []
  | (k, v) :: entries => (k, v.node) :: Value.entriesOf entries

end

theorem Value.nodes_eq (items : List Value) : Value.nodes items = items.map Value.node := by
  induction items with
  | nil => rfl
  | cons v items ih => rw [Value.nodes, ih, List.map_cons]

mutual

theorem Value.value_node : ∀ v : Value, v.node.value = v
  | .text _ | .integer _ | .float _ | .boolean _ | .moment _ => rfl
  | .array items => congrArg Value.array (Value.values_nodes items)
  | .table entries => congrArg Value.table (Value.tableOf_entriesOf entries)

theorem Value.values_nodes : ∀ items : List Value, Node.values (Value.nodes items) = items
  | [] => rfl
  | v :: items => by rw [Value.nodes, Node.values, Value.value_node v, Value.values_nodes items]

theorem Value.tableOf_entriesOf : ∀ entries : List (String × Value), Node.tableOf (Value.entriesOf entries) = entries
  | [] => rfl
  | (k, v) :: entries => by rw [Value.entriesOf, Node.tableOf, Value.value_node v, Value.tableOf_entriesOf entries]

end

/-! ## Values -/

theorem takes_verbatim (depth : Nat) {v : Value} (h : v.isVerbatim = true) :
    (value depth).Takes v.scalarLayout v.node := by
  cases v with
  | text s => exact takes_quoted depth h
  | integer | float | boolean | moment | array | table => cases h

theorem elements_verbatim (depth : Nat) {items : List Value} (h : items.all Value.isVerbatim = true) :
    Elements depth Value.scalarLayout Value.node items where
  takes v hv := takes_verbatim depth (List.all_eq_true.1 h v hv)
  starts v hv := by
    have hverbatim := List.all_eq_true.1 h v hv
    cases v with
    | text s => exact stops_cons.2 rfl
    | integer | float | boolean | moment | array | table => cases hverbatim

/-- A plain value is read at the end of a line. -/
theorem value_layout {v : Value} (h : v.isPlain = true) (rest : List Char) :
    value maxDepth (v.layout ++ '\n' :: rest) = some (v.node, '\n' :: rest) := by
  cases v with
  | text s => exact (takes_quoted maxDepth h).read _
  | integer i =>
    obtain ⟨hlow, hhigh⟩ := Bool.and_eq_true_iff.1 h
    obtain ⟨n, rfl⟩ := Int.eq_ofNat_of_zero_le (of_decide_eq_true hlow)
    exact value_toDigits (Int.ofNat_lt.1 (of_decide_eq_true hhigh)) rest
  | boolean b => exact (takes_boolean maxDepth b).read _
  | array items =>
    -- The elements of an array are one level deeper than the array.
    have harray := (elements_verbatim 78 h).takes_array.read ('\n' :: rest)
    rw [← Value.nodes_eq] at harray
    exact harray
  | float | moment | table => cases h

theorem stops_layout (v : Value) : Stops isBlank (v.layout ++ ['\n']) := by
  cases v with
  | integer i =>
    rcases Nat.eq_zero_or_pos i.toNat with hzero | hpos
    · show Stops isBlank (Nat.toDigits 10 i.toNat ++ ['\n'])
      rw [hzero]
      exact stops_cons.2 rfl
    · have hdecimals := decimals_toDigits hpos
      exact stops_append hdecimals.stops_isBlank fun hnil => absurd hnil hdecimals.ne_nil
  | boolean b => cases b <;> exact stops_cons.2 rfl
  | array items =>
    unfold Value.layout arrayOf
    dsimp only
    split <;> exact stops_cons.2 rfl
  | text | float | moment | table => exact stops_cons.2 rfl

/-! ## Lines -/

namespace Table

theorem hasPlainKeys_iff {table : Table} :
    table.hasPlainKeys = true ↔ (∀ e ∈ table, IsBare e.1) ∧ (table.map Prod.fst).Nodup := by
  have hbare : ∀ k : String, (k ≠ "" && k.toList.all isBare) = true ↔ IsBare k := by
    intro k
    rw [Bool.and_eq_true_iff, decide_eq_true_iff, List.all_eq_true]
    exact ⟨fun h => ⟨fun hnil => h.1 (String.toList_eq_nil_iff.1 hnil), h.2⟩,
      fun h => ⟨fun hk => h.ne_nil (String.toList_eq_nil_iff.2 hk), h.bare⟩⟩
  rw [hasPlainKeys, Bool.and_eq_true_iff, List.all_eq_true, decide_eq_true_iff]
  simp only [hbare]

/-- The lines of a section can be laid out. -/
structure PlainSection (entries : Table) : Prop where
  bare : ∀ e ∈ entries, IsBare e.1
  nodup : (entries.map Prod.fst).Nodup
  values : ∀ e ∈ entries, e.2.isPlain = true

theorem isSection_iff {v : Value} : isSection v = true ↔ ∃ entries, v = .table entries ∧ PlainSection entries := by
  cases v with
  | table entries =>
    rw [isSection, Bool.and_eq_true_iff, hasPlainKeys_iff, List.all_eq_true]
    constructor
    · rintro ⟨⟨hbare, hnodup⟩, hvalues⟩
      exact ⟨entries, rfl, hbare, hnodup, hvalues⟩
    · rintro ⟨_, ⟨⟩, h⟩
      exact ⟨⟨h.bare, h.nodup⟩, h.values⟩
  | text | integer | float | boolean | moment | array => exact iff_of_false nofun nofun

theorem isPlain_cons_iff {name : String} {v : Value} {rest : Table} :
    isPlain ((name, v) :: rest) = true ↔ IsBare name ∧ (∃ entries, v = .table entries ∧ PlainSection entries) ∧
      name ∉ rest.map Prod.fst ∧ isPlain rest = true := by
  simp only [isPlain, Bool.and_eq_true_iff, hasPlainKeys_iff, List.all_cons, isSection_iff, List.forall_mem_cons,
    List.map_cons, List.nodup_cons]
  tauto

/-! ## Statements -/

def entryStatements (entries : Table) : List Statement := entries.map fun (k, v) => .entry [] k v.node

def sectionStatements (name : String) (entries : Table) : List Statement :=
  .header [] name :: entryStatements entries

/-- What the lines of a table say, without the blank ones. -/
def layoutStatements : Table → List Statement
  | [] => []
  | (name, v) :: rest => sectionStatements name (ofSection v) ++ layoutStatements rest

theorem takes_sectionLines {name : String} {entries : Table} (hname : IsBare name) (h : PlainSection entries) :
    List.Forall₂ line.Takes (sectionLines name entries) ((sectionStatements name entries).map some) := by
  refine .cons hname.takes_header ?_
  rw [entryStatements, List.map_map, List.forall₂_map_left_iff, List.forall₂_map_right_iff, List.forall₂_same]
  exact fun e he => (h.bare e he).takes_entry (stops_layout e.2) (value_layout (h.values e he))

/-- Every line of a layout is read as a statement, or as nothing if it is blank. -/
theorem takes_lines {table : Table} (h : table.isPlain = true) :
    ∃ found, List.Forall₂ line.Takes table.lines found ∧ found.filterMap id = layoutStatements table := by
  have hsome : ∀ lines : List Statement, (lines.map some).filterMap id = lines := fun lines => by simp
  fun_induction lines table with
  | case1 => exact ⟨[], .nil, rfl⟩
  | case2 name v =>
    obtain ⟨hname, ⟨entries, rfl, hentries⟩, -, -⟩ := isPlain_cons_iff.1 h
    refine ⟨_, takes_sectionLines hname hentries, ?_⟩
    rw [hsome, layoutStatements, layoutStatements, List.append_nil]
  | case3 name v rest hrest ih =>
    obtain ⟨hname, ⟨entries, rfl, hentries⟩, -, hplain⟩ := isPlain_cons_iff.1 h
    obtain ⟨found, hfound, hstatements⟩ := ih hplain
    refine ⟨_ ++ none :: found, List.rel_append (takes_sectionLines hname hentries) (.cons takes_blank hfound), ?_⟩
    rw [List.filterMap_append, hsome, layoutStatements]
    exact congrArg (_ ++ ·) hstatements

end Table

/-! ## Tables of statements -/

namespace Document

open Table

/-- No key is defined before the first header. -/
theorem fill_statements (table : Table) (entries : Entries) : fill (layoutStatements table) entries = some entries := by
  cases table <;> rfl

/-- Keys that are new are entered one after another, up to the next header. -/
theorem fill_section {lines : List Statement} {table : Table} (hd : (table.map Prod.fst).Nodup) {entries : Entries}
    (hnew : ∀ k ∈ table.map Prod.fst, entries.lookup k = none) (hlines : ∀ entries, fill lines entries = some entries) :
    fill (entryStatements table ++ lines) entries = some (entries ++ Value.entriesOf table) := by
  -- the keys that are still to come are new whatever has been entered so far
  induction table generalizing entries with
  | nil =>
    rw [Value.entriesOf, List.append_nil]
    exact hlines entries
  | cons e table ih =>
    obtain ⟨k, v⟩ := e
    obtain ⟨hk, hd⟩ := List.nodup_cons.1 hd
    rw [List.map_cons, List.forall_mem_cons] at hnew
    have hinsert : entries.insert [] k v.node = some (entries ++ [(k, v.node)]) := by
      rw [Entries.insert, Entries.insertHere, hnew.1]
      rfl
    show fill (.entry [] k v.node :: (entryStatements table ++ lines)) entries = _
    rw [fill, hinsert, Option.bind_some, ih hd, Value.entriesOf, List.append_assoc]
    · rfl
    · exact fun k' hk' => lookup_append_eq_none (hnew.2 k' hk') (ne_of_mem_of_not_mem hk' hk) _

theorem addHeaders_section (table : Table) (lines : List Statement) (entries : Entries) :
    addHeaders (entryStatements table ++ lines) entries = addHeaders lines entries := by
  induction table with
  | nil => rfl
  | cons e table ih => exact ih

/-- Headers that are new are entered one after another, each with its own keys. -/
theorem addHeaders_statements {table : Table} (h : table.isPlain = true) {entries : Entries}
    (hnew : ∀ name ∈ table.map Prod.fst, entries.lookup name = none) :
    addHeaders (layoutStatements table) entries = some (entries ++ Value.entriesOf table) := by
  induction table generalizing entries with
  | nil =>
    rw [Value.entriesOf, List.append_nil]
    rfl
  | cons e table ih =>
    obtain ⟨name, v⟩ := e
    obtain ⟨-, ⟨content, rfl, hcontent⟩, hname, hplain⟩ := isPlain_cons_iff.1 h
    rw [List.map_cons, List.forall_mem_cons] at hnew
    have hfill : fill (entryStatements content ++ layoutStatements table) [] = some (Value.entriesOf content) :=
      fill_section hcontent.nodup (fun _ _ => rfl) (fill_statements table)
    have hopen : entries.openTable [] name (fill (entryStatements content ++ layoutStatements table)) =
        some (entries ++ [(name, .table .header (Value.entriesOf content))]) := by
      rw [Entries.openTable, Entries.below, hnew.1]
      dsimp only
      rw [hfill]
      rfl
    rw [layoutStatements, ofSection, sectionStatements, List.cons_append, addHeaders, hopen, Option.bind_some,
      addHeaders_section, ih hplain, Value.entriesOf, List.append_assoc]
    · rfl
    · exact fun name' hname' => lookup_append_eq_none (hnew.2 name' hname') (ne_of_mem_of_not_mem hname' hname) _

theorem build_statements {table : Table} (h : table.isPlain = true) :
    build (layoutStatements table) = some (Value.entriesOf table) := by
  rw [build, fill_statements, Option.bind_some]
  exact addHeaders_statements h fun _ _ => rfl

/-- **The layout of a plain table is a document with that table.** -/
theorem parse_layout {table : Table} (h : table.isPlain = true) : parse table.layout = some table := by
  have hmark : skipMark table.layout = table.layout := by
    match table with
    | [] => rfl
    | [_] => rfl
    | _ :: _ :: _ => rfl
  obtain ⟨found, hfound, hstatements⟩ := takes_lines h
  have hlayout : Document.statements table.layout = some (layoutStatements table) := by
    rw [← hstatements]
    exact statements_flatten hfound
  rw [parse, hmark, hlayout, Option.bind_some, build_statements h, Option.map_some, Value.tableOf_entriesOf]

end Document

/-! ## The library -/

/-- The documents are those that the reader accepts. -/
def Standard.plain : Standard where
  Denotes cs table := Document.parse cs = some table
  distinct := Document.distinct_of_parse
  denotes_layout := Document.parse_layout

theorem plain_implements : Library.plain.Implements .plain where
  read_eq_some_iff _ _ := Iff.rfl
  write_denotes table h := ⟨table.layout, if_pos h, Document.parse_layout h⟩
  visit_text _ := rfl
  visit_integer _ := rfl
  visit_float _ := rfl
  visit_boolean _ := rfl
  visit_array _ := rfl
  visit_table _ := rfl
  visit_moment spelling := ⟨spelling, rfl⟩

end ManagedRuntime.Toml
