import ManagedRuntime.Toml.Library

/-!
# The standard for documents

A program relies on a library that reads and writes documents as TOML 1.0 has them.

* `Table.Distinct` : no table has a key twice, at any depth;
* `Standard` : which texts are documents, and what they stand for;
* `Library.Implements` : what a library is to do with documents, and how it hands over their values.
-/

namespace ManagedRuntime.Toml

set_option autoImplicit false

/-- Every table in a value has its keys once. -/
inductive Value.Distinct : Value → Prop where
  | text (s : String) : (Value.text s).Distinct
  | integer (i : Int) : (Value.integer i).Distinct
  | float (x : Binary64) : (Value.float x).Distinct
  | boolean (b : Bool) : (Value.boolean b).Distinct
  | moment (spelling : String) : (Value.moment spelling).Distinct
  | array {items : List Value} (h : ∀ v ∈ items, v.Distinct) : (Value.array items).Distinct
  | table {entries : Table} (hk : (entries.map Prod.fst).Nodup) (h : ∀ e ∈ entries, e.2.Distinct) :
    (Value.table entries).Distinct

structure Table.Distinct (table : Table) : Prop where
  keys : (table.map Prod.fst).Nodup
  values : ∀ e ∈ table, e.2.Distinct

theorem Value.distinct_table_iff {entries : Table} : (Value.table entries).Distinct ↔ Table.Distinct entries := by
  constructor
  · rintro (_ | _ | _ | _ | _ | _ | ⟨hk, h⟩)
    exact ⟨hk, h⟩
  · exact fun h => .table h.keys h.values

/-- The rules for documents. Only those are stated here that programs rely on which read and write their settings. -/
structure Standard where
  /-- A text is a document with these tables. -/
  Denotes : List Char → Table → Prop
  /-- In a document no key is defined twice. -/
  distinct : ∀ {cs table}, Denotes cs table → Table.Distinct table
  /-- Headers with lines of keys and values below them are a document. -/
  denotes_layout : ∀ {table : Table}, table.isPlain = true → Denotes table.layout table

/-- A library for documents as a standard has them. -/
structure Library.Implements (toml : Library) (standard : Standard) : Prop where
  /-- It reads the documents and no other texts, each with the tables that it stands for. -/
  read_eq_some_iff : ∀ cs table, toml.read cs = some table ↔ standard.Denotes cs table
  /-- What it writes is a document with the tables that it is given. -/
  write_denotes : ∀ table : Table, table.isPlain = true → ∃ cs, toml.write table = .ok cs ∧ standard.Denotes cs table
  visit_text : ∀ s, toml.visit (.text s) = .text s
  visit_integer : ∀ i, toml.visit (.integer i) = .integer i
  visit_float : ∀ x, toml.visit (.float x) = .float x
  visit_boolean : ∀ b, toml.visit (.boolean b) = .boolean b
  visit_array : ∀ items, toml.visit (.array items) = .sequence items
  visit_table : ∀ entries, toml.visit (.table entries) = .map entries
  /-- A date or time is handed over as a map from a key of its own to a text. -/
  visit_moment : ∀ spelling, ∃ s, toml.visit (.moment spelling) = .map [(momentKey, .text s)]

/-- Only the text that stands for a date or time is the library's own. -/
theorem Library.Implements.visit_cases {toml : Library} {standard : Standard} (h : toml.Implements standard)
    (v : Value) :
    toml.visit v = v.visit ∨ ∃ spelling s, v = .moment spelling ∧ toml.visit v = .map [(momentKey, .text s)] := by
  cases v with
  | text s => exact .inl (h.visit_text s)
  | integer i => exact .inl (h.visit_integer i)
  | float x => exact .inl (h.visit_float x)
  | boolean b => exact .inl (h.visit_boolean b)
  | moment spelling =>
    obtain ⟨s, hs⟩ := h.visit_moment spelling
    exact .inr ⟨spelling, s, rfl, hs⟩
  | array items => exact .inl (h.visit_array items)
  | table entries => exact .inl (h.visit_table entries)

end ManagedRuntime.Toml
