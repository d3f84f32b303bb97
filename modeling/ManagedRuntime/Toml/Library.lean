import ManagedRuntime.Toml.Document
import ManagedRuntime.Toml.Layout

/-!
# Libraries for documents

* `Library` : what a program uses to read documents, to write them, and to ask for their values;
* `Visit` : the calls by which a value is handed over to the program;
* `Library.plain` : the reader of `Toml.Document` and the writer of `Toml.Layout`.
-/

namespace ManagedRuntime.Toml

set_option autoImplicit false

/-- The call by which a value is handed over to code that asks for a value of any type. -/
inductive Visit where
  | text (s : String)
  | integer (i : Int)
  | float (x : Binary64)
  | boolean (b : Bool)
  | sequence (items : List Value)
  | map (entries : Table)

structure Library where
  /-- The tables of a text, if it is a document. -/
  read : List Char → Option Table
  /-- A document with some tables, or why there is none. -/
  write : Table → Except String (List Char)
  visit : Value → Visit

/-- The only key of the map as which a date or time is handed over. -/
def momentKey : String := "$__toml_private_datetime"

def Value.visit : Value → Visit
  | .text s => .text s
  | .integer i => .integer i
  | .float x => .float x
  | .boolean b => .boolean b
  | .moment spelling => .map [(momentKey, .text spelling)]
  | .array items => .sequence items
  | .table entries => .map entries

def Library.plain : Library := ⟨Document.parse, Table.write, Value.visit⟩

end ManagedRuntime.Toml
