import ManagedRuntime.Toml.Lexical
import ManagedRuntime.Toml.Value

/-!
# Layout of documents

* `Table.isPlain` : sections of truth values, natural numbers, texts without escapes and lists of such texts;
* `Table.layout` : a document with these sections, each under a header and with a line for each of its keys.
-/

namespace ManagedRuntime.Toml

set_option autoImplicit false

/-! ## Plain tables -/

/-- Characters that need no escape between double quotes. -/
def isVerbatim (c : Char) : Bool := isPlain c && c ≠ '"' && c ≠ '\\'

def Value.isVerbatim : Value → Bool
  | .text s => s ≠ "" && s.toList.all Toml.isVerbatim
  | _ => false

/-- Values that need neither escapes nor signs. Integers have 64 bits. -/
def Value.isPlain : Value → Bool
  | .text s => (Value.text s).isVerbatim
  | .integer i => 0 ≤ i && i < 0x8000000000000000
  | .boolean _ => true
  | .array items => items.all Value.isVerbatim
  | _ => false

namespace Table

/-- The keys need no quotes, and none stands twice. -/
def hasPlainKeys (table : Table) : Bool :=
  (table.all fun (k, _) => k ≠ "" && k.toList.all isBare) && decide (table.map Prod.fst).Nodup

/-- What stands in a section. -/
def ofSection : Value → Table
  | .table entries => entries
  | _ => []

def isSection : Value → Bool
  | .table entries => hasPlainKeys entries && entries.all fun (_, v) => v.isPlain
  | _ => false

def isPlain (table : Table) : Bool := table.hasPlainKeys && table.all fun (_, v) => isSection v

end Table

/-! ## Characters -/

/-- A text between double quotes, as it is. -/
def quoted (s : String) : List Char := '"' :: (s.toList ++ ['"'])

def indent : List Char := "    ".toList

/-- An element on a line of its own. -/
def indented (text : List Char) : List Char := indent ++ (text ++ [',', '\n'])

/-- An array of two elements or more has a line for each of them. -/
def arrayOf : List (List Char) → List Char
  | [] => ['[', ']']
  | [text] => '[' :: (text ++ [']'])
  | texts => '[' :: '\n' :: (texts.flatMap indented ++ [']'])

/-- The characters of a value that holds no others. -/
def Value.scalarLayout : Value → List Char
  | .text s => quoted s
  | .integer i => Nat.toDigits 10 i.toNat
  | .boolean b => (if b then "true" else "false").toList
  | _ => []

def Value.layout : Value → List Char
  | .array items => arrayOf (items.map Value.scalarLayout)
  | v => v.scalarLayout

/-- The line that opens a section. -/
def headerLine (name : String) : List Char := '[' :: (name.toList ++ [']', '\n'])

/-- A line with a key, or several lines if the value is laid out on several. -/
def entryLine (k : String) (v : Value) : List Char := k.toList ++ (" = ".toList ++ (v.layout ++ ['\n']))

def sectionLines (name : String) (entries : Table) : List (List Char) :=
  headerLine name :: entries.map fun (k, v) => entryLine k v

namespace Table

/-- A blank line separates the sections. -/
def lines : Table → List (List Char)
  | [] => []
  | [(name, v)] => sectionLines name (ofSection v)
  | (name, v) :: rest => sectionLines name (ofSection v) ++ ['\n'] :: lines rest

def layout (table : Table) : List Char := table.lines.flatten

/-- Other tables are refused. -/
def write (table : Table) : Except String (List Char) :=
  if table.isPlain then .ok table.layout else .error "unsupported value"

end Table

end ManagedRuntime.Toml
