import ManagedRuntime.Toml.Node
import ManagedRuntime.Toml.Scalar

/-!
# Documents

* `value` : a value, in which arrays and inline tables may nest up to a depth;
* `Statement` : a line of a document that is neither blank nor a comment;
* `Document.statements` : the lines of a document;
* `Document.build` : the tables that the lines define;
* `Document.parse` : the tables of a text, if it is a document.
-/

namespace ManagedRuntime.Toml

set_option autoImplicit false

/-! ## Values -/

/-- A value that holds no others; what looks like the beginning of a number may be a date. -/
def scalar : Reader Node := fun cs =>
  match string cs with
  | some (s, rest) => some (.text (String.ofList s), rest)
  | none =>
  match boolean cs with
  | some (b, rest) => some (.boolean b, rest)
  | none =>
  match moment cs with
  | some rest => some (.moment (String.ofList (cs.take (cs.length - rest.length))), rest)
  | none =>
  match float cs with
  | some (x, rest) => some (.float x, rest)
  | none => (integer cs).map fun (i, rest) => (.integer i, rest)

/-- An element of an array with what surrounds it. -/
def element (value : Reader Node) : Reader Node := fun cs => do
  let (node, rest) ← value (gap cs)
  return (node, gap rest)

/-- A comma and something after it. -/
def furtherOf {α : Type} (item : Reader α) : Reader α
  | ',' :: rest => item rest
  | _ => none

/-- The elements of an array and its closing bracket; a comma may follow the last element. -/
def arrayItems (value : Reader Node) : Reader (List Node) := fun cs =>
  let (items, rest) :=
    match element value cs with
    | none => ([], gap cs)
    | some (first, rest) =>
      let (further, rest) := Reader.many (furtherOf (element value)) rest
      match rest with
      | ',' :: rest => (first :: further, gap rest)
      | rest => (first :: further, rest)
  match rest with
  | ']' :: rest => some (items, rest)
  | _ => none

/-- A key, an equals sign and a value, with the blanks around each. -/
def entry (value : Reader Node) : Reader ((List String × String) × Node) := fun cs => do
  let (name, rest) ← key cs
  match rest with
  | '=' :: rest =>
    let (node, rest) ← value (skipBlanks rest)
    return ((name, node), skipBlanks rest)
  | _ => none

/-- The entries of an inline table and its closing brace; no comma follows the last entry. -/
def tableItems (value : Reader Node) : Reader Entries := fun cs => do
  let (items, rest) :=
    match entry value cs with
    | none => ([], skipBlanks cs)
    | some (first, rest) =>
      let (further, rest) := Reader.many (furtherOf (entry value)) rest
      (first :: further, rest)
  match rest with
  | '\x7d' :: rest =>
    let entries ← items.foldlM (fun (entries : Entries) ((path, k), node) => entries.insert path k node) []
    return (entries, rest)
  | _ => none

/-- How deep arrays and inline tables may nest. -/
def maxDepth : Nat := 79

/-- A value whose arrays and inline tables nest at most `depth` deep. -/
def value : (depth : Nat) → Reader Node
  | 0, cs => scalar cs
  | depth + 1, cs =>
    match cs with
    | '[' :: rest => (arrayItems (value depth) rest).map fun (items, rest) => (.array items, rest)
    | '\x7b' :: rest => (tableItems (value depth) rest).map fun (entries, rest) => (.table .inline entries, rest)
    | cs => scalar cs

/-! ## Lines -/

inductive Statement where
  | entry (path : List String) (key : String) (node : Node)
  | header (path : List String) (key : String)
  | elementHeader (path : List String) (key : String)

/-- A key between brackets. -/
def header (cs : List Char) : Option (Statement × List Char) :=
  match cs with
  | '[' :: '[' :: rest => do
    let ((path, k), rest) ← key rest
    return (.elementHeader path k, ← Reader.after [']', ']'] rest)
  | '[' :: rest => do
    let ((path, k), rest) ← key rest
    return (.header path k, ← Reader.after [']'] rest)
  | _ => none

def statement : Reader Statement := fun cs =>
  match cs with
  | '[' :: _ => header cs
  | cs => (entry (value maxDepth) cs).map fun (((path, k), node), rest) => (.entry path k node, rest)

/-- One line with its end. -/
def line : Reader (Option Statement) := fun cs =>
  match statement (skipBlanks cs) with
  | some (s, rest) => (endOfLine rest).map fun rest => (some s, rest)
  | none => (endOfLine cs).map fun rest => (none, rest)

namespace Document

/-- The statements of a text that consists of complete lines. -/
def statements (cs : List Char) : Option (List Statement) :=
  let (lines, rest) := Reader.many line cs
  if rest = [] then some (lines.filterMap id) else none

/-- Enter the leading entries of some lines. -/
def fill : List Statement → Entries → Option Entries
  | .entry path k node :: rest, entries => (entries.insert path k node).bind (fill rest)
  | _, entries => some entries

/-- Enter the headers of some lines, each with the entries up to the next one. -/
def addHeaders : List Statement → Entries → Option Entries
  | [], entries => some entries
  | .entry .. :: rest, entries => addHeaders rest entries
  | .header path k :: rest, entries => (entries.openTable path k (fill rest)).bind (addHeaders rest)
  | .elementHeader path k :: rest, entries => (entries.openElement path k (fill rest)).bind (addHeaders rest)

def build (lines : List Statement) : Option Entries := (fill lines []).bind (addHeaders lines)

/-- A mark for the order of bytes may come first. -/
def skipMark : List Char → List Char
  | '\uFEFF' :: rest => rest
  | cs => cs

def parse (cs : List Char) : Option Table := ((statements (skipMark cs)).bind build).map Node.tableOf

end Document

end ManagedRuntime.Toml
