import ManagedRuntime.Toml.Value

/-!
# Tables

* `Node` : a value together with how its tables came to be;
* `Node.value` : the value alone;
* `insert` : a value under a key whose leading parts name tables;
* `openTable`, `openElement` : the table of a header, filled with the lines that follow it.

A key stands for one thing only: `insert` and the headers fail where a document would define something twice.
-/

namespace ManagedRuntime.Toml

set_option autoImplicit false

/-- How a table came to be. -/
inductive Origin where
  /-- As the leading part of a header. -/
  | implied
  /-- As the leading part of a key. -/
  | dotted
  | header
  | inline
deriving DecidableEq

inductive Node where
  | text (s : String)
  | integer (i : Int)
  | float (x : Binary64)
  | boolean (b : Bool)
  /-- A date, a time, or both, as it is written. -/
  | moment (spelling : String)
  | array (items : List Node)
  | table (origin : Origin) (entries : List (String × Node))
  /-- The tables of a header between double brackets. -/
  | tables (elements : List (List (String × Node)))

abbrev Entries := List (String × Node)

/-! ## Values of nodes -/

mutual

def Node.value : Node → Value
  | .text s => .text s
  | .integer i => .integer i
  | .float x => .float x
  | .boolean b => .boolean b
  | .moment spelling => .moment spelling
  | .array items => .array (Node.values items)
  | .table _ entries => .table (Node.tableOf entries)
  | .tables elements => .array (Node.tablesOf elements)

def Node.values : List Node → List Value
  | [] => []
  | node :: items => node.value :: Node.values items

def Node.tableOf : List (String × Node) → Table
  | [] => []
  | (k, node) :: entries => (k, node.value) :: Node.tableOf entries

def Node.tablesOf : List (List (String × Node)) → List Value
  | [] => []
  | entries :: elements => .table (Node.tableOf entries) :: Node.tablesOf elements

end

theorem Node.values_eq (items : List Node) : Node.values items = items.map Node.value := by
  induction items with
  | nil => rfl
  | cons node items ih => rw [Node.values, ih, List.map_cons]

theorem Node.tableOf_eq (entries : Entries) : Node.tableOf entries = entries.map fun (k, node) => (k, node.value) := by
  induction entries with
  | nil => rfl
  | cons e entries ih => rw [Node.tableOf, ih, List.map_cons]

theorem Node.tablesOf_eq (elements : List Entries) :
    Node.tablesOf elements = elements.map fun entries => .table (Node.tableOf entries) := by
  induction elements with
  | nil => rfl
  | cons entries elements ih => rw [Node.tablesOf, ih, List.map_cons]

/-! ## Building tables -/

namespace Entries

/-- Put another node in the place of the one that a key stands for. -/
def replace (entries : Entries) (k : String) (node : Node) : Entries :=
  entries.map fun (k', old) => if k' = k then (k', node) else (k', old)

def add (entries : Entries) (k : String) (node : Node) : Entries := entries ++ [(k, node)]

/-- Change the last table of an array of tables. -/
def inLast (elements : List Entries) (change : Entries → Option Entries) : Option (List Entries) :=
  (change (elements.getLastD [])).map fun last => elements.dropLast ++ [last]

/-- A new value under a key. -/
def insertHere (entries : Entries) (k : String) (node : Node) : Option Entries :=
  match entries.lookup k with
  | none => some (entries.add k node)
  | some _ => none

/--
A new value below the tables that the leading parts of a key name. The innermost of these must come from
keys, the others may come from headers that do not name them.
-/
def insert (entries : Entries) : List String → String → Node → Option Entries
  | [], k, node => entries.insertHere k node
  | part :: path, k, node =>
    match entries.lookup part with
    | none => (insert [] path k node).map fun sub => entries.add part (.table .dotted sub)
    | some (.table .dotted sub) => (insert sub path k node).map fun sub => entries.replace part (.table .dotted sub)
    | some (.table .implied sub) =>
      if path = [] then none
      else (insert sub path k node).map fun sub => entries.replace part (.table .implied sub)
    | some (.tables elements) =>
      if path = [] then none
      else
        (inLast elements fun sub => insert sub path k node).map fun elements =>
          entries.replace part (.tables elements)
    | some _ => none

/-- Change the table below the leading parts of a header. -/
def below (entries : Entries) : List String → (Entries → Option Entries) → Option Entries
  | [], change => change entries
  | part :: path, change =>
    match entries.lookup part with
    | none => (below [] path change).map fun sub => entries.add part (.table .implied sub)
    | some (.table .inline _) => none
    | some (.table origin sub) => (below sub path change).map fun sub => entries.replace part (.table origin sub)
    | some (.tables elements) =>
      (inLast elements fun sub => below sub path change).map fun elements => entries.replace part (.tables elements)
    | some _ => none

/-- The table of a header, which no other header and no key has defined. -/
def openTable (entries : Entries) (path : List String) (k : String) (fill : Entries → Option Entries) :
    Option Entries :=
  entries.below path fun entries =>
    match entries.lookup k with
    | none => (fill []).map fun sub => entries.add k (.table .header sub)
    | some (.table .implied sub) => (fill sub).map fun sub => entries.replace k (.table .header sub)
    | some _ => none

/-- One more table for an array of tables. -/
def openElement (entries : Entries) (path : List String) (k : String) (fill : Entries → Option Entries) :
    Option Entries :=
  entries.below path fun entries =>
    match entries.lookup k with
    | none => (fill []).map fun sub => entries.add k (.tables [sub])
    | some (.tables elements) => (fill []).map fun sub => entries.replace k (.tables (elements ++ [sub]))
    | some _ => none

end Entries

end ManagedRuntime.Toml
