import ManagedRuntime.Number.Binary64

/-!
# Values

* `Value` : what a key of a document stands for;
* `Table` : keys with their values.
-/

namespace ManagedRuntime.Toml

set_option autoImplicit false

inductive Value where
  | text (s : String)
  | integer (i : Int)
  | float (x : Binary64)
  | boolean (b : Bool)
  /-- A date, a time, or both, as it is written. -/
  | moment (spelling : String)
  | array (items : List Value)
  | table (entries : List (String × Value))

abbrev Table := List (String × Value)

end ManagedRuntime.Toml
