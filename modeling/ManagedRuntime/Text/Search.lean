import ManagedRuntime.Text.Basic

/-!
# Searching

* `Text.firstMatch` : how many units stand before the first occurrence of a list of units.
* `Text.position` : where a text first occurs in another, counted from 1, and 0 if it does not occur.
-/

namespace ManagedRuntime.Text

set_option autoImplicit false

def firstMatch (needle : List UInt16) : List UInt16 → Option Nat
  | [] => if needle.isEmpty then some 0 else none
  | u :: rest =>
    if needle.isPrefixOf (u :: rest) then some 0 else (firstMatch needle rest).map (· + 1)

/-- An empty needle is at 1; a position that is no word counts as absent. -/
def position (needle haystack : Text) : Int32 :=
  match firstMatch needle.units haystack.units with
  | some before => if before < Word.largest then Word.saturate (before + 1) else 0
  | none => 0

end ManagedRuntime.Text
