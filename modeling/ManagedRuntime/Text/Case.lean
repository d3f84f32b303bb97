import ManagedRuntime.Text.Basic

/-!
# Letter case

Only the 26 letters of ASCII have a case here; every other unit is left as it is.

* `Text.upperCase`, `Text.lowerCase` : a text with all its letters in one case.
-/

namespace ManagedRuntime.Text

set_option autoImplicit false

def upperUnit (u : UInt16) : UInt16 := if 0x61 ≤ u ∧ u ≤ 0x7A then u - 32 else u

def lowerUnit (u : UInt16) : UInt16 := if 0x41 ≤ u ∧ u ≤ 0x5A then u + 32 else u

def upperCase (t : Text) : Text := ⟨t.units.map upperUnit⟩

def lowerCase (t : Text) : Text := ⟨t.units.map lowerUnit⟩

end ManagedRuntime.Text
