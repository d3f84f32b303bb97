import ManagedRuntime.Text.Encoding

/-!
# Concatenation

* `Text.extend`, `Text.addString` : a text with further units, or with those of a string, behind its own;
* `Text.Concatenation` : the forms in which one text is put behind another, by what becomes of the two texts.
-/

namespace ManagedRuntime.Text

set_option autoImplicit false

/-- Units are put behind those of a text. -/
def extend (t : Text) (units : List UInt16) : Text := ⟨t.units ++ units⟩

def addString (t : Text) (s : String) : Text := t.extend (Utf16.encode s.toList)

/-- Who goes on to own the two texts. -/
inductive Concatenation where
  /-- Both texts are lent, and a new one takes the units of the one and then of the other. -/
  | ofLent
  /-- The first text is extended in its place by one that is lent. -/
  | inPlace
  /-- The first text is extended in its place by one that is given away. -/
  | inPlaceOfGiven
  /-- The first text is given away and extended by one that is lent. -/
  | ofGiven
  /-- Both texts are given away, and the first is extended. -/
  | ofBothGiven
deriving DecidableEq

/-- Only where both texts are lent a new text is made. -/
def Concatenation.run (s t : Text) : Concatenation → Text
  | .ofLent => (empty.extend s.units).extend t.units
  | .inPlace | .inPlaceOfGiven | .ofGiven | .ofBothGiven => s.extend t.units

end ManagedRuntime.Text
