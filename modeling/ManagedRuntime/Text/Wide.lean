import ManagedRuntime.Text.Encoding

/-!
# Texts and wide strings

* `WideStrings` : the wide strings of a host, which hold any numbers, and how they are made and read;
* `Text.toWide`, `Text.ofWide` : a text as a wide string and back, each time by way of a string of characters.
-/

namespace ManagedRuntime

set_option autoImplicit false

/-- What a host does to make and to read its wide strings. -/
structure WideStrings where
  ofString : String → List UInt32
  toStringLossy : List UInt32 → String
  /-- A wide string is made of the code points of the characters. -/
  val_ofString : ∀ s, ofString s = s.toList.map Char.val
  /-- A number that is no character is read as U+FFFD. -/
  toList_toStringLossy : ∀ ws, (toStringLossy ws).toList = ws.map Text.characterOf

/-- A host that does no more than it has to. -/
def WideStrings.plain : WideStrings where
  ofString s := s.toList.map Char.val
  toStringLossy ws := String.ofList (ws.map Text.characterOf)
  val_ofString _ := rfl
  toList_toStringLossy _ := String.toList_ofList

namespace Text

variable (host : WideStrings)

def toWide (t : Text) : List UInt32 := host.ofString t.toString

def ofWide (ws : List UInt32) : Text := ofString (host.toStringLossy ws)

theorem toWide_eq (t : Text) : t.toWide host = t.toCodePoints := by
  rw [toWide, host.val_ofString, toString, String.toList_ofList, toCodePoints]

theorem ofWide_eq (ws : List UInt32) : ofWide host ws = ofCodePoints ws := by
  rw [ofWide, ofString, host.toList_toStringLossy, ofCodePoints]

end Text

end ManagedRuntime
