import ManagedRuntime.Text.Basic
import ManagedRuntime.Utf16
import ManagedRuntime.Utf8

/-!
# Texts in other encodings

* `Text.characters` : the characters of a text, unpaired surrogates left out.
* `Text.ofOctets`, `Text.toOctets` : texts and UTF-8; what is ill-formed on one side is missing on the other.
* `Text.ofCodePoints`, `Text.toCodePoints` : texts and lists of code points; a number that is no
  character reads as U+FFFD.
-/

namespace ManagedRuntime.Text

set_option autoImplicit false

def ofCharacters (cs : List Char) : Text := ⟨Utf16.encode cs⟩

def ofString (s : String) : Text := ofCharacters s.toList

def characters (t : Text) : List Char := Utf16.decode t.units

def toString (t : Text) : String := String.ofList t.characters

/-! ## UTF-8 -/

def ofOctets (octets : List UInt8) : Text := ofCharacters (Utf8.decode octets)

def toOctets (t : Text) : List UInt8 := Utf8.encode t.characters

/-! ## Code points -/

/-- The character of a code point, U+FFFD where there is none. -/
def characterOf (codePoint : UInt32) : Char :=
  if h : codePoint.isValidChar then ⟨codePoint, h⟩ else Char.ofNat 0xFFFD

def ofCodePoints (codePoints : List UInt32) : Text := ofCharacters (codePoints.map characterOf)

def toCodePoints (t : Text) : List UInt32 := t.characters.map Char.val

end ManagedRuntime.Text
