import ManagedRuntime.Text.Basic

/-!
# Blanks

Two classes of blanks are in use: the six space units, which the trimming of texts and the prefixes of
numbers know, and the characters with the Unicode property `White_Space`, which may surround a text that
is read as a whole number.

* `Text.trimLeft`, `Text.trimRight`, `Text.trim` : a text without the space units at its ends.
* `Blank.strip` : a list of characters without the `White_Space` at its ends.
-/

namespace ManagedRuntime

set_option autoImplicit false

namespace Blank

/-- Space, horizontal and vertical tab, line feed, form feed and carriage return. -/
def isSpace (u : UInt16) : Bool := u = 0x20 || 0x09 ≤ u && u ≤ 0x0D

/-- The ranges of the property `White_Space`. -/
def whiteSpace : List (Nat × Nat) :=
  [(0x09, 0x0D), (0x20, 0x20), (0x85, 0x85), (0xA0, 0xA0), (0x1680, 0x1680), (0x2000, 0x200A), (0x2028, 0x2029),
    (0x202F, 0x202F), (0x205F, 0x205F), (0x3000, 0x3000)]

def isWhiteSpace (c : Char) : Bool := whiteSpace.any fun (low, high) => low ≤ c.toNat && c.toNat ≤ high

/-- Drop the longest end on which `p` holds. -/
def dropEnd {α : Type} (p : α → Bool) (xs : List α) : List α := (xs.reverse.dropWhile p).reverse

def stripStart (cs : List Char) : List Char := cs.dropWhile isWhiteSpace

def strip (cs : List Char) : List Char := dropEnd isWhiteSpace (stripStart cs)

end Blank

namespace Text

def trimLeft (t : Text) : Text := ⟨t.units.dropWhile Blank.isSpace⟩

def trimRight (t : Text) : Text := ⟨Blank.dropEnd Blank.isSpace t.units⟩

def trim (t : Text) : Text := t.trimLeft.trimRight

end Text

end ManagedRuntime
