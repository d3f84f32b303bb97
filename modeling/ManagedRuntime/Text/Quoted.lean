import ManagedRuntime.Text.Encoding
import ManagedRuntime.Text.Printable

/-!
# Quoted texts

* `Quoted.escape` : the spelling of one character between double quotes.
* `Quoted.quote` : a list of characters between double quotes.
* `Text.describe` : a text shown for inspection.
-/

namespace ManagedRuntime

set_option autoImplicit false

namespace Quoted

/-- The code point in small hexadecimal digits between braces. -/
def byCodePoint (c : Char) : List Char := "\\u\x7b".toList ++ Nat.toDigits 16 c.toNat ++ ['\x7d']

/-- A single quote stands for itself; what is not printable is given by its code point. -/
def escape (c : Char) : List Char :=
  match c with
  | '\x00' => ['\\', '0']
  | '\t' => ['\\', 't']
  | '\n' => ['\\', 'n']
  | '\r' => ['\\', 'r']
  | '"' => ['\\', '"']
  | '\\' => ['\\', '\\']
  | c => if Printable.isPrintable c then [c] else byCodePoint c

def quote (cs : List Char) : List Char := '"' :: cs.flatMap escape ++ ['"']

end Quoted

/-- The quoted characters of the text behind the name of its type. -/
def Text.describe (t : Text) : List Char := "Text(".toList ++ Quoted.quote t.characters ++ [')']

end ManagedRuntime
