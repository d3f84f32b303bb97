import ManagedRuntime.Number.Decimal

/-!
# Layout

Printed numbers can be set flush right in a field of blanks. A field width or a number of decimals that
does not fit 16 bits is no layout.

* `Layout.padded` : a body behind the blanks that bring it to a width.
* `Layout.integer` : a word in a field.
-/

namespace ManagedRuntime.Layout

set_option autoImplicit false

/-- The reason why a layout is refused. -/
inductive Refusal where
  | argumentOutOfRange
deriving DecidableEq

def Refusal.message : Refusal → String
  | .argumentOutOfRange => "Formatting argument out of range"

/-- The largest width and the largest number of decimals. -/
def limit : Nat := 65535

def bounded (n : Nat) : Except Refusal Nat := if n ≤ limit then .ok n else .error .argumentOutOfRange

def padded (width : Nat) (body : List Char) : Except Refusal (List Char) :=
  (bounded width).map fun width => List.replicate (width - body.length) ' ' ++ body

/-- A negative width counts as zero. -/
def integer (w width : Int32) : Except Refusal Text :=
  (padded (Word.toSize width) (Decimal.digits w)).map Text.ofCharacters

end ManagedRuntime.Layout
