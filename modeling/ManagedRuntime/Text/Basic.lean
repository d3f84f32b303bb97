import ManagedRuntime.Failure
import ManagedRuntime.Word

/-!
# Texts

* `Text` : a sequence of UTF-16 code units, counted from 1.
* `Text.length` : the number of units as a word.
* `Text.charAt`, `Text.setChar` : one unit, refused outside `1 … length`.
* `Text.copy`, `Text.delete`, `Text.insert`, `Text.setLength` : editing by index, which bounds its
  arguments and never refuses.
-/

namespace ManagedRuntime

set_option autoImplicit false

/-- A text is any sequence of UTF-16 code units; unpaired surrogates are kept. -/
structure Text where
  units : List UInt16
deriving DecidableEq, Inhabited

namespace Text

def empty : Text := ⟨[]⟩

def isEmpty (t : Text) : Bool := t.units.isEmpty

def length (t : Text) : Int32 := Word.saturate t.units.length

/-- The text of a single unit. -/
def ofUnit (u : UInt16) : Text := ⟨[u]⟩

def append (s t : Text) : Text := ⟨s.units ++ t.units⟩

instance : Append Text := ⟨append⟩

@[simp] theorem units_append (s t : Text) : (s ++ t).units = s.units ++ t.units := rfl

def push (t : Text) (u : UInt16) : Text := ⟨t.units ++ [u]⟩

/-- `count` copies of a unit, none for a negative count. -/
def replicate (u : UInt16) (count : Int32) : Text := ⟨List.replicate (Word.toSize count) u⟩

/-- The first `count` units of a buffer, all of them if it has fewer. -/
def ofBuffer (buffer : List UInt16) (count : Int32) : Text := ⟨buffer.take (Word.toSize count)⟩

/-- Texts are ordered by code units, a beginning before the whole. -/
instance : Ord Text := ⟨fun s t => compare s.units t.units⟩

/-! ## One unit -/

/-- The place of a unit counted from 1 in the list of units. -/
def slot (t : Text) (index : Int32) : Except Failure Nat :=
  if 1 ≤ index.toInt ∧ index.toInt ≤ t.length.toInt then .ok (index.toInt - 1).toNat
  else .error (.indexOutOfRange "String" index t.length)

def charAt (t : Text) (index : Int32) : Except Failure UInt16 :=
  (t.slot index).map fun i => t.units.getD i 0

def setChar (t : Text) (index : Int32) (u : UInt16) : Except Failure Text :=
  (t.slot index).map fun i => ⟨t.units.set i u⟩

/-! ## Editing by index -/

/-- Cut to a length, or fill up with zero units; a negative length is zero. -/
def setLength (t : Text) (newLength : Int32) : Text :=
  let n := Word.toSize newLength
  ⟨t.units.take n ++ List.replicate (n - t.units.length) 0⟩

/-- At most `count` units from `start` on, a start below 1 standing for 1. -/
def copy (t : Text) (start count : Int32) : Text :=
  let first := max start.toInt 1
  let available := t.length.toInt - first + 1
  ⟨(t.units.drop (first - 1).toNat).take (min count.toInt available).toNat⟩

/-- Take out at most `count` units from `index` on; an index outside the text takes out nothing. -/
def delete (t : Text) (index count : Int32) : Text :=
  if index.toInt < 1 ∨ count.toInt ≤ 0 ∨ t.length.toInt < index.toInt then t
  else
    let before := (index.toInt - 1).toNat
    let removed := (min count.toInt (t.length.toInt - index.toInt + 1)).toNat
    ⟨t.units.take before ++ t.units.drop (before + removed)⟩

/-- Put `source` before `index`: nothing happens below 1, and past the end it is appended. -/
def insert (t source : Text) (index : Int32) : Text :=
  if index.toInt < 1 then t
  else if t.length.toInt < index.toInt then t ++ source
  else
    let before := (index.toInt - 1).toNat
    ⟨t.units.take before ++ source.units ++ t.units.drop before⟩

end Text

end ManagedRuntime
