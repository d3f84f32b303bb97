import ManagedRuntime.Checked
import ManagedRuntime.Text.Basic

/-!
# Texts by checked steps

The operations on texts that take an index or a count, each as a machine with sizes of so many bits computes it from
words: every sum, every difference, every size and every range is checked.
-/

namespace ManagedRuntime.Text

set_option autoImplicit false

open Checked

def lengthChecked (t : Text) : Int32 := (toWord? t.units.length).getD Int32.maxValue

/-! ## One unit -/

/-- A refusal is an answer, and the computation is not stuck. -/
def slotChecked (t : Text) (index : Int32) : Except Stuck (Except Failure Nat) :=
  if index < 1 ∨ t.lengthChecked < index then .ok (.error (.indexOutOfRange "String" index t.lengthChecked))
  else do return .ok (← toSize (← sub index 1))

def charAtChecked (t : Text) (index : Int32) : Except Stuck (Except Failure UInt16) := do
  match ← t.slotChecked index with
  | .error f => return .error f
  | .ok i => return .ok (← item t.units i)

def setCharChecked (t : Text) (index : Int32) (u : UInt16) : Except Stuck (Except Failure Text) := do
  match ← t.slotChecked index with
  | .error f => return .error f
  | .ok i => return .ok ⟨t.units.set (← place t.units i) u⟩

/-! ## Editing by index -/

section Editing

variable (bits : Nat)

def copyChecked (t : Text) (start count : Int32) : Except Stuck Text :=
  let start := max start 1
  let length := t.lengthChecked
  if length < start then .ok empty
  else do
    let count := min count (← add (← sub length start) 1)
    if count ≤ 0 then return empty
    else
      let first ← toSize (← sub start 1)
      return ⟨← slice t.units first (← addSizes bits first (← toSize count))⟩

def deleteChecked (t : Text) (index count : Int32) : Except Stuck Text :=
  let length := t.lengthChecked
  if index < 1 ∨ count ≤ 0 then .ok t
  else if length < index then .ok t
  else do
    let count := min count (← add (← sub length index) 1)
    let first ← toSize (← sub index 1)
    return ⟨← splice t.units first (← addSizes bits first (← toSize count)) []⟩

end Editing

def insertChecked (t source : Text) (index : Int32) : Except Stuck Text :=
  if index < 1 then .ok t
  else if t.lengthChecked < index then .ok ⟨t.units ++ source.units⟩
  else do
    let first ← toSize (← sub index 1)
    return ⟨← splice t.units first first source.units⟩

def ofBufferChecked (buffer : List UInt16) (count : Int32) : Except Stuck Text := do
  return ⟨← slice buffer 0 (min ((toSize? count).getD 0) buffer.length)⟩

end ManagedRuntime.Text
