import ManagedRuntime.Checked
import ManagedRuntime.SharedArray.Pool

/-!
# Arrays by checked steps

The operations on arrays that take an index or a count, each as a machine with sizes of so many bits computes it.
-/

namespace ManagedRuntime.SharedArray.Pool

set_option autoImplicit false

open Checked

variable {α σ ι : Type}

def lengthChecked (p : Pool α σ) (r : Ref α) : Int32 := (toWord? (p.items r).length).getD Int32.maxValue

/-- An index is compared as a size with the true number of elements, of which there may be more than words. -/
def slotChecked (p : Pool α σ) (r : Ref α) (index : Int32) : Except Failure Nat :=
  match toSize? index with
  | some i => if i < (p.items r).length then .ok i else .error (.indexOutOfRange "DynArray" index (p.lengthChecked r))
  | none => .error (.indexOutOfRange "DynArray" index (p.lengthChecked r))

def getChecked (p : Pool α σ) (r : Ref α) (index : Int32) : Except Stuck (Except Failure α) := do
  match p.slotChecked r index with
  | .error f => return .error f
  | .ok i => return .ok (← item (p.items r) i)

/-- The place is looked up once more in the buffer that is written. -/
def setChecked [Element α σ ι] (p : Pool α σ) (r : Ref α) (index : Int32) (literal : ι) :
    Except Stuck (Except Failure (Ref α × Pool α σ)) := do
  match p.slotChecked r index with
  | .error f => return .error f
  | .ok i =>
    let (r, p) := p.exclusive r
    let (a, beneath) := Element.make p.beneath literal
    return .ok (r, { p with beneath }.store r (← place (p.items r) i) a)

def copyRangeChecked [Element α σ ι] (bits : Nat) (p : Pool α σ) (r : Ref α) (first count : Int32) :
    Except Stuck (Ref α × Pool α σ) :=
  match toSize? first, toSize? count with
  | some first, some count =>
    if (p.items r).length ≤ first then .ok (p.alloc [])
    else do
      let behind ← addSizes bits first (min count (← subSizes (p.items r).length first))
      return p.ofCopies (← slice (p.items r) first behind)
  | _, _ => .ok (p.alloc [])

end ManagedRuntime.SharedArray.Pool
