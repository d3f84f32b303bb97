import ManagedRuntime.Failure
import ManagedRuntime.Word

/-!
# Pools of counted buffers

An array is a reference to a buffer, which other references may share. A write through one reference
first gives it a buffer of its own.

* `Element` : what copying and releasing an element does to the buffers that it refers to itself.
* `Pool` : the buffers of one kind of elements; a buffer is freed when its last reference is released.
* `Pool.exclusive` : a reference that shares its buffer with no other.
* `Pool.set`, `Pool.push`, `Pool.setLength` : writes, each of which answers the reference to use from then on.
-/

namespace ManagedRuntime.SharedArray

set_option autoImplicit false

structure Buffer (α : Type) where
  items : List α
  refs : Nat

/-- A reference to a buffer of `α`: its place in the pool. -/
@[ext]
structure Ref (α : Type) where
  place : Nat

instance {α : Type} : DecidableEq (Ref α) := fun _ _ => decidable_of_iff _ Ref.ext_iff.symm

/-- The buffers of one kind of elements, and whatever their elements refer to. -/
structure Pool (α σ : Type) where
  buffers : List (Buffer α)
  beneath : σ

/--
Elements `α` over a state `σ` of what they refer to, given by literals `ι`. An element is copied as it
is; only the state learns that there is one more of it, or one less.
-/
class Element (α : Type) (σ ι : outParam Type) where
  start : σ
  /-- A new element for a literal. -/
  make : σ → ι → α × σ
  /-- The element that fills new slots. -/
  filler : σ → α × σ
  copy : σ → α → σ
  release : σ → α → σ
  same : σ → α → α → Bool
  describe : σ → α → List Char

namespace Pool

variable {α σ ι : Type}

/-! ## Buffers and counts -/

def start [Element α σ ι] : Pool α σ := ⟨[], Element.start α⟩

def read (p : Pool α σ) (r : Ref α) : Buffer α := p.buffers.getD r.place ⟨[], 0⟩

def items (p : Pool α σ) (r : Ref α) : List α := (p.read r).items

/-- How many references share the buffer. -/
def refs (p : Pool α σ) (r : Ref α) : Nat := (p.read r).refs

def write (p : Pool α σ) (r : Ref α) (b : Buffer α) : Pool α σ := { p with buffers := p.buffers.set r.place b }

/-- A new buffer with one reference; the elements become its own. -/
def alloc (p : Pool α σ) (items : List α) : Ref α × Pool α σ :=
  (⟨p.buffers.length⟩, { p with buffers := p.buffers ++ [⟨items, 1⟩] })

/-- One more reference. -/
def retain (p : Pool α σ) (r : Ref α) : Pool α σ := p.write r { p.read r with refs := p.refs r + 1 }

/-- One reference less; with the last one the elements are released as well. -/
def release [Element α σ ι] (p : Pool α σ) (r : Ref α) : Pool α σ :=
  if 1 < p.refs r then p.write r { p.read r with refs := p.refs r - 1 }
  else { p.write r ⟨[], 0⟩ with beneath := (p.items r).foldl Element.release p.beneath }

/-- Copies of all elements of a buffer. -/
def copyItems [Element α σ ι] (p : Pool α σ) (items : List α) : Pool α σ :=
  { p with beneath := items.foldl Element.copy p.beneath }

/-- A reference with the same elements that shares its buffer with no other. -/
def exclusive [Element α σ ι] (p : Pool α σ) (r : Ref α) : Ref α × Pool α σ :=
  if p.refs r = 1 then (r, p)
  else ((p.copyItems (p.items r)).write r { p.read r with refs := p.refs r - 1 }).alloc (p.items r)

/-! ## Reading -/

def length (p : Pool α σ) (r : Ref α) : Int32 := Word.saturate (p.items r).length

/-- The last index, which is -1 for an empty array. -/
def high (p : Pool α σ) (r : Ref α) : Int32 := p.length r - 1

/-- The place of an index among the elements. -/
def slot (p : Pool α σ) (r : Ref α) (index : Int32) : Except Failure Nat :=
  if 0 ≤ index.toInt ∧ index.toInt < (p.items r).length then .ok index.toInt.toNat
  else .error (.indexOutOfRange "DynArray" index (p.length r))

def get (p : Pool α σ) (r : Ref α) (index : Int32) : Except Failure α := do
  let i ← p.slot r index
  match (p.items r)[i]? with
  | some a => .ok a
  | none => .error (.indexOutOfRange "DynArray" index (p.length r))

/-- Two arrays are equal if their elements are, whatever buffers hold them. -/
def same [Element α σ ι] (p : Pool α σ) (r s : Ref α) : Bool :=
  (p.items r).length = (p.items s).length &&
    ((p.items r).zip (p.items s)).all fun (a, b) => Element.same p.beneath a b

/-- The described elements between brackets. -/
def describe [Element α σ ι] (p : Pool α σ) (r : Ref α) : List Char :=
  '[' :: [',', ' '].intercalate ((p.items r).map (Element.describe p.beneath)) ++ [']']

/-! ## Independent arrays -/

/-- A new array with one element for each literal. -/
def ofLiterals [Element α σ ι] (p : Pool α σ) (literals : List ι) : Ref α × Pool α σ :=
  let (items, beneath) := literals.foldl (fun (items, s) l =>
    let (a, s) := Element.make s l
    (items ++ [a], s)) ([], p.beneath)
  { p with beneath }.alloc items

/-- A new array with some of the elements of others. -/
def ofCopies [Element α σ ι] (p : Pool α σ) (items : List α) : Ref α × Pool α σ :=
  (p.copyItems items).alloc items

def deepCopy [Element α σ ι] (p : Pool α σ) (r : Ref α) : Ref α × Pool α σ := p.ofCopies (p.items r)

/-- At most `count` elements from `first` on; negative arguments give an empty array. -/
def range (items : List α) (first count : Int32) : List α :=
  if first < 0 ∨ count < 0 then [] else (items.drop first.toInt.toNat).take count.toInt.toNat

def copyRange [Element α σ ι] (p : Pool α σ) (r : Ref α) (first count : Int32) : Ref α × Pool α σ :=
  p.ofCopies (range (p.items r) first count)

/-! ## Writing -/

/-- Replace the elements of a buffer that is shared with no other reference. -/
def replace (p : Pool α σ) (r : Ref α) (items : List α) : Pool α σ := p.write r { p.read r with items }

/-- Put `a` in the place of the element at `i`, which is released. -/
def store [Element α σ ι] (p : Pool α σ) (r : Ref α) (i : Nat) (a : α) : Pool α σ :=
  let beneath := ((p.items r)[i]?.map (Element.release p.beneath)).getD p.beneath
  { p.replace r ((p.items r).set i a) with beneath }

def set [Element α σ ι] (p : Pool α σ) (r : Ref α) (index : Int32) (literal : ι) :
    Except Failure (Ref α × Pool α σ) := do
  let i ← p.slot r index
  let (r, p) := p.exclusive r
  let (a, beneath) := Element.make p.beneath literal
  return (r, { p with beneath }.store r i a)

def push [Element α σ ι] (p : Pool α σ) (r : Ref α) (literal : ι) : Ref α × Pool α σ :=
  let (r, p) := p.exclusive r
  let (a, beneath) := Element.make p.beneath literal
  (r, { p with beneath }.replace r (p.items r ++ [a]))

/-- Fill up with `n + 1` copies of one new element. -/
def grow [Element α σ ι] (p : Pool α σ) (r : Ref α) (n : Nat) : Pool α σ :=
  let (a, beneath) := Element.filler p.beneath
  { p.replace r (p.items r ++ List.replicate (n + 1) a) with
    beneath := (List.replicate n a).foldl Element.copy beneath }

/-- Release the elements from `n` on. -/
def shrink [Element α σ ι] (p : Pool α σ) (r : Ref α) (n : Nat) : Pool α σ :=
  { p.replace r ((p.items r).take n) with beneath := ((p.items r).drop n).foldl Element.release p.beneath }

/-- The present length is no write. -/
def setLength [Element α σ ι] (p : Pool α σ) (r : Ref α) (newLength : Int32) : Except Failure (Ref α × Pool α σ) :=
  let n := newLength.toInt.toNat
  let old := (p.items r).length
  if newLength < 0 then .error (.invalidArgument "SetLength: negative length")
  else if n = old then .ok (r, p)
  else
    let (r, p) := p.exclusive r
    .ok (r, if old < n then p.grow r (n - old - 1) else p.shrink r n)

end Pool

end ManagedRuntime.SharedArray
