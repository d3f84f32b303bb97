import ManagedRuntime.Word

/-!
# Finite sets

* `FiniteSet` : a list of distinct members; the order in which it holds them means nothing.
* `FiniteSet.union`, `FiniteSet.diff`, `FiniteSet.inter` : new sets, made from both operands.
* `FiniteSet.absorb`, `FiniteSet.removeAll`, `FiniteSet.retainAll` : the same sets, made by changing the
  first operand.
* `FiniteSet.compare?` : inclusion as a partial order.
-/

namespace ManagedRuntime

set_option autoImplicit false

structure FiniteSet (α : Type) where
  elements : List α
  nodup : elements.Nodup

namespace FiniteSet

variable {α : Type} [DecidableEq α]

instance : Membership α (FiniteSet α) := ⟨fun s a => a ∈ s.elements⟩

def contains (s : FiniteSet α) (a : α) : Bool := s.elements.contains a

def empty : FiniteSet α := ⟨[], List.nodup_nil⟩

/-- The number of members as a word. -/
def size (s : FiniteSet α) : Int32 := Word.saturate s.elements.length

def isEmpty (s : FiniteSet α) : Bool := s.elements.isEmpty

/-! ## One member -/

def insert (s : FiniteSet α) (a : α) : FiniteSet α :=
  if h : a ∈ s.elements then s else ⟨a :: s.elements, List.nodup_cons.2 ⟨h, s.nodup⟩⟩

/-- The members on which `p` holds. -/
def filter (s : FiniteSet α) (p : α → Bool) : FiniteSet α := ⟨s.elements.filter p, s.nodup.filter p⟩

def erase (s : FiniteSet α) (a : α) : FiniteSet α := s.filter (· ≠ a)

/-! ## Many members -/

def insertAll (s : FiniteSet α) (members : List α) : FiniteSet α := members.foldl insert s

def ofList (members : List α) : FiniteSet α := insertAll empty members

def union (s t : FiniteSet α) : FiniteSet α := ofList (s.elements ++ t.elements.filter fun a => !s.contains a)

def diff (s t : FiniteSet α) : FiniteSet α := ofList (s.elements.filter fun a => !t.contains a)

def inter (s t : FiniteSet α) : FiniteSet α := ofList (s.elements.filter t.contains)

def absorb (s t : FiniteSet α) : FiniteSet α := s.insertAll t.elements

def removeAll (s t : FiniteSet α) : FiniteSet α := s.filter fun a => !t.contains a

def retainAll (s t : FiniteSet α) : FiniteSet α := s.filter t.contains

/-! ## Comparison -/

def isSubset (s t : FiniteSet α) : Bool := s.elements.length ≤ t.elements.length && s.elements.all t.contains

def isSuperset (s t : FiniteSet α) : Bool := t.isSubset s

/-- Equal sets have the same members. -/
def same (s t : FiniteSet α) : Bool := s.elements.length = t.elements.length && s.elements.all t.contains

/-- Sets of which neither includes the other are not comparable. -/
def compare? (s t : FiniteSet α) : Option Ordering :=
  match s.isSubset t, s.isSuperset t with
  | true, true => some .eq
  | true, false => some .lt
  | false, true => some .gt
  | false, false => none

def le (s t : FiniteSet α) : Bool := s.compare? t = some .lt ∨ s.compare? t = some .eq

def lt (s t : FiniteSet α) : Bool := s.compare? t = some .lt

def ge (s t : FiniteSet α) : Bool := s.compare? t = some .gt ∨ s.compare? t = some .eq

def gt (s t : FiniteSet α) : Bool := s.compare? t = some .gt

/-! ## Display -/

/-- The members in ascending order. -/
def sorted [Ord α] (s : FiniteSet α) : List α := s.elements.mergeSort fun a b => (compare a b).isLE

/-- The described members between braces. -/
def describe (member : α → List Char) (s : FiniteSet α) : List Char :=
  '\x7b' :: [',', ' '].intercalate (s.elements.map member) ++ ['\x7d']

end FiniteSet

end ManagedRuntime
