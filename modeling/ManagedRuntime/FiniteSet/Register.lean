import ManagedRuntime.FiniteSet

/-!
# Named sets

* `FiniteSet.Registers` : sets under names;
* `FiniteSet.Command` : the operations on named sets;
* `FiniteSet.Command.run` : what a command answers and the sets after it.
-/

namespace ManagedRuntime.FiniteSet

set_option autoImplicit false

abbrev Registers (α : Type) := List (String × FiniteSet α)

variable {α : Type} [DecidableEq α]

namespace Registers

/-- A name without a set reads as the empty set. -/
def read (rs : Registers α) (name : String) : FiniteSet α := (rs.lookup name).getD empty

def write (rs : Registers α) (name : String) (s : FiniteSet α) : Registers α :=
  (name, s) :: rs.filter (·.1 ≠ name)

end Registers

/-- Ways to make one set of two. -/
inductive Combination where
  | union
  | diff
  | inter
deriving DecidableEq

/-- A new set. -/
def Combination.make : Combination → FiniteSet α → FiniteSet α → FiniteSet α
  | .union => FiniteSet.union
  | .diff => FiniteSet.diff
  | .inter => FiniteSet.inter

/-- The first set, changed. -/
def Combination.change : Combination → FiniteSet α → FiniteSet α → FiniteSet α
  | .union => FiniteSet.absorb
  | .diff => FiniteSet.removeAll
  | .inter => FiniteSet.retainAll

inductive Comparison where
  | same
  | le
  | lt
  | ge
  | gt
  | isSubset
  | isSuperset
deriving DecidableEq

def Comparison.holds : Comparison → FiniteSet α → FiniteSet α → Bool
  | .same => FiniteSet.same
  | .le => FiniteSet.le
  | .lt => FiniteSet.lt
  | .ge => FiniteSet.ge
  | .gt => FiniteSet.gt
  | .isSubset => FiniteSet.isSubset
  | .isSuperset => FiniteSet.isSuperset

inductive Command (α : Type) where
  | create (name : String)
  | ofList (name : String) (members : List α)
  | assign (name source : String)
  | combine (c : Combination) (name a b : String)
  /-- The same with a copy of the first set, which is changed. -/
  | combineChanging (c : Combination) (name a b : String)
  | insert (name : String) (a : α)
  | erase (name : String) (a : α)
  | insertAll (name : String) (members : List α)
  | contains (name : String) (a : α)
  | size (name : String)
  | isEmpty (name : String)
  | describe (name : String)
  | compare (c : Comparison) (a b : String)
  | order (a b : String)

inductive Reply (α : Type) where
  | members (s : FiniteSet α)
  | truth (b : Bool)
  | word (w : Int32)
  | ordering (o : Option Ordering)
  | characters (cs : List Char)

namespace Command

/-- The answer of a command that writes a set. -/
def writing (rs : Registers α) (name : String) (s : FiniteSet α) : Reply α × Registers α :=
  (.members s, rs.write name s)

def run (member : α → List Char) (rs : Registers α) : Command α → Reply α × Registers α
  | .create name => writing rs name empty
  | .ofList name members => writing rs name (FiniteSet.ofList members)
  | .assign name source => writing rs name (rs.read source)
  | .combine c name a b => writing rs name (c.make (rs.read a) (rs.read b))
  | .combineChanging c name a b => writing rs name (c.change (rs.read a) (rs.read b))
  | .insert name a => writing rs name ((rs.read name).insert a)
  | .erase name a => writing rs name ((rs.read name).erase a)
  | .insertAll name members => writing rs name ((rs.read name).insertAll members)
  | .contains name a => (.truth ((rs.read name).contains a), rs)
  | .size name => (.word (rs.read name).size, rs)
  | .isEmpty name => (.truth (rs.read name).isEmpty, rs)
  | .describe name => (.characters ((rs.read name).describe member), rs)
  | .compare c a b => (.truth (c.holds (rs.read a) (rs.read b)), rs)
  | .order a b => (.ordering ((rs.read a).compare? (rs.read b)), rs)

end Command

end ManagedRuntime.FiniteSet
