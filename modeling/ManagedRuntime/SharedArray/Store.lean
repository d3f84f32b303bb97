import ManagedRuntime.SharedArray.Pool

/-!
# Named arrays

* `Store` : arrays under names, with the pool that holds their buffers.
* `Command` : the operations on named arrays, for every kind of elements.
* `Store.run` : what a command answers and the store after it; a refused command leaves the store as it was.
-/

namespace ManagedRuntime.SharedArray

set_option autoImplicit false

structure Store (α σ : Type) where
  pool : Pool α σ
  handles : List (String × Ref α)

/-- Commands over literals `ι`. -/
inductive Command (ι : Type) where
  | create (h : String)
  | ofList (h : String) (items : List ι)
  /-- A second reference to the same buffer. -/
  | assign (h source : String)
  | deepCopy (h source : String)
  | copyRange (h source : String) (first count : Int32)
  | forget (h : String)
  | setLength (h : String) (n : Int32)
  | get (h : String) (index : Int32)
  | set (h : String) (index : Int32) (value : ι)
  | push (h : String) (value : ι)
  | length (h : String)
  | low (h : String)
  | high (h : String)
  | isEmpty (h : String)
  | refCount (h : String)
  | isShared (h : String)
  | items (h : String)
  | describe (h : String)
  | same (h other : String)

inductive Reply (α : Type) where
  | done
  | element (a : α)
  | elements (items : List α)
  | word (w : Int32)
  | count (n : Nat)
  | truth (b : Bool)
  | characters (cs : List Char)

namespace Store

variable {α σ ι : Type}

def empty [Element α σ ι] : Store α σ := ⟨.start, []⟩

/-- The array of a name; an unknown name refers to no buffer and reads as empty. -/
def lookup (s : Store α σ) (h : String) : Ref α := (s.handles.lookup h).getD ⟨s.pool.buffers.length⟩

/-- Give a name to a reference; a reference that it stood for is released afterwards. -/
def bind [Element α σ ι] (s : Store α σ) (h : String) (r : Ref α) : Store α σ :=
  let others := s.handles.filter (·.1 ≠ h)
  match s.handles.lookup h with
  | some old => ⟨s.pool.release old, (h, r) :: others⟩
  | none => ⟨s.pool, (h, r) :: others⟩

/-- Name a reference of the pool that an operation answered along with it. -/
def bindNew [Element α σ ι] (s : Store α σ) (h : String) (result : Ref α × Pool α σ) : Store α σ :=
  { s with pool := result.2 }.bind h result.1

/-- Move a name to the reference that a write answered; a write to an unknown name is lost. -/
def rebind (s : Store α σ) (h : String) (result : Ref α × Pool α σ) : Store α σ :=
  match s.handles.lookup h with
  | some _ => ⟨result.2, s.handles.map fun (k, r) => if k = h then (k, result.1) else (k, r)⟩
  | none => s

/-- Give a name to another reference to the buffer of an array. -/
def assign [Element α σ ι] (s : Store α σ) (h source : String) : Store α σ :=
  match s.handles.lookup source with
  | some r => s.bindNew h (r, s.pool.retain r)
  | none => s.bindNew h (s.pool.alloc [])

def forget [Element α σ ι] (s : Store α σ) (h : String) : Store α σ :=
  match s.handles.lookup h with
  | some r => ⟨s.pool.release r, s.handles.filter (·.1 ≠ h)⟩
  | none => s

/-- The answer of a write that may be refused. -/
def afterWrite (s : Store α σ) (h : String) (result : Except Failure (Ref α × Pool α σ)) :
    Except Failure (Reply α) × Store α σ :=
  match result with
  | .ok written => (.ok .done, s.rebind h written)
  | .error f => (.error f, s)

def run [Element α σ ι] (s : Store α σ) : Command ι → Except Failure (Reply α) × Store α σ
  | .create h => (.ok .done, s.bindNew h (s.pool.alloc []))
  | .ofList h items => (.ok .done, s.bindNew h (s.pool.ofLiterals items))
  | .assign h source => (.ok .done, s.assign h source)
  | .deepCopy h source => (.ok .done, s.bindNew h (s.pool.deepCopy (s.lookup source)))
  | .copyRange h source first count => (.ok .done, s.bindNew h (s.pool.copyRange (s.lookup source) first count))
  | .forget h => (.ok .done, s.forget h)
  | .setLength h n => s.afterWrite h (s.pool.setLength (s.lookup h) n)
  | .get h index => ((s.pool.get (s.lookup h) index).map .element, s)
  | .set h index value => s.afterWrite h (s.pool.set (s.lookup h) index value)
  | .push h value => (.ok .done, s.rebind h (s.pool.push (s.lookup h) value))
  | .length h => (.ok (.word (s.pool.length (s.lookup h))), s)
  | .low _ => (.ok (.word 0), s)
  | .high h => (.ok (.word (s.pool.high (s.lookup h))), s)
  | .isEmpty h => (.ok (.truth (s.pool.items (s.lookup h)).isEmpty), s)
  | .refCount h => (.ok (.count (s.pool.refs (s.lookup h))), s)
  | .isShared h => (.ok (.truth (1 < s.pool.refs (s.lookup h))), s)
  | .items h => (.ok (.elements (s.pool.items (s.lookup h))), s)
  | .describe h => (.ok (.characters (s.pool.describe (s.lookup h))), s)
  | .same h other => (.ok (.truth (s.pool.same (s.lookup h) (s.lookup other))), s)

end Store

end ManagedRuntime.SharedArray
