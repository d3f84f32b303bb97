import ManagedRuntime.Exception

/-!
# Threads

* `Thread` : what each thread has of its own: its exception, its innermost region, and the unwinds that are in flight;
* `Thread.enter`, `Thread.leave` : entering a region, and putting back what was there before.
-/

namespace ManagedRuntime.Execution

set_option autoImplicit false

/--
Where control resumes when the body of a region faults; the regions of a thread are numbered as they are
entered.
-/
structure ResumePoint where
  number : Nat
deriving DecidableEq

structure Thread where
  /-- The exception raised or caught last. -/
  exception : Exception
  /-- The innermost region. -/
  current : Option ResumePoint
  /-- The number of active regions. -/
  depth : Nat
  /-- Whether the thread was unwinding when the innermost region was entered. -/
  enteredUnwinding : Bool
  /-- The number of unwinds that have begun and not been caught. -/
  unwinds : Nat
  /-- The class of a fault, from its delivery until control has resumed. -/
  pending : Option Fault
  /-- The number of regions entered so far. -/
  entered : Nat
deriving DecidableEq

namespace Thread

/-- A thread on which nothing has happened. -/
def fresh : Thread := ⟨.none, none, 0, false, 0, none, 0⟩

def isUnwinding (t : Thread) : Bool := 0 < t.unwinds

/--
Whether a jump to the innermost region would skip an unwind that began inside it, as far as the thread
can tell.
-/
def unwindingSinceEntry (t : Thread) : Bool := t.isUnwinding && !t.enteredUnwinding

/-- The resume point of the region that is entered next. -/
def nextPoint (t : Thread) : ResumePoint := ⟨t.entered⟩

def enter (t : Thread) : Thread :=
  { t with
    current := some t.nextPoint
    depth := t.depth + 1
    enteredUnwinding := t.isUnwinding
    entered := t.entered + 1 }

/-- Leave a region that was entered in the state `before`. -/
def leave (before t : Thread) : Thread :=
  { t with
    current := before.current
    depth := t.depth - 1
    enteredUnwinding := before.enteredUnwinding }

def record (e : Exception) (t : Thread) : Thread := { t with exception := e }

def beginUnwind (t : Thread) : Thread := { t with unwinds := t.unwinds + 1 }

def endUnwind (t : Thread) : Thread := { t with unwinds := t.unwinds - 1 }

end Thread

end ManagedRuntime.Execution
