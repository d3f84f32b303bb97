import ManagedRuntime.Memory

/-!
# Commands on memory

* `Memory.Command` : the operations on named blocks;
* `Memory.Command.run` : what a command answers and the memory after it; a refused command leaves it as it was.
-/

namespace ManagedRuntime.Memory

set_option autoImplicit false

inductive Command where
  | get (name : String) (size : Int32)
  | allocate (name : String) (size : Int32)
  | resize (name : String) (size : Int32)
  | free (name : String)
  | fill (name : String) (offset : Nat) (count : Int32) (value : UInt8)
  | move (source : String) (start : Nat) (target : String) (offset : Nat) (count : Int32)
  | write (name : String) (offset : Nat) (values : List UInt8)
  | read (name : String) (offset count : Nat)

inductive Reply where
  | done
  /-- Whether a request was given a block, and not the null pointer. -/
  | block (given : Bool)
  | bytes (values : List (Option UInt8))

namespace Command

/-- The answer of a request for a block. -/
def requesting (name : String) (result : Except Failure Memory) : Except Failure (Reply × Memory) :=
  result.map fun m => (.block (m.isBlock name), m)

def run (a : Allocator) (m : Memory) : Command → Except Failure (Reply × Memory)
  | .get name size => requesting name (m.get a name size)
  | .allocate name size => requesting name (m.allocate a name size)
  | .resize name size => requesting name (m.resize a name size)
  | .free name => .ok (.done, m.free name)
  | .fill name offset count value => .ok (.done, m.fill name offset count value)
  | .move source start target offset count => .ok (.done, m.move source start target offset count)
  | .write name offset values => .ok (.done, m.write name offset values)
  | .read name offset count => .ok (.bytes (m.read name offset count), m)

end Command

end ManagedRuntime.Memory
