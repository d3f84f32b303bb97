/-!
# Failures

* `Failure` : why an operation on a container, a text or a memory block refuses its arguments.
* `Failure.message` : the wording of a failure.
-/

namespace ManagedRuntime

set_option autoImplicit false

/-- Why an operation refuses its arguments; its receiver is then unchanged. -/
inductive Failure where
  /-- A negative size or count. -/
  | invalidArgument (message : String)
  /-- An access outside the indices of a container. -/
  | indexOutOfRange (container : String) (index length : Int32)
  /-- The allocator has no block of that many bytes. -/
  | outOfMemory (size : Nat)
  /-- A text that does not spell a number. -/
  | conversion (message : String)
deriving DecidableEq

def Failure.message : Failure → String
  | .invalidArgument message => message
  | .indexOutOfRange container _ _ => container ++ " index out of range"
  | .outOfMemory _ => "Out of memory"
  | .conversion message => message

end ManagedRuntime
