import ManagedRuntime.Failure
import ManagedRuntime.Fault
import ManagedRuntime.Text.Encoding

/-!
# Exceptions

* `Exception` : the kind and the message of what went wrong last.
* `Exception.code` : the number by which a program tells kinds apart.
* `Exception.ofFault`, `Exception.ofFailure` : the exception of an intercepted fault and of a refused operation.
-/

namespace ManagedRuntime

set_option autoImplicit false

namespace Exception

/-! ## Codes -/

def codeNone : Int32 := 0
def codeSoftware : Int32 := 1
def codeInvalidArgument : Int32 := 10
def codeIndexOutOfRange : Int32 := 11
def codeOutOfMemory : Int32 := 12

inductive Kind where
  /-- Nothing has been raised yet. -/
  | none
  /-- Raised by the program with a code of its choice. -/
  | software (code : Int32)
  | invalidArgument
  | indexOutOfRange
  | fault (fault : Fault)
deriving DecidableEq

namespace Kind

def code : Kind → Int32
  | .none => codeNone
  | .software code => code
  | .invalidArgument => codeInvalidArgument
  | .indexOutOfRange => codeIndexOutOfRange
  | .fault f => f.code

def isHardware : Kind → Bool
  | .fault _ => true
  | _ => false

end Kind

end Exception

structure Exception where
  kind : Exception.Kind
  message : Text
deriving DecidableEq

namespace Exception

/-- The state of a thread on which nothing has been raised. -/
def none : Exception := ⟨.none, Text.empty⟩

def code (e : Exception) : Int32 := e.kind.code

def software (code : Int32) (message : Text) : Exception := ⟨.software code, message⟩

def ofFault (f : Fault) : Exception := ⟨.fault f, Text.ofString f.description⟩

def ofFailure (f : Failure) : Exception :=
  let kind := match f with
    | .invalidArgument _ => Kind.invalidArgument
    | .indexOutOfRange .. => Kind.indexOutOfRange
    | .outOfMemory _ => Kind.software codeOutOfMemory
    | .conversion _ => Kind.software codeSoftware
  ⟨kind, Text.ofString f.message⟩

end Exception

end ManagedRuntime
