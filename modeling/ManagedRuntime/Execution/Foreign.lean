import ManagedRuntime.Execution.Region

/-!
# The foreign interface

Programs that know no texts pass messages as buffers of code units with the number of units that count, and no
buffer at all as a null pointer. Their blocks are callbacks that share a context.

* `Foreign.message` : the text of the first units of a buffer;
* `Foreign.raiseCode` : raising with a code and a buffer;
* `Foreign.copyMessage` : the full length of the message, and a buffer with as much of it as fits;
* `Foreign.tryCatch`, `Foreign.tryFinally`, `Foreign.tryCatchFinally` : the blocks of a program, by callbacks.
-/

namespace ManagedRuntime.Execution.Foreign

set_option autoImplicit false

variable {ω α γ : Type}

/-! ## Buffers -/

/-- The units behind a pointer; a null pointer has none. -/
abbrev Buffer := Option (List UInt16)

def size (buffer : Buffer) : Nat := (buffer.getD []).length

/-- The text of `length` units of a buffer. Without a buffer the length does not matter. -/
def message (buffer : Buffer) (length : Nat) : Text :=
  match buffer with
  | none => Text.empty
  | some units => if length = 0 then Text.empty else ⟨units.take length⟩

def raiseCode (code : Int32) (buffer : Buffer) (length : Nat) : Action ω α :=
  raise (.software code (message buffer length))

def exceptionCode : Action ω Int32 := do
  let t ← Action.getThread
  return t.exception.code

/-- At most `capacity` units are written; those behind them stay as they are. -/
def fillBuffer (message : List UInt16) (capacity : Nat) (units : List UInt16) : List UInt16 :=
  let count := min message.length capacity
  message.take count ++ units.drop count

def copyMessage (buffer : Buffer) (capacity : Nat) : Action ω (Nat × Buffer) := do
  let t ← Action.getThread
  let units := t.exception.message.units
  return (units.length, buffer.map (fillBuffer units capacity))

/-- Forget the exception of the thread. -/
def shutdown : Action ω Unit := Action.onThread (Thread.record .none)

/-! ## Blocks -/

/-- A block of foreign code is called with a context. -/
abbrev Callback (ω γ : Type) := γ → Action ω Unit

def tryCatch (body handler : Callback ω γ) (context : γ) : Action ω Unit :=
  Execution.tryCatch (body context) (handler context)

def tryFinally (body cleanup : Callback ω γ) (context : γ) : Action ω Unit :=
  Execution.tryFinally (body context) (cleanup context)

def tryCatchFinally (body handler cleanup : Callback ω γ) (context : γ) : Action ω Unit :=
  Execution.tryCatchFinally (body context) (handler context) (cleanup context)

end ManagedRuntime.Execution.Foreign
