import ManagedRuntime.Program.Routine
import ManagedRuntime.SharedArray.Element

/-!
# Scenarios

* `Scenario` : what can be triggered from the command line;
* `Scenario.trigger` : the failing operation as an action;
* `Scenario.runProtected`, `Scenario.runUnprotected` : a scenario in a region, and as the main action of a program.
-/

namespace ManagedRuntime

set_option autoImplicit false

open Execution

inductive Scenario where
  | divideByZero
  | accessViolation
  | illegalInstruction
  | busError
  | stackOverflow
  | raise
  | indexOutOfRange
  | invalidArgument
  /-- A division by zero in a destructor, while an exception unwinds. -/
  | faultDuringUnwind
  | halt
  | runError
  | abort
deriving DecidableEq

namespace Scenario

/-! ## Names -/

/-- In the order in which they are listed. -/
def all : List Scenario :=
  [.divideByZero, .accessViolation, .illegalInstruction, .busError, .stackOverflow, .raise, .indexOutOfRange,
    .invalidArgument, .faultDuringUnwind, .halt, .runError, .abort]

def name : Scenario → String
  | .divideByZero => "divide-by-zero"
  | .accessViolation => "access-violation"
  | .illegalInstruction => "illegal-instruction"
  | .busError => "bus-error"
  | .stackOverflow => "stack-overflow"
  | .raise => "raise"
  | .indexOutOfRange => "index-out-of-range"
  | .invalidArgument => "invalid-argument"
  | .faultDuringUnwind => "fault-during-unwind"
  | .halt => "halt"
  | .runError => "run-error"
  | .abort => "abort"

def ofName? (name : String) : Option Scenario := all.find? fun s => s.name == name

def about : Scenario → String
  | .divideByZero => "Integer division by zero"
  | .accessViolation => "Read from an unmapped address"
  | .illegalInstruction => "Execute an undefined instruction"
  | .busError => "Deliver SIGBUS to the current thread"
  | .stackOverflow => "Unbounded recursion on a small stack"
  | .raise => "Raise a software exception"
  | .indexOutOfRange => "Index past the end of a dynamic array"
  | .invalidArgument => "Resize a dynamic array to a negative length"
  | .faultDuringUnwind => "Divide by zero in a destructor while an exception unwinds"
  | .halt => "End the program with exit code 3"
  | .runError => "Report runtime error 201 and exit with it"
  | .abort => "Terminate abnormally"

/-! ## Actions -/

variable {ω α : Type}

/-- The code of a signal that a thread sends to itself. -/
def sentCode : Int32 := -6

def divideByNothing : Action ω Unit := do
  let _ ← (Program.Routine.divide 1 0).run

/-- The element after the last one of an array of three. -/
def indexPastEnd : Except Failure Int32 :=
  let (r, pool) := SharedArray.Pool.start.ofLiterals [1, 2, 3]
  pool.get r (pool.length r)

def resizeBelowZero : Except Failure Unit :=
  let (r, pool) : SharedArray.Ref Int32 × _ := SharedArray.Pool.start.alloc []
  (pool.setLength r (-1)).map fun _ => ()

def trigger : Scenario → Action ω Unit
  | .divideByZero => divideByNothing
  | .accessViolation => trap .access
  | .illegalInstruction => trap .illegalInstruction
  | .busError => send .bus sentCode
  | .stackOverflow => trap .stackOverflow
  | .raise => Execution.raise (.software 100 (Text.ofString "scenario exception"))
  | .indexOutOfRange => do let _ ← orRaise indexPastEnd
  | .invalidArgument => orRaise resizeBelowZero
  | .faultDuringUnwind =>
    withDestructor divideByNothing (Execution.raise (.software Exception.codeSoftware (Text.ofString "unwinding")))
  | .halt => Execution.halt 3
  | .runError => Execution.runError 201
  | .abort => Execution.abort

/-- The overflow of a stack takes place on a thread of its own. -/
def onThread (s : Scenario) (action : Action ω α) : Action ω α :=
  if s = .stackOverflow then join action else action

/-- What the handler finds. -/
def keepException : Action (Option Exception) Unit := do
  let t ← Action.getThread
  Action.onWorld fun _ => some t.exception

/-- The exception that is caught becomes the world. -/
def runProtected (s : Scenario) : Action (Option Exception) Unit := s.onThread (tryCatch s.trigger keepException)

/-- The exit code of a scenario. -/
def runUnprotected (s : Scenario) : Action ω Int32 := s.onThread (runMain s.trigger)

end Scenario

end ManagedRuntime
