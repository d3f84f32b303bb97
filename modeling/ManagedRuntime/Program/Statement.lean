import ManagedRuntime.Execution.Foreign
import ManagedRuntime.Program.Routine
import ManagedRuntime.SharedArray.Nested
import ManagedRuntime.Text.Register

/-!
# Programs

* `Label` : what a program writes into its log;
* `Instruction` : the statements that hold no others;
* `Statement` : programs built from instructions by sequence and by the blocks, scopes and threads of the runtime;
* `Event` : what a program reports;
* `World` : what each thread of a program has of its own.
-/

namespace ManagedRuntime.Program

set_option autoImplicit false

open Execution

inductive Label where
  | number (n : Int)
  | name (s : String)
deriving DecidableEq

inductive Instruction where
  | log (label : Label)
  | state
  /-- Add one to the counter. -/
  | bump
  | counter
  | inRegion
  | intercepted
  | init
  | initWith (c : Configuration)
  | clear
  | raise (e : Exception)
  | raiseFailure (f : Failure)
  | reraise
  | raiseForeign (text : Option String)
  | trap (t : Trap)
  | send (signal : Signal) (code : Int32)
  | call (routine : Routine)
  /-- The flag tells whether a failure is raised, here and for texts. -/
  | array (raising : Bool) (command : SharedArray.Command Int32)
  | text (raising : Bool) (command : Text.Command)
  | foreignInit
  | foreignShutdown
  | foreignCode
  | foreignMessage (buffer : Option (List UInt16))
  | foreignRaise (code : Int32) (buffer : Option (List UInt16))
  | halt (code : Int32)
  | runError (code : Int32)
  | abort

/-- The blocks that a statement can be nested in. -/
inductive Block where
  | tryCatch
  | tryFinally
  /-- A region whose landing does not matter, with another statement after it. -/
  | protect

inductive Statement where
  | skip
  | seq (first second : Statement)
  | perform (instruction : Instruction)
  /-- Report whether the innermost region is the same after the body. -/
  | sameRegion (body : Statement)
  | protect (body : Statement)
  | tryCatch (body handler : Statement)
  | tryFinally (body cleanup : Statement)
  | tryCatchFinally (body handler cleanup : Statement)
  | runMain (body : Statement)
  | withDestructor (destructor body : Statement)
  /-- `count` nested blocks with the same second part. -/
  | nest (count : Nat) (block : Block) (body after : Statement)
  | times (count : Nat) (body : Statement)
  | thread (body : Statement)

/-- The exception of a thread and the number of its active regions. -/
structure Snapshot where
  exception : Exception
  depth : Nat
deriving DecidableEq

inductive Event where
  | log (label : Label)
  | state (s : Snapshot)
  | counter (n : Nat)
  | inRegion (b : Bool)
  | sameRegion (b : Bool)
  | intercepted (b : Bool)
  | configuration (c : Configuration)
  | protect (landing : Landing Unit)
  | runMain (code : Int32)
  /-- The events of a thread and the exception that left it. -/
  | thread (events : List Event) (escaped : Option Exception)
  | call (v : Value)
  | array (reply : Except Failure (SharedArray.Reply Int32))
  | text (reply : Except Failure Text.Reply)
  | foreignCode (code : Int32)
  | foreignMessage (length : Nat) (buffer : Option (List UInt16))
  | exit (code : Int32) (s : Snapshot)

structure World where
  counter : Nat
  arrays : SharedArray.Store Int32 Unit
  texts : Text.Registers
  events : List Event

def World.empty : World := ⟨0, .empty, [], []⟩

end ManagedRuntime.Program
