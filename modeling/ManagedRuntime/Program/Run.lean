import ManagedRuntime.Execution.Raising
import ManagedRuntime.Program.Statement

/-!
# Running programs

* `Statement.run` : a program as an action;
* `runAlone` : a program by itself, whose exception ends it;
* `runProcess` : a program as the main action of a process.
-/

namespace ManagedRuntime.Program

set_option autoImplicit false

open Execution

/-! ## Instructions -/

def emit (e : Event) : Action World Unit := Action.onWorld fun w => { w with events := w.events ++ [e] }

def snapshot (t : Thread) : Snapshot := ⟨t.exception, t.depth⟩

/-- Run a command on the arrays in its raising form, or take a failure as its answer. -/
def runArray (raising : Bool) (command : SharedArray.Command Int32) : Action World Unit :=
  if raising then do
    let reply ← Action.within World.arrays (fun w arrays => { w with arrays }) (SharedArray.Store.perform command)
    emit (.array (.ok reply))
  else do
    let w ← Action.getWorld
    let (result, arrays) := w.arrays.run command
    Action.onWorld fun w => { w with arrays }
    emit (.array result)

/-- The same for the texts. -/
def runText (raising : Bool) (command : Text.Command) : Action World Unit :=
  if raising then do
    let reply ← Action.within World.texts (fun w texts => { w with texts }) command.perform
    emit (.text (.ok reply))
  else do
    let w ← Action.getWorld
    match command.run w.texts with
    | .ok (reply, texts) =>
      Action.onWorld fun w => { w with texts }
      emit (.text (.ok reply))
    | .error f => emit (.text (.error f))

/-- Report the configuration in use. -/
def emitConfiguration : Action World Unit := do
  let p ← Action.getProcess
  emit (.configuration p.configuration)

def Instruction.run : Instruction → Action World Unit
  | .log label => emit (.log label)
  | .state => do emit (.state (snapshot (← Action.getThread)))
  | .bump => Action.onWorld fun w => { w with counter := w.counter + 1 }
  | .counter => do emit (.counter (← Action.getWorld).counter)
  | .inRegion => do emit (.inRegion (← Action.getThread).current.isSome)
  | .intercepted => do emit (.intercepted (← Action.getProcess).intercepting)
  | .init => do Action.onProcess Process.init; emitConfiguration
  | .initWith c => do Action.onProcess (Process.initWith c); emitConfiguration
  | .clear => Action.onThread (Thread.record .none)
  | .raise e => Execution.raise e
  | .raiseFailure f => Execution.raiseFailure f
  | .reraise => Execution.reraise
  | .raiseForeign message => Execution.raiseForeign message
  | .trap t => Execution.trap t
  | .send signal code => Execution.send signal code
  | .call routine => do emit (.call (← routine.run))
  | .array raising command => runArray raising command
  | .text raising command => runText raising command
  | .foreignInit => Action.onProcess Process.init
  | .foreignShutdown => Foreign.shutdown
  | .foreignCode => do emit (.foreignCode (← Foreign.exceptionCode))
  | .foreignMessage buffer => do
    let (length, buffer) ← Foreign.copyMessage buffer (Foreign.size buffer)
    emit (.foreignMessage length buffer)
  | .foreignRaise code buffer => Foreign.raiseCode code buffer (Foreign.size buffer)
  | .halt code => Execution.halt code
  | .runError code => Execution.runError code
  | .abort => Execution.abort

/-! ## Statements -/

/-- A block around a body, with its second part. -/
def Block.run (block : Block) (body after : Action World Unit) : Action World Unit :=
  match block with
  | .tryCatch => Execution.tryCatch body after
  | .tryFinally => Execution.tryFinally body after
  | .protect => do
    let _ ← Execution.protect body
    after

/-- `count` blocks around a body. -/
def nested : (count : Nat) → Block → (body after : Action World Unit) → Action World Unit
  | 0, _, body, _ => body
  | count + 1, block, body, after => block.run (nested count block body after) after

def repeated : (count : Nat) → Action World Unit → Action World Unit
  | 0, _ => pure ()
  | count + 1, body => do
    body
    repeated count body

def watchRegion (body : Action World Unit) : Action World Unit := do
  let before ← Action.getThread
  body
  let after ← Action.getThread
  emit (.sameRegion (before.current = after.current))

/-- The events of a thread are its own, or are part of those of its parent. -/
def emitThread (inline : Bool) : Option Exception × World → Action World Unit
  | (escaped, child) =>
    if inline then do
      Action.onWorld fun w => { w with events := child.events }
      emit (.thread [] escaped)
    else emit (.thread child.events escaped)

/-- What a new thread has of its own. -/
def World.forThread (inline : Bool) (w : World) : World :=
  { World.empty with events := if inline then w.events else [] }

def runThread (inline : Bool) (body : Action World Unit) : Action World Unit := do
  let w ← Action.getWorld
  let result ← spawn (w.forThread inline) body
  emitThread inline result

def Statement.run (inline : Bool) : Statement → Action World Unit
  | .skip => pure ()
  | .seq first second => do
    first.run inline
    second.run inline
  | .perform instruction => instruction.run
  | .sameRegion body => watchRegion (body.run inline)
  | .protect body => do emit (.protect (← Execution.protect (body.run inline)))
  | .tryCatch body handler => Execution.tryCatch (body.run inline) (handler.run inline)
  | .tryFinally body cleanup => Execution.tryFinally (body.run inline) (cleanup.run inline)
  | .tryCatchFinally body handler cleanup =>
    Execution.tryCatchFinally (body.run inline) (handler.run inline) (cleanup.run inline)
  | .runMain body => do emit (.runMain (← Execution.runMain (body.run inline)))
  | .withDestructor destructor body => Execution.withDestructor (destructor.run inline) (body.run inline)
  | .nest count block body after => nested count block (body.run inline) (after.run inline)
  | .times count body => repeated count (body.run inline)
  | .thread body => runThread inline (body.run inline)

/-! ## Whole programs -/

/-- A new machine whose process is initialized with the default configuration. -/
def start : Machine World := ⟨Process.start.init, .fresh, .empty⟩

def runAlone (program : Statement) : Flow Unit × Machine World := program.run false start

/-- The main action with its exit code, which is reported and then the status of the process. -/
def mainAction (c : Configuration) (program : Statement) : Action World Unit := do
  Action.onProcess (Process.initWith c)
  let code ← runMain (program.run true)
  emit (.exit code (snapshot (← Action.getThread)))
  halt code

def runProcess (c : Configuration) (program : Statement) : Flow Unit × Machine World :=
  mainAction c program ⟨.start, .fresh, .empty⟩

end ManagedRuntime.Program
