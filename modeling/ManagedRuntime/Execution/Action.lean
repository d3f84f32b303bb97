import ManagedRuntime.Execution.Process
import ManagedRuntime.Execution.Thread

/-!
# Actions

* `Action` : what a piece of a program does to its machine, and how it ends;
* `Flow` : an action is done, unwinds to the nearest catch, resumes at a region, or has ended the process;
* `raise`, `raiseForeign`, `reraise` : the beginnings of an unwind;
* `trap`, `send` : the delivery of a fault and of a signal sent to the thread itself.
-/

namespace ManagedRuntime.Execution

set_option autoImplicit false

/-- What an unwind carries. -/
inductive Payload where
  | raised (e : Exception)
  /-- An exception of the host, with a text or with some other value. -/
  | foreign (text : Option String)
deriving DecidableEq

/-- An exception of the host counts as a software exception with its text as message. -/
def Payload.exception : Payload → Exception
  | .raised e => e
  | .foreign text => .software Exception.codeSoftware (Text.ofString (text.getD "Unknown exception"))

inductive Flow (α : Type) where
  | done (a : α)
  | unwinding (payload : Payload)
  | resuming (point : ResumePoint)
  | ended (ending : Ending)

/-- The process, the thread that runs, and what the program has of its own. -/
structure Machine (ω : Type) where
  process : Process
  thread : Thread
  world : ω

def Action (ω α : Type) : Type := Machine ω → Flow α × Machine ω

variable {ω α β : Type}

namespace Action

def pure (a : α) : Action ω α := fun m => (.done a, m)

/-- Go on with another action where one is done. -/
def proceed (next : α → Action ω β) : Flow α × Machine ω → Flow β × Machine ω
  | (.done a, m) => next a m
  | (.unwinding payload, m) => (.unwinding payload, m)
  | (.resuming point, m) => (.resuming point, m)
  | (.ended ending, m) => (.ended ending, m)

/-- The second action runs only if the first is done. -/
def bind (first : Action ω α) (next : α → Action ω β) : Action ω β := fun m => proceed next (first m)

instance : Monad (Action ω) where
  pure := Action.pure
  bind := Action.bind

theorem bind_pure (action : Action ω α) : Action.bind action Action.pure = action := by
  funext m
  unfold Action.bind
  cases action m with
  | mk flow m => cases flow <;> rfl

theorem bind_assoc {γ : Type} (first : Action ω α) (second : α → Action ω β)
    (third : β → Action ω γ) :
    Action.bind (Action.bind first second) third =
      Action.bind first fun a => Action.bind (second a) third := by
  funext m
  unfold Action.bind
  cases first m with
  | mk flow m => cases flow <;> rfl

instance : LawfulMonad (Action ω) :=
  LawfulMonad.mk' (Action ω) bind_pure (fun _ _ => rfl) bind_assoc

def getProcess : Action ω Process := fun m => (.done m.process, m)

def getThread : Action ω Thread := fun m => (.done m.thread, m)

def getWorld : Action ω ω := fun m => (.done m.world, m)

def onProcess (f : Process → Process) : Action ω Unit := fun m => (.done (), { m with process := f m.process })

def onThread (f : Thread → Thread) : Action ω Unit := fun m => (.done (), { m with thread := f m.thread })

def onWorld (f : ω → ω) : Action ω Unit := fun m => (.done (), { m with world := f m.world })

def finish (ending : Ending) : Action ω α := fun m => (.ended ending, m)

/-- Begin to unwind. -/
def unwind (payload : Payload) : Action ω α := fun m =>
  (.unwinding payload, { m with thread := m.thread.beginUnwind })

end Action

/-! ## Raising -/

/-- The exception is that of the thread before the unwind begins. -/
def raise (e : Exception) : Action ω α := do
  Action.onThread (Thread.record e)
  Action.unwind (.raised e)

/-- The exception of the thread does not change before that of the host is caught. -/
def raiseForeign (text : Option String) : Action ω α := Action.unwind (.foreign text)

def raiseFailure (f : Failure) : Action ω α := raise (.ofFailure f)

/-- The message where there is no exception to raise again. -/
def nothingRaised : Exception := .software Exception.codeSoftware (Text.ofString "No exception to re-raise")

/-- Raise the exception of the thread again. -/
def reraise : Action ω α := do
  let t ← Action.getThread
  raise (if t.exception.kind = .none then nothingRaised else t.exception)

/-- The value of an operation, which raises its failure. -/
def orRaise : Except Failure α → Action ω α
  | .ok a => pure a
  | .error f => raiseFailure f

/-! ## Faults -/

/-- Faults that an instruction causes; it is executed again if their delivery returns. -/
inductive Trap where
  | division
  | access
  | illegalInstruction
  | stackOverflow
deriving DecidableEq

namespace Trap

def signal : Trap → Signal
  | .division => .fpe
  | .access => .segv
  | .illegalInstruction => .ill
  | .stackOverflow => .segv

def fault : Trap → Fault
  | .division => Fault.ofSignal .fpe 1
  | .access => Fault.ofSignal .segv 1
  | .illegalInstruction => Fault.ofSignal .ill 2
  | .stackOverflow => .stackOverflow

end Trap

/--
Hand an intercepted fault to the innermost region. Without a region, and where an unwind that began in
the region would be skipped, the signal is fatal.
-/
def intercept (signal : Signal) (fault : Fault) : Action ω α := fun m =>
  match m.thread.current with
  | none => (.ended (.killed signal), m)
  | some point =>
    if m.thread.unwindingSinceEntry then (.ended (.killed signal), m)
    else (.resuming point, { m with thread := { m.thread with pending := some fault } })

/-- Execute an instruction that cannot complete. -/
def trap (t : Trap) : Action ω α := fun m =>
  match m.process.disposition t.signal with
  | .intercept => intercept t.signal t.fault m
  | .fatal => (.ended (.killed t.signal), m)
  | .watch => (.ended (if t = .stackOverflow then .aborted else .killed t.signal), m)

/-- Send a signal with a code to the thread itself; a watch takes the first one. -/
def send (signal : Signal) (code : Int32) : Action ω Unit := fun m =>
  match m.process.disposition signal with
  | .intercept => intercept signal (Fault.ofSignal signal code) m
  | .fatal => (.ended (.killed signal), m)
  | .watch => (.done (), { m with process := m.process.disarm signal })

/-! ## Ending the process -/

/-- The status is the code modulo 256. -/
def halt (code : Int32) : Action ω α := Action.finish (.exited (UInt8.ofInt code.toInt))

def runError (code : Int32) : Action ω α := do
  Action.onProcess (Process.printError (Process.runtimeErrorMark ++ Decimal.digits code))
  halt code

def abort : Action ω α := Action.finish .aborted

end ManagedRuntime.Execution
