import ManagedRuntime.Configuration
import ManagedRuntime.Text.Lines

/-!
# The process

* `Process` : what all threads share: the configuration in use, what happens on each signal, and the error output;
* `Process.activate` : the first configuration that is activated stays in use;
* `Process.install` : the signals of a configuration are intercepted from now on; this happens once.
-/

namespace ManagedRuntime.Execution

set_option autoImplicit false

/-- What the delivery of a signal does. -/
inductive Disposition where
  /-- The process dies. -/
  | fatal
  /--
  A process starts with this watch on the two signals of memory accesses: it aborts on an overflow of
  the stack, and on anything else it is disarmed, after which the signal is fatal.
  -/
  | watch
  /-- Control goes to the innermost region. -/
  | intercept
deriving DecidableEq

/-- How a process ends. -/
inductive Ending where
  | exited (status : UInt8)
  | killed (signal : Signal)
  | aborted
deriving DecidableEq

/-- The signal by which a process dies. -/
def Ending.signalName? : Ending → Option String
  | .exited _ => none
  | .killed signal => some signal.name
  | .aborted => some "SIGABRT"

structure Process where
  active : Option Configuration
  /-- Whether the installation has taken place. -/
  installed : Bool
  /-- Whether it has installed any handlers. -/
  intercepting : Bool
  disposition : Signal → Disposition
  /-- The texts that were printed to it, each with a line feed after it. -/
  errorOutput : List (List Char)

namespace Process

/-- A process in which nothing is initialized. -/
def start : Process where
  active := none
  installed := false
  intercepting := false
  disposition
    | .segv | .bus => .watch
    | .fpe | .ill => .fatal
  errorOutput := []

/-- The configuration in use. -/
def configuration (p : Process) : Configuration := p.active.getD .default

def activate (c : Configuration) (p : Process) : Process := { p with active := some (p.active.getD c) }

/-- The first installation is the only one; `c` is what its caller takes for the configuration in use. -/
def install (c : Configuration) (p : Process) : Process :=
  if p.installed then p
  else if c.intercept then
    { p with
      installed := true
      intercepting := true
      disposition := fun s => if s ∈ c.listed then .intercept else p.disposition s }
  else { p with installed := true }

/-- Initialize with a given configuration, unless another one is in use already. -/
def initWith (c : Configuration) (p : Process) : Process :=
  let p := p.activate c
  p.install p.configuration

/-- Initialize with the default configuration, unless another one is in use already. -/
def init (p : Process) : Process := p.initWith .default

/-- The next delivery of a signal is fatal. -/
def disarm (signal : Signal) (p : Process) : Process :=
  { p with disposition := fun s => if s = signal then .fatal else p.disposition s }

/-! ## Error output -/

def unhandledMark : List Char := "Exception: ".toList

def runtimeErrorMark : List Char := "Runtime error ".toList

def printError (text : List Char) (p : Process) : Process := { p with errorOutput := p.errorOutput ++ [text] }

/-- The lines that report an unhandled exception or a runtime error. -/
def reports (p : Process) : List (List Char) :=
  (p.errorOutput.flatMap Lines.ofPrinted).filter fun line =>
    unhandledMark.isPrefixOf line || runtimeErrorMark.isPrefixOf line

end Process

end ManagedRuntime.Execution
