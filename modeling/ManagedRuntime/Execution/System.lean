import ManagedRuntime.Execution.Region

/-!
# Threads of one process

Threads run side by side and share their process only. A call that initializes the process first activates a
configuration and then installs it; the steps of other threads may come in between.

* `Entry` : the calls that activate a configuration, and what each proposes.
* `Runner` : a thread with its open regions and the call that it is in.
* `Strike` : a trap, or a signal that a thread sends to itself.
* `System.step` : a step of one thread; `System.run` : the steps of all threads in any order.
-/

namespace ManagedRuntime.Execution

set_option autoImplicit false

inductive Entry where
  | init
  | initWith (c : Configuration)
  /-- Only asks for the configuration in use. -/
  | active
  | protect
  | runMain

namespace Entry

/-- The configuration that becomes active if there is none. -/
def proposal : Entry → Configuration
  | .initWith c => c
  | _ => .default

/-- Whether the handlers are installed after the configuration has been activated. -/
def installs : Entry → Bool
  | .active => false
  | _ => true

def opensRegion : Entry → Bool
  | .protect => true
  | _ => false

end Entry

/-- A call that has activated a configuration, and the configuration that is in use as it has been told. -/
structure Call where
  entry : Entry
  observed : Configuration

structure Runner where
  thread : Thread
  /-- The thread as it was before each open region was entered, the innermost one first. -/
  regions : List Thread
  /-- The call that has yet to install its configuration. -/
  call : Option Call

namespace Runner

def fresh : Runner := ⟨.fresh, [], none⟩

/-- The end of a call that installs; the body of a region begins. -/
def finishCall (entry : Entry) (r : Runner) : Runner :=
  if entry.opensRegion then ⟨r.thread.enter, r.thread :: r.regions, none⟩ else { r with call := none }

/-- Go on after the region that has the resume point; the regions inside it are gone. -/
def resume (point : ResumePoint) (m : Machine Unit) : List Thread → Runner
  | [] => ⟨m.thread, [], none⟩
  | before :: rest =>
    match (land before (.resuming point, m) : Flow (Landing Unit) × Machine Unit) with
    | (.done _, m) => ⟨m.thread, rest, none⟩
    | (_, m) => resume point m rest

end Runner

inductive Strike where
  | trap (t : Trap)
  | send (signal : Signal) (code : Int32)

namespace Strike

def signal : Strike → Signal
  | .trap t => t.signal
  | .send signal _ => signal

/-- The fault that is found where the signal is intercepted. -/
def fault : Strike → Fault
  | .trap t => t.fault
  | .send signal code => .ofSignal signal code

def deliver : Strike → Action Unit Unit
  | .trap t => Execution.trap t
  | .send signal code => Execution.send signal code

end Strike

/-- What a thread does next. -/
inductive Move where
  /-- Begin a call: a configuration is activated. -/
  | call (entry : Entry)
  /-- Go on with a call: the configuration is installed. -/
  | install
  /-- Raise and catch in any way that enters and leaves no region. -/
  | work (e : Exception) (unwinds : Nat)
  /-- The body of the innermost region ends, by an unwind if there is a payload. -/
  | leave (payload : Option Payload)
  | strike (strike : Strike)

/-- The end of a body. -/
def bodyEnd : Option Payload → Flow Unit
  | none => .done ()
  | some payload => .unwinding payload

/-- A process with its threads. -/
structure System where
  process : Process
  runners : Nat → Runner
  /-- All calls so far, the first one first. -/
  calls : List Call
  /-- The configurations that handlers have been installed for, the first one first. -/
  installations : List Configuration
  ending : Option Ending

namespace System

def start : System := ⟨.start, fun _ => .fresh, [], [], none⟩

def setRunner (s : System) (n : Nat) (r : Runner) : System :=
  { s with runners := fun k => if k = n then r else s.runners k }

def beginCall (s : System) (n : Nat) (entry : Entry) : System :=
  let process := s.process.activate entry.proposal
  let call : Call := ⟨entry, process.configuration⟩
  { s with process, calls := s.calls ++ [call] }.setRunner n
    { s.runners n with call := if entry.installs then some call else none }

def install (s : System) (n : Nat) (call : Call) : System :=
  { s with
    process := s.process.install call.observed
    installations := if s.process.installed then s.installations else s.installations ++ [call.observed] }.setRunner n
    ((s.runners n).finishCall call.entry)

/-- The machine that a thread runs on. -/
def machine (s : System) (n : Nat) : Machine Unit := ⟨s.process, (s.runners n).thread, ()⟩

def leave (s : System) (n : Nat) (payload : Option Payload) : System :=
  match (s.runners n).regions with
  | [] => s
  | before :: rest => s.setRunner n ⟨(land before (bodyEnd payload, s.machine n)).2.thread, rest, none⟩

def strike (s : System) (n : Nat) (strike : Strike) : System :=
  match strike.deliver (s.machine n) with
  | (.resuming point, m) =>
    { s with process := m.process }.setRunner n (Runner.resume point m (s.runners n).regions)
  | (.ended ending, m) => { s with process := m.process, ending := some ending }
  | (_, m) => { s with process := m.process }.setRunner n { s.runners n with thread := m.thread }

/-- A step of thread `n`. Nothing happens where the thread cannot make it, or the process has ended. -/
def step (s : System) (n : Nat) (move : Move) : System :=
  if s.ending.isSome then s
  else
    let r := s.runners n
    match move, r.call with
    | .call entry, none => s.beginCall n entry
    | .install, some call => s.install n call
    | .work e unwinds, none => s.setRunner n { r with thread := { r.thread with exception := e, unwinds } }
    | .leave payload, none => s.leave n payload
    | .strike strike, _ => s.strike n strike
    | _, _ => s

/-- The steps of all threads one after the other. -/
def run (s : System) (moves : List (Nat × Move)) : System := moves.foldl (fun s (n, move) => s.step n move) s

/-- The configuration of the first call. -/
def first (s : System) : Configuration := (s.calls.head?.map fun call => call.entry.proposal).getD .default

end System

end ManagedRuntime.Execution
