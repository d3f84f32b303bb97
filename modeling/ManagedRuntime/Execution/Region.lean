import ManagedRuntime.Execution.Action

/-!
# Regions

* `protect` : an action in a region of its own, and how it landed;
* `tryCatch`, `tryFinally`, `tryCatchFinally` : the blocks of a program;
* `withDestructor` : an action with a destructor that runs when its scope is left;
* `runMain` : the main action of a program;
* `spawn`, `join` : an action on a new thread, whose unwinds end there or go on here.
-/

namespace ManagedRuntime.Execution

set_option autoImplicit false

variable {ω α : Type}

/-! ## Protected actions -/

/-- How the body of a region ended. -/
inductive Landing (α : Type) where
  | normal (a : α)
  | raised (e : Exception)
  | fault (f : Fault)

namespace Landing

def isNormal : Landing α → Bool
  | .normal _ => true
  | _ => false

/-- The exception of a landing; a fault counts as its fixed exception. -/
def exception? : Landing α → Option Exception
  | .normal _ => none
  | .raised e => some e
  | .fault f => some (.ofFault f)

def toExcept : Landing α → Except Exception α
  | .normal a => .ok a
  | .raised e => .error e
  | .fault f => .error (.ofFault f)

end Landing

/-- The machine on which the body of a region begins. -/
def Machine.enter (m : Machine ω) : Machine ω := { m with process := m.process.init, thread := m.thread.enter }

/--
Leave a region that was entered on the thread `before`, whichever way its body has ended; an exception
that ended the body becomes that of the thread.
-/
def land (before : Thread) : Flow α × Machine ω → Flow (Landing α) × Machine ω
  | (.done a, m) => (.done (.normal a), { m with thread := before.leave m.thread })
  | (.unwinding payload, m) =>
    let e := payload.exception
    (.done (.raised e), { m with thread := (before.leave m.thread.endUnwind).record e })
  | (.resuming point, m) =>
    if point = before.nextPoint then
      let f := m.thread.pending.getD .unknown
      (.done (.fault f), { m with thread := (before.leave { m.thread with pending := none }).record (.ofFault f) })
    else (.resuming point, m)
  | (.ended ending, m) => (.ended ending, m)

/-- An action in a region of its own. -/
def protect (body : Action ω α) : Action ω (Landing α) := fun m => land m.thread (body m.enter)

/-! ## Blocks -/

/-- The handler runs outside the region of the body. -/
def tryCatch (body handler : Action ω Unit) : Action ω Unit := do
  let landing ← protect body
  if landing.isNormal then pure () else handler

/-- Raise the exception of a landing once more. -/
def raiseAgain (landing : Landing α) : Action ω Unit :=
  match landing.exception? with
  | some e => raise e
  | none => pure ()

/-- The cleanup runs in any case; an exception of the body is raised again after it. -/
def tryFinally (body cleanup : Action ω Unit) : Action ω Unit := do
  let landing ← protect body
  cleanup
  raiseAgain landing

/-- The exception of the body ends here; that of the handler is raised again after the cleanup. -/
def tryCatchFinally (body handler cleanup : Action ω Unit) : Action ω Unit := do
  let landing ← protect body
  if landing.isNormal then cleanup
  else
    let handled ← protect handler
    cleanup
    raiseAgain handled

/-! ## Scopes -/

/--
The destructor runs when the body is done and when it unwinds, but not when control resumes at a region
outside the scope. An unwind that leaves the destructor of an unwinding scope is fatal.
-/
def withDestructor (destructor body : Action ω Unit) : Action ω Unit := fun m =>
  match body m with
  | (.done (), m) => destructor m
  | (.unwinding payload, m) =>
    match destructor m with
    | (.done (), m) => (.unwinding payload, m)
    | (.unwinding _, m) => (.ended .aborted, m)
    | result => result
  | result => result

/-! ## Programs and threads -/

/-- The exit code of a main action that has ended; an exception that ended it becomes that of the thread. -/
def exitCode (c : Configuration) : Flow Unit × Machine ω → Flow Int32 × Machine ω
  | (.done (), m) => (.done 0, m)
  | (.unwinding payload, m) =>
    let e := payload.exception
    let process :=
      if c.reportUnhandled then m.process.printError (Process.unhandledMark ++ e.message.characters)
      else m.process
    (.done c.exitCode, { m with process, thread := m.thread.endUnwind.record e })
  | (.resuming point, m) => (.resuming point, m)
  | (.ended ending, m) => (.ended ending, m)

/-- A main action with its exit code. It is no region: it catches unwinds, and faults go past it. -/
def runMain (main : Action ω Unit) : Action ω Int32 := fun m =>
  let m := { m with process := m.process.init }
  exitCode m.process.configuration (main m)

/-- What a thread that has ended leaves to the machine of its parent. -/
def collect (parent : Machine ω) : Flow Unit × Machine ω → Flow (Option Exception × ω) × Machine ω
  | (.done (), child) => (.done (none, child.world), { parent with process := child.process })
  | (.unwinding payload, child) =>
    (.done (some payload.exception, child.world), { parent with process := child.process })
  | (.resuming point, child) => (.resuming point, { parent with process := child.process })
  | (.ended ending, child) => (.ended ending, { parent with process := child.process, world := child.world })

/--
The exception that leaves an action on a new thread, if one does, and what the thread had of its own in
the end.
-/
def spawn (world : ω) (body : Action ω Unit) : Action ω (Option Exception × ω) := fun m =>
  collect m (body ⟨m.process, .fresh, world⟩)

/-- An action on a new thread for which this one waits; what unwinds there goes on here. -/
def join (body : Action ω α) : Action ω α := fun m =>
  match body { m with thread := .fresh } with
  | (.unwinding payload, child) => (.unwinding payload, { child with thread := m.thread.beginUnwind })
  | (flow, child) => (flow, { child with thread := m.thread })

/-- An action in a region of its own, with its exception as a result. -/
def attempt (action : Action ω α) : Action ω (Except Exception α) := do
  let landing ← protect action
  return landing.toExcept

end ManagedRuntime.Execution
