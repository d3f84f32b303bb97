import ManagedRuntime.Proofs.Program.RaisingForms
import ManagedRuntime.Proofs.Program.Steps

/-!
# What a run does to its process

* `Steady` : an action that leaves the process as it is;
* `Evolves` : the ways in which a process changes; `evolves_of_step` : every step is one of them;
* `Process.Initialized` : a configuration is in use and the installation has taken place; it remains so.
-/

namespace ManagedRuntime.Program

open Execution

set_option autoImplicit false

variable {inline : Bool}

/-! ## Steady actions -/

section Steady

variable {α β : Type}

def Steady (action : Action World α) : Prop := ∀ m, (action m).2.process = m.process

theorem steady_pure (a : α) : Steady (pure a) := fun _ => rfl

theorem Steady.bind {first : Action World α} {next : α → Action World β} (h : Steady first)
    (hn : ∀ a, Steady (next a)) : Steady (first >>= next) := by
  intro m
  have hfirst := h m
  change (Action.proceed next (first m)).2.process = m.process
  rcases hr : first m with ⟨a | _ | _ | _, m₁⟩ <;> rw [hr] at hfirst
  · exact (hn a m₁).trans hfirst
  all_goals exact hfirst

theorem steady_getProcess : Steady Action.getProcess := fun _ => rfl

theorem steady_getThread : Steady Action.getThread := fun _ => rfl

theorem steady_getWorld : Steady Action.getWorld := fun _ => rfl

theorem steady_onThread (f : Thread → Thread) : Steady (Action.onThread f) := fun _ => rfl

theorem steady_onWorld (f : World → World) : Steady (Action.onWorld f) := fun _ => rfl

theorem steady_unwind (payload : Payload) : Steady (Action.unwind payload : Action World α) := fun _ => rfl

theorem steady_raise (e : Exception) : Steady (raise e : Action World α) :=
  (steady_onThread _).bind fun _ => steady_unwind _

theorem steady_orRaise (r : Except Failure α) : Steady (orRaise r) := by
  cases r with
  | ok a => exact steady_pure a
  | error f => exact steady_raise _

theorem steady_intercept (s : Signal) (f : Fault) : Steady (intercept s f : Action World α) := by
  intro m
  unfold intercept
  cases m.thread.current with
  | none => rfl
  | some point => dsimp only; split <;> rfl

theorem steady_trap (t : Trap) : Steady (Execution.trap t : Action World α) := by
  intro m
  unfold Execution.trap
  cases m.process.disposition t.signal with
  | intercept => exact steady_intercept _ _ m
  | fatal | watch => rfl

theorem steady_emit (e : Event) : Steady (emit e) := steady_onWorld _

theorem steady_settle (raising : Bool) (result : Except Failure α) : Steady (settle raising result) := by
  cases raising
  · exact steady_pure _
  · exact (steady_orRaise _).bind fun _ => steady_pure _

theorem steady_answer (raising : Bool) (value : α → Value) (result : Except Failure α) :
    Steady (answer raising value result) := by
  cases result with
  | ok a => exact steady_pure _
  | error f =>
    cases raising
    · exact steady_pure _
    · exact steady_raise _

theorem steady_layOut (result : Except Layout.Refusal Text) : Steady (layOut result) := by
  cases result with
  | ok t => exact steady_pure _
  | error refusal => exact steady_unwind _

theorem steady_dividing (part : Int32 × Int32 → Int32) (a b : Int32) : Steady (dividing part a b) := by
  unfold dividing
  cases Word.divide? a b with
  | some result => exact steady_pure _
  | none => exact steady_trap _

theorem steady_routine (routine : Routine) : Steady (routine.run : Action World Value) := by
  cases routine with
  | divide | modulo => exact steady_dividing _ _ _
  | textToWord | textToNumber => exact steady_answer _ _ _
  | wordInField | numberInField => exact steady_layOut _
  | _ => exact steady_pure _

theorem steady_runArray (raising : Bool) (command : SharedArray.Command Int32) : Steady (runArray raising command) := by
  rw [runArray_eq]
  exact steady_getWorld.bind fun _ => (steady_onWorld _).bind fun _ => (steady_settle _ _).bind fun _ => steady_emit _

theorem steady_runText (raising : Bool) (command : Text.Command) : Steady (runText raising command) := by
  rw [runText_eq]
  refine steady_getWorld.bind fun w => (steady_settle _ _).bind fun r => ?_
  cases r with
  | ok r => exact (steady_onWorld _).bind fun _ => steady_emit _
  | error f => exact steady_emit _

theorem steady_raiseAgain (landing : Landing Unit) : Steady (raiseAgain landing) := by
  unfold raiseAgain
  cases landing.exception? with
  | none => exact steady_pure _
  | some e => exact steady_raise e

theorem steady_emitThread (r : Option Exception × World) : Steady (emitThread inline r) := by
  cases inline
  · exact steady_emit _
  · exact (steady_onWorld _).bind fun _ => steady_emit _

end Steady

/-! ## Changes of the process -/

/-- The ways in which one step changes the process. -/
inductive Evolves : Process → Process → Prop where
  | refl (p : Process) : Evolves p p
  | initWith (c : Configuration) (p : Process) : Evolves p (p.initWith c)
  | disarm (s : Signal) (p : Process) : Evolves p (p.disarm s)
  | printError (text : List Char) (p : Process) : Evolves p (p.printError text)

theorem Evolves.init (p : Process) : Evolves p p.init := .initWith .default p

theorem Steady.evolves {α : Type} {action : Action World α} (h : Steady action) (m : Machine World) :
    Evolves m.process (action m).2.process := by
  rw [h m]
  exact .refl _

theorem evolves_send (s : Signal) (code : Int32) (m : Machine World) :
    Evolves m.process (Execution.send s code m).2.process := by
  unfold Execution.send
  cases m.process.disposition s with
  | intercept => exact (steady_intercept _ _).evolves m
  | fatal => exact .refl _
  | watch => exact .disarm s m.process

theorem Instruction.evolves (i : Instruction) (m : Machine World) : Evolves m.process (i.run m).2.process := by
  cases i with
  | log | bump | clear | foreignShutdown | halt | abort | raiseForeign => exact .refl _
  | state | inRegion => exact (steady_getThread.bind fun _ => steady_emit _).evolves m
  | counter => exact (steady_getWorld.bind fun _ => steady_emit _).evolves m
  | intercepted => exact (steady_getProcess.bind fun _ => steady_emit _).evolves m
  | init | foreignInit => exact .init m.process
  | initWith c => exact .initWith c m.process
  | raise | raiseFailure | foreignRaise => exact (steady_raise _).evolves m
  | reraise => exact (steady_getThread.bind fun _ => steady_raise _).evolves m
  | trap t => exact (steady_trap t).evolves m
  | send s code => exact evolves_send s code m
  | call routine => exact ((steady_routine routine).bind fun _ => steady_emit _).evolves m
  | array raising command => exact (steady_runArray raising command).evolves m
  | text raising command => exact (steady_runText raising command).evolves m
  | foreignCode => exact ((steady_getThread.bind fun _ => steady_pure _).bind fun _ => steady_emit _).evolves m
  | foreignMessage => exact ((steady_getThread.bind fun _ => steady_pure _).bind fun _ => steady_emit _).evolves m
  | runError code => exact .printError _ m.process

theorem evolves_of_begin (s : Statement) (fs : List Frame) (m : Machine World) :
    Evolves m.process (s.begin inline fs m).machine.process := by
  cases s with
  | perform i => exact i.evolves m
  | protect | tryCatch | tryFinally | tryCatchFinally | runMain => exact .init m.process
  | nest count =>
    cases count with
    | zero => exact .refl _
    | succ count => exact .init m.process
  | times count => cases count <;> exact .refl _
  | skip | seq | sameRegion | withDestructor | thread => exact .refl _

theorem evolves_of_land (before : Thread) (exit : Exit) (fs : List Frame) (flow : Flow Unit) (m : Machine World) :
    Evolves m.process (Point.leaving exit fs (land before (flow, m))).machine.process := by
  cases flow with
  | resuming point =>
    unfold land
    dsimp only
    split <;> exact .refl _
  | done | unwinding | ended => exact .refl _

theorem evolves_of_resume (f : Frame) (flow : Flow Unit) (fs : List Frame) (m : Machine World) :
    Evolves m.process (f.resume inline fs flow m).machine.process := by
  cases f with
  | region before exit => exact evolves_of_land before exit fs flow m
  | reraise landing =>
    cases flow with
    | done => exact (steady_raiseAgain landing).evolves m
    | unwinding | resuming | ended => exact .refl _
  | main c =>
    cases flow with
    | unwinding payload =>
      change Evolves m.process (if c.reportUnhandled then _ else _)
      split
      · exact .printError _ m.process
      · exact .refl _
    | done | resuming | ended => exact .refl _
  | parent p =>
    cases flow with
    | done => exact (steady_emitThread (none, m.world)).evolves { p with process := m.process }
    | unwinding payload =>
      exact (steady_emitThread (some payload.exception, m.world)).evolves { p with process := m.process }
    | resuming | ended => exact .refl _
  | next | watch | scope | dropping => cases flow <;> exact .refl _

theorem evolves_of_exit (exit : Exit) (landing : Landing Unit) (fs : List Frame) (m : Machine World) :
    Evolves m.process (exit.step landing fs m).machine.process := by
  cases exit with
  | report | cleanUp | goOn => exact .refl _
  | handle handler =>
    simp only [Exit.step]
    split <;> exact .refl _
  | handleAndCleanUp handler cleanup =>
    simp only [Exit.step]
    split
    · exact .refl _
    · exact .init m.process

/-- **Every step makes its process evolve.** -/
theorem evolves_of_step {c c' : Point} (h : c.step inline = some c') :
    Evolves c.machine.process c'.machine.process := by
  rcases c with ⟨s | flow | ⟨landing, exit⟩, fs, m⟩
  · cases h
    exact evolves_of_begin s fs m
  · cases fs with
    | nil => cases h
    | cons f fs =>
      cases h
      exact evolves_of_resume f flow fs m
  · cases h
    exact evolves_of_exit exit landing fs m

/-- What every change of a process keeps holds all along a run. -/
theorem process_of_reaches {P : Process → Prop} (hP : ∀ p p', Evolves p p' → P p → P p') {c c' : Point}
    (hr : Reaches inline c c') (hc : P c.machine.process) : P c'.machine.process := by
  induction hr with
  | refl => exact hc
  | tail _ hs ih => exact hP _ _ (evolves_of_step hs) ih

theorem process_of_run {P : Process → Prop} (hP : ∀ p p', Evolves p p' → P p → P p') {s : Statement}
    {m m' : Machine World} {flow : Flow Unit} (h : s.run inline m = (flow, m')) (hm : P m.process) : P m'.process := by
  have hr := reaches_run inline s [] m
  rw [h] at hr
  exact process_of_reaches hP hr hm

/-! ## Initialization -/

/-- A configuration is in use, and its installation has taken place. -/
structure Initialized (p : Process) : Prop where
  active : p.active.isSome
  installed : p.installed = true

theorem installed_install (c : Configuration) (p : Process) : (p.install c).installed = true := by
  unfold Process.install
  split
  · assumption
  · split <;> rfl

theorem active_install (c : Configuration) (p : Process) : (p.install c).active = p.active := by
  unfold Process.install
  split
  · rfl
  · split <;> rfl

theorem initialized_initWith (c : Configuration) (p : Process) : Initialized (p.initWith c) := by
  refine ⟨?_, installed_install _ _⟩
  rw [Process.initWith, active_install]
  rfl

/-- A configuration that is in use stays in use. -/
theorem activate_of_isSome {p : Process} (h : p.active.isSome) (c : Configuration) : p.activate c = p := by
  obtain ⟨active, hactive⟩ := Option.isSome_iff_exists.1 h
  rw [Process.activate, hactive, Option.getD_some, ← hactive]

/-- Once initialized, a process keeps its configuration and its signals. -/
theorem Initialized.initWith_eq {p : Process} (h : Initialized p) (c : Configuration) : p.initWith c = p := by
  rw [Process.initWith]
  simp only [activate_of_isSome h.active]
  rw [Process.install, if_pos h.installed]

theorem Initialized.init_eq {p : Process} (h : Initialized p) : p.init = p := h.initWith_eq .default

theorem Initialized.evolve (p p' : Process) (he : Evolves p p') (h : Initialized p) : Initialized p' := by
  cases he with
  | refl => exact h
  | initWith c => exact initialized_initWith c p
  | disarm => exact ⟨h.active, h.installed⟩
  | printError => exact ⟨h.active, h.installed⟩

/-- The body of a region begins in a process that is initialized, and leaves it so. -/
theorem initialized_of_run {s : Statement} {m m' : Machine World} {flow : Flow Unit}
    (h : s.run inline m.enter = (flow, m')) : Initialized m'.process :=
  process_of_run Initialized.evolve h (initialized_initWith .default m.process)

end ManagedRuntime.Program
