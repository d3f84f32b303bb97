import ManagedRuntime.Proofs.Program.RaisingForms
import ManagedRuntime.Proofs.Program.Steps

/-!
# What a step does to its thread

The cells of a thread change in few ways, whatever the program is.

* `Modest` : an action that does nothing to its thread but raise; `QuietEnd` : it may change the exception as well;
* `Instruction.fault?` : the fault that an instruction causes; `Instruction.run_cases` : what an instruction does;
* `View` : what matters about a point: its phase, the marks that its frames leave on threads, and the thread;
* `Moves` : the ways in which a view changes; `moves_of_step` : every step is one of them.
-/

namespace ManagedRuntime

open Execution

set_option autoImplicit false

/-! ## Quiet actions -/

namespace Execution

variable {ω α β : Type}

/-- At most the exception of the thread `t` has changed, or an unwind has begun with the exception that it carries. -/
def QuietEnd (t : Thread) : Flow α × Machine ω → Prop
  | (.done _, m) | (.ended _, m) => ∃ e, m.thread = t.record e
  | (.unwinding payload, m) => ∃ e, m.thread = (t.record e).beginUnwind ∧ ∀ r, payload = .raised r → e = r
  | (.resuming _, _) => False

/-- The thread `t` is as it was, or an unwind has begun on it with the exception that it carries. -/
def ModestEnd (t : Thread) : Flow α × Machine ω → Prop
  | (.done _, m) | (.ended _, m) => m.thread = t
  | (.unwinding (.raised e), m) => m.thread = (t.record e).beginUnwind
  | (.unwinding (.foreign _), m) => m.thread = t.beginUnwind
  | (.resuming _, _) => False

/-- An action that does nothing to its thread but raise. -/
def Modest (action : Action ω α) : Prop := ∀ m, ModestEnd m.thread (action m)

theorem ModestEnd.quiet {t : Thread} {r : Flow α × Machine ω} (h : ModestEnd t r) : QuietEnd t r := by
  rcases r with ⟨_ | payload | _ | _, m⟩
  · exact ⟨t.exception, h⟩
  · cases payload with
    | raised e => exact ⟨e, h, fun r hr => by cases hr; rfl⟩
    | foreign text => exact ⟨t.exception, h, fun r hr => by cases hr⟩
  · exact h.elim
  · exact ⟨t.exception, h⟩

theorem ModestEnd.proceed {t : Thread} {next : α → Action ω β} {r : Flow α × Machine ω} (h : ModestEnd t r)
    (hn : ∀ a, Modest (next a)) : ModestEnd t (Action.proceed next r) := by
  rcases r with ⟨a | payload | _ | _, m⟩
  · have hna := hn a m
    rw [show m.thread = t from h] at hna
    exact hna
  · cases payload <;> exact h
  all_goals exact h

theorem Modest.bind {first : Action ω α} {next : α → Action ω β} (h : Modest first) (hn : ∀ a, Modest (next a)) :
    Modest (first >>= next) := fun m => (h m).proceed hn

theorem modest_pure (a : α) : Modest (pure a : Action ω α) := fun _ => rfl

theorem modest_getProcess : Modest (Action.getProcess : Action ω Process) := fun _ => rfl

theorem modest_getThread : Modest (Action.getThread : Action ω Thread) := fun _ => rfl

theorem modest_getWorld : Modest (Action.getWorld : Action ω ω) := fun _ => rfl

theorem modest_onProcess (f : Process → Process) : Modest (Action.onProcess f : Action ω Unit) := fun _ => rfl

theorem modest_onWorld (f : ω → ω) : Modest (Action.onWorld f) := fun _ => rfl

theorem modest_finish (ending : Ending) : Modest (Action.finish ending : Action ω α) := fun _ => rfl

theorem modest_raise (e : Exception) : Modest (raise e : Action ω α) := fun _ => rfl

theorem modest_raiseForeign (text : Option String) : Modest (raiseForeign text : Action ω α) := fun _ => rfl

theorem modest_reraise : Modest (reraise : Action ω α) := modest_getThread.bind fun _ => modest_raise _

theorem modest_orRaise (r : Except Failure α) : Modest (orRaise r : Action ω α) := by
  cases r with
  | ok a => exact modest_pure a
  | error f => exact modest_raise _

theorem modest_raiseAgain (landing : Landing Unit) : Modest (raiseAgain landing : Action ω Unit) := by
  unfold raiseAgain
  cases landing.exception? with
  | none => exact modest_pure _
  | some e => exact modest_raise e

end Execution

namespace Program

variable {inline : Bool}

/-! ## Instructions -/

/-- The signal and the class of the fault that an instruction causes. -/
def Instruction.fault? : Instruction → Option (Signal × Fault)
  | .trap t => some (t.signal, t.fault)
  | .send signal code => some (signal, .ofSignal signal code)
  | .call (.divide a b) | .call (.modulo a b) =>
    if Word.Traps a b then some (Trap.division.signal, Trap.division.fault) else none
  | _ => none

/-- An instruction that forgets the exception of the thread. -/
def Instruction.Clears : Instruction → Prop
  | .clear | .foreignShutdown => True
  | _ => False

theorem modest_emit (e : Event) : Modest (emit e) := modest_onWorld _

theorem modest_settle {α : Type} (raising : Bool) (result : Except Failure α) : Modest (settle raising result) := by
  cases raising
  · exact modest_pure _
  · exact (modest_orRaise _).bind fun _ => modest_pure _

theorem modest_answer {α : Type} (raising : Bool) (value : α → Value) (result : Except Failure α) :
    Modest (answer raising value result : Action World Value) := by
  cases result with
  | ok a => exact modest_pure _
  | error f =>
    cases raising
    · exact modest_pure _
    · exact modest_raise _

theorem modest_layOut (result : Except Layout.Refusal Text) : Modest (layOut result : Action World Value) := by
  cases result with
  | ok t => exact modest_pure _
  | error refusal => exact modest_raiseForeign _

theorem modest_dividing (part : Int32 × Int32 → Int32) {a b : Int32} (h : ¬ Word.Traps a b) :
    Modest (dividing part a b : Action World Value) := by
  unfold dividing
  cases hresult : Word.divide? a b with
  | none => exact absurd (Word.divide?_eq_none_iff.1 hresult) h
  | some result => exact modest_pure _

theorem modest_routine (routine : Routine) (h : (Instruction.call routine).fault? = none) :
    Modest (routine.run : Action World Value) := by
  cases routine with
  | divide a b | modulo a b => exact modest_dividing _ fun ht => by simp [Instruction.fault?, ht] at h
  | textToWord | textToNumber => exact modest_answer _ _ _
  | wordInField | numberInField => exact modest_layOut _
  | _ => exact modest_pure _

theorem modest_runArray (raising : Bool) (command : SharedArray.Command Int32) : Modest (runArray raising command) := by
  rw [runArray_eq]
  exact modest_getWorld.bind fun _ => (modest_onWorld _).bind fun _ => (modest_settle _ _).bind fun _ => modest_emit _

theorem modest_runText (raising : Bool) (command : Text.Command) : Modest (runText raising command) := by
  rw [runText_eq]
  refine modest_getWorld.bind fun w => (modest_settle _ _).bind fun r => ?_
  cases r with
  | ok r => exact (modest_onWorld _).bind fun _ => modest_emit _
  | error f => exact modest_emit _

theorem modest_emitConfiguration : Modest emitConfiguration := modest_getProcess.bind fun _ => modest_emit _

/-- An instruction that causes no fault and does not forget the exception is modest. -/
theorem Instruction.modest (i : Instruction) (h : i.fault? = none) (hc : ¬ i.Clears) : Modest i.run := by
  cases i with
  | log label => exact modest_emit _
  | bump => exact fun _ => rfl
  | foreignInit => exact modest_onProcess _
  | state | inRegion => exact modest_getThread.bind fun _ => modest_emit _
  | counter => exact modest_getWorld.bind fun _ => modest_emit _
  | intercepted => exact modest_getProcess.bind fun _ => modest_emit _
  | init | initWith => exact (modest_onProcess _).bind fun _ => modest_emitConfiguration
  | clear | foreignShutdown => exact absurd trivial hc
  | raise | raiseFailure | foreignRaise => exact modest_raise _
  | reraise => exact modest_reraise
  | raiseForeign => exact modest_raiseForeign _
  | trap | send => simp [Instruction.fault?] at h
  | call routine => exact (modest_routine routine h).bind fun _ => modest_emit _
  | array raising command => exact modest_runArray raising command
  | text raising command => exact modest_runText raising command
  | foreignCode => exact (modest_getThread.bind fun _ => modest_pure _).bind fun _ => modest_emit _
  | foreignMessage => exact (modest_getThread.bind fun _ => modest_pure _).bind fun _ => modest_emit _
  | halt | abort => exact modest_finish _
  | runError => exact (modest_onProcess _).bind fun _ => modest_finish _

/-- An instruction that forgets the exception does nothing else. -/
theorem Instruction.run_of_clears {i : Instruction} (h : i.Clears) (m : Machine World) :
    i.fault? = none ∧ i.run m = (.done (), { m with thread := m.thread.record .none }) := by
  cases i with
  | clear | foreignShutdown => exact ⟨rfl, rfl⟩
  | _ => exact h.elim

/-- The delivery of a fault is the same wherever its value is waited for. -/
theorem proceed_intercept {ω α β : Type} (next : α → Action ω β) (s : Signal) (f : Fault) (m : Machine ω) :
    Action.proceed next (intercept s f m) = intercept s f m := by
  unfold intercept
  cases m.thread.current with
  | none => rfl
  | some point => dsimp only; split <;> rfl

/-- A fault in the innermost region, where no unwind began since its entry. -/
theorem intercept_of_current {ω α : Type} {s : Signal} {f : Fault} {m : Machine ω} {point : ResumePoint}
    (hc : m.thread.current = some point) (hu : m.thread.unwindingSinceEntry = false) :
    (intercept s f : Action ω α) m = (.resuming point, { m with thread := { m.thread with pending := some f } }) := by
  unfold intercept
  rw [hc]
  exact if_neg (by rw [hu]; exact Bool.false_ne_true)

theorem trap_intercepted {ω α : Type} {t : Trap} {m : Machine ω} (hd : m.process.disposition t.signal = .intercept) :
    (Execution.trap t : Action ω α) m = intercept t.signal t.fault m := by
  simp only [Execution.trap, hd]

theorem modestEnd_trap {ω α : Type} {t : Trap} {m : Machine ω} (hd : m.process.disposition t.signal ≠ .intercept) :
    ModestEnd m.thread ((Execution.trap t : Action ω α) m) := by
  unfold Execution.trap
  cases h : m.process.disposition t.signal with
  | intercept => exact absurd h hd
  | fatal | watch => rfl

theorem modestEnd_send {ω : Type} {s : Signal} {code : Int32} {m : Machine ω}
    (hd : m.process.disposition s ≠ .intercept) : ModestEnd m.thread (Execution.send s code m) := by
  unfold Execution.send
  cases h : m.process.disposition s with
  | intercept => exact absurd h hd
  | fatal | watch => rfl

theorem dividing_eq_trap (part : Int32 × Int32 → Int32) {a b : Int32} (h : Word.Traps a b) :
    (dividing part a b : Action World Value) = Execution.trap .division := by
  simp only [dividing, Word.divide?_eq_none_iff.2 h]

/-- An instruction that causes a fault is a trap, or sends a signal. -/
theorem Instruction.fault?_eq_some {i : Instruction} {s : Signal} {f : Fault} (h : i.fault? = some (s, f)) :
    (∃ t, s = t.signal ∧ f = t.fault ∧
      (i.run = Execution.trap t ∨ i.run = Action.bind (Execution.trap t) fun v => emit (.call v))) ∨
    ∃ code, f = .ofSignal s code ∧ i.run = Execution.send s code := by
  have hdivision : ∀ (part : Int32 × Int32 → Int32) (a b : Int32),
      (if Word.Traps a b then some (Trap.division.signal, Trap.division.fault) else none) = some (s, f) →
      ∃ t : Trap, s = t.signal ∧ f = t.fault ∧
        Action.bind (dividing part a b) (fun v => emit (.call v)) =
          Action.bind (Execution.trap t) fun v => emit (.call v) := by
    intro part a b h
    split at h
    · rename_i ht
      cases h
      exact ⟨.division, rfl, rfl, by rw [dividing_eq_trap part ht]⟩
    · cases h
  cases i with
  | trap t =>
    cases h
    exact .inl ⟨t, rfl, rfl, .inl rfl⟩
  | send signal code =>
    cases h
    exact .inr ⟨code, rfl, rfl⟩
  | call routine =>
    cases routine with
    | divide a b | modulo a b =>
      obtain ⟨t, hs, hf, e⟩ := hdivision _ a b h
      exact .inl ⟨t, hs, hf, .inr e⟩
    | _ => cases h
  | _ => cases h

/-- A fault on an intercepted signal goes to the innermost region, or is fatal. -/
theorem Instruction.run_intercepted {i : Instruction} {s : Signal} {f : Fault} {m : Machine World}
    (h : i.fault? = some (s, f)) (hd : m.process.disposition s = .intercept) : i.run m = intercept s f m := by
  rcases fault?_eq_some h with ⟨t, rfl, rfl, e | e⟩ | ⟨code, rfl, e⟩
  · rw [e, trap_intercepted hd]
  · rw [e, Action.bind, trap_intercepted hd, proceed_intercept]
  · rw [e]
    simp only [Execution.send, hd]

theorem Instruction.run_not_intercepted {i : Instruction} {s : Signal} {f : Fault} {m : Machine World}
    (h : i.fault? = some (s, f)) (hd : m.process.disposition s ≠ .intercept) : ModestEnd m.thread (i.run m) := by
  rcases fault?_eq_some h with ⟨t, rfl, rfl, e | e⟩ | ⟨code, rfl, e⟩
  · rw [e]
    exact modestEnd_trap hd
  · rw [e]
    exact (modestEnd_trap hd).proceed fun _ => modest_emit _
  · rw [e]
    exact modestEnd_send hd

/-- The machine from which a fault jumps. -/
def jumping (m : Machine World) (f : Fault) : Machine World :=
  { m with thread := { m.thread with pending := some f } }

/-- An instruction forgets the exception, is modest, or its fault makes control jump to the innermost region. -/
theorem Instruction.run_cases (i : Instruction) (m : Machine World) :
    (i.Clears ∧ i.run m = (.done (), { m with thread := m.thread.record .none })) ∨
    ModestEnd m.thread (i.run m) ∨
    ∃ s f point, i.fault? = some (s, f) ∧ m.process.disposition s = .intercept ∧ m.thread.current = some point ∧
      m.thread.unwindingSinceEntry = false ∧ i.run m = (.resuming point, jumping m f) := by
  by_cases hclears : i.Clears
  · exact .inl ⟨hclears, (run_of_clears hclears m).2⟩
  cases h : i.fault? with
  | none => exact .inr (.inl (i.modest h hclears m))
  | some fault =>
    obtain ⟨s, f⟩ := fault
    by_cases hd : m.process.disposition s = .intercept
    · rw [i.run_intercepted h hd]
      unfold intercept
      cases hc : m.thread.current with
      | none => exact .inr (.inl rfl)
      | some point =>
        cases hu : m.thread.unwindingSinceEntry
        · exact .inr (.inr ⟨s, f, point, rfl, hd, rfl, rfl, rfl⟩)
        · exact .inr (.inl rfl)
    · exact .inr (.inl (i.run_not_intercepted h hd))

/-- An instruction ends quietly, or its fault makes control jump to the innermost region. -/
theorem Instruction.run_spec (i : Instruction) (m : Machine World) :
    QuietEnd m.thread (i.run m) ∨
    ∃ s f point, i.fault? = some (s, f) ∧ m.process.disposition s = .intercept ∧ m.thread.current = some point ∧
      m.thread.unwindingSinceEntry = false ∧ i.run m = (.resuming point, jumping m f) := by
  rcases i.run_cases m with ⟨-, e⟩ | h | h
  · rw [e]
    exact .inl ⟨.none, rfl⟩
  · exact .inl h.quiet
  · exact .inr h

/-! ## Views -/

/-- Where the control of a thread is. -/
inductive Phase where
  | calm
  | unwinding
  | jumping (point : ResumePoint)
  | ended

/-- What a frame means for the cells of threads. -/
inductive Mark where
  /-- A region that was entered on the thread `before`. -/
  | region (before : Thread)
  /-- An unwind that waits for a destructor. -/
  | unwind
  /-- A thread that waits for the one that runs. -/
  | parent (t : Thread)

structure View where
  phase : Phase
  /-- The innermost mark is the first. -/
  marks : List Mark
  thread : Thread

def Control.phase : Control → Phase
  | .run _ | .landed _ _ | .back (.done _) => .calm
  | .back (.unwinding _) => .unwinding
  | .back (.resuming point) => .jumping point
  | .back (.ended _) => .ended

def Frame.mark? : Frame → Option Mark
  | .region before _ => some (.region before)
  | .dropping _ => some .unwind
  | .parent m => some (.parent m.thread)
  | _ => none

def Point.marks (c : Point) : List Mark := c.frames.filterMap Frame.mark?

def Point.view (c : Point) : View := ⟨c.control.phase, c.marks, c.machine.thread⟩

/-! ## Moves -/

/-- The ways in which one step changes a view. -/
inductive Moves : View → View → Prop where
  | pass (v : View) : Moves v v
  | stop (v : View) (ms : List Mark) (t : Thread) : Moves v ⟨.ended, ms, t⟩
  | record (ms : List Mark) (t : Thread) (e : Exception) : Moves ⟨.calm, ms, t⟩ ⟨.calm, ms, t.record e⟩
  | raise (ms : List Mark) (t : Thread) (e : Exception) :
    Moves ⟨.calm, ms, t⟩ ⟨.unwinding, ms, (t.record e).beginUnwind⟩
  | fault (ms : List Mark) (t : Thread) (point : ResumePoint) (f : Fault) (hc : t.current = some point)
    (hu : t.unwindingSinceEntry = false) :
    Moves ⟨.calm, ms, t⟩ ⟨.jumping point, ms, { t with pending := some f }⟩
  | enter (ms : List Mark) (t : Thread) : Moves ⟨.calm, ms, t⟩ ⟨.calm, .region t :: ms, t.enter⟩
  | leave (b : Thread) (ms : List Mark) (t : Thread) :
    Moves ⟨.calm, .region b :: ms, t⟩ ⟨.calm, ms, b.leave t⟩
  | catchUnwind (b : Thread) (ms : List Mark) (t : Thread) (e : Exception) :
    Moves ⟨.unwinding, .region b :: ms, t⟩ ⟨.calm, ms, (b.leave t.endUnwind).record e⟩
  | catchFault (b : Thread) (ms : List Mark) (t : Thread) :
    Moves ⟨.jumping b.nextPoint, .region b :: ms, t⟩
      ⟨.calm, ms, (b.leave { t with pending := none }).record (.ofFault (t.pending.getD .unknown))⟩
  | jumpPast (b : Thread) (ms : List Mark) (t : Thread) (point : ResumePoint) (h : point ≠ b.nextPoint) :
    Moves ⟨.jumping point, .region b :: ms, t⟩ ⟨.jumping point, ms, t⟩
  | drop (ms : List Mark) (t : Thread) : Moves ⟨.unwinding, ms, t⟩ ⟨.calm, .unwind :: ms, t⟩
  | dropped (ms : List Mark) (t : Thread) : Moves ⟨.calm, .unwind :: ms, t⟩ ⟨.unwinding, ms, t⟩
  | skip (ms : List Mark) (t : Thread) (point : ResumePoint) :
    Moves ⟨.jumping point, .unwind :: ms, t⟩ ⟨.jumping point, ms, t⟩
  | exit (ms : List Mark) (t : Thread) (e : Exception) :
    Moves ⟨.unwinding, ms, t⟩ ⟨.calm, ms, t.endUnwind.record e⟩
  | spawn (ms : List Mark) (t : Thread) : Moves ⟨.calm, ms, t⟩ ⟨.calm, .parent t :: ms, .fresh⟩
  | join (ms : List Mark) (p t : Thread) (phase : Phase) (h : phase = .calm ∨ phase = .unwinding) :
    Moves ⟨phase, .parent p :: ms, t⟩ ⟨.calm, ms, p⟩
  | lose (ms : List Mark) (p t : Thread) (point : ResumePoint) :
    Moves ⟨.jumping point, .parent p :: ms, t⟩ ⟨.jumping point, ms, p⟩

theorem moves_of_quietEnd {fs : List Frame} {t : Thread} {r : Flow Unit × Machine World} (h : QuietEnd t r) :
    Moves ⟨.calm, fs.filterMap Frame.mark?, t⟩ (Point.after fs r).view := by
  rcases r with ⟨_ | payload | point | ending, m⟩
  · obtain ⟨e, h⟩ := h
    change Moves _ ⟨.calm, _, m.thread⟩
    rw [h]
    exact .record _ _ _
  · obtain ⟨e, h, -⟩ := h
    change Moves _ ⟨.unwinding, _, m.thread⟩
    rw [h]
    exact .raise _ _ _
  · exact h.elim
  · exact .stop _ _ _

theorem moves_of_run (i : Instruction) (fs : List Frame) (m : Machine World) :
    Moves ⟨.calm, fs.filterMap Frame.mark?, m.thread⟩ (Point.after fs (i.run m)).view := by
  rcases i.run_spec m with h | ⟨s, f, point, -, -, hc, hu, e⟩
  · exact moves_of_quietEnd h
  · rw [e]
    exact .fault _ _ point f hc hu

theorem moves_of_begin (s : Statement) (fs : List Frame) (m : Machine World) :
    Moves ⟨.calm, fs.filterMap Frame.mark?, m.thread⟩ (s.begin inline fs m).view := by
  cases s with
  | skip | seq | sameRegion | runMain | withDestructor => exact .pass _
  | perform i => exact moves_of_run i fs m
  | protect | tryCatch | tryFinally | tryCatchFinally => exact .enter _ _
  | nest count =>
    cases count with
    | zero => exact .pass _
    | succ count => exact .enter _ _
  | times count =>
    cases count with
    | zero => exact .pass _
    | succ count => exact .pass _
  | thread => exact .spawn _ _

theorem moves_of_land (before : Thread) (exit : Exit) (flow : Flow Unit) (fs : List Frame) (m : Machine World) :
    Moves (Point.view ⟨.back flow, .region before exit :: fs, m⟩)
      (Point.leaving exit fs (land before (flow, m))).view := by
  cases flow with
  | done => exact .leave _ _ _
  | unwinding payload => exact .catchUnwind _ _ _ _
  | resuming point =>
    unfold land
    dsimp only
    split
    · rename_i h
      rw [h]
      exact .catchFault _ _ _
    · rename_i h
      exact .jumpPast _ _ _ _ h
  | ended ending => exact .stop _ _ _

theorem moves_of_raiseAgain (landing : Landing Unit) (fs : List Frame) (m : Machine World) :
    Moves ⟨.calm, fs.filterMap Frame.mark?, m.thread⟩ (Point.after fs (raiseAgain landing m)).view :=
  moves_of_quietEnd (modest_raiseAgain landing m).quiet

theorem moves_of_emitThread {v : View} (r : Option Exception × World) (fs : List Frame) (m : Machine World)
    (h : Moves v ⟨.calm, fs.filterMap Frame.mark?, m.thread⟩) :
    Moves v (Point.after fs (emitThread inline r m)).view := by
  cases inline <;> exact h

theorem moves_of_collect (p : Machine World) (flow : Flow Unit) (fs : List Frame) (m : Machine World) :
    Moves (Point.view ⟨.back flow, .parent p :: fs, m⟩)
      (Point.after fs (Action.proceed (emitThread inline) (collect p (flow, m)))).view := by
  cases flow with
  | done =>
    exact moves_of_emitThread (none, m.world) fs { p with process := m.process } (.join _ _ _ _ (.inl rfl))
  | unwinding payload =>
    exact moves_of_emitThread (some payload.exception, m.world) fs { p with process := m.process }
      (.join _ _ _ _ (.inr rfl))
  | resuming point => exact .lose _ _ _ _
  | ended ending => exact .stop _ _ _

theorem moves_of_resume (f : Frame) (flow : Flow Unit) (fs : List Frame) (m : Machine World) :
    Moves (Point.view ⟨.back flow, f :: fs, m⟩) (f.resume inline fs flow m).view := by
  cases f with
  | next | watch => cases flow <;> exact .pass _
  | region before exit => exact moves_of_land before exit flow fs m
  | reraise landing =>
    cases flow with
    | done => exact moves_of_raiseAgain landing fs m
    | _ => exact .pass _
  | scope destructor =>
    cases flow with
    | unwinding payload => exact .drop _ _
    | _ => exact .pass _
  | dropping payload =>
    cases flow with
    | done => exact .dropped _ _
    | unwinding => exact .stop _ _ _
    | resuming point => exact .skip _ _ _
    | ended => exact .stop _ _ _
  | main c =>
    cases flow with
    | unwinding payload => exact .exit _ _ _
    | _ => exact .pass _
  | parent p => exact moves_of_collect p flow fs m

theorem moves_of_exit (exit : Exit) (landing : Landing Unit) (fs : List Frame) (m : Machine World) :
    Moves ⟨.calm, fs.filterMap Frame.mark?, m.thread⟩ (exit.step landing fs m).view := by
  cases exit with
  | report | cleanUp | goOn => exact .pass _
  | handle handler =>
    simp only [Exit.step]
    split <;> exact .pass _
  | handleAndCleanUp handler cleanup =>
    simp only [Exit.step]
    split
    · exact .pass _
    · exact .enter _ _

/-- **Every step moves the view of its point.** -/
theorem moves_of_step {c c' : Point} (h : c.step inline = some c') : Moves c.view c'.view := by
  rcases c with ⟨s | flow | ⟨landing, exit⟩, fs, m⟩
  · cases h
    exact moves_of_begin s fs m
  · cases fs with
    | nil => cases h
    | cons f fs =>
      cases h
      exact moves_of_resume f flow fs m
  · cases h
    exact moves_of_exit exit landing fs m

end Program

end ManagedRuntime
