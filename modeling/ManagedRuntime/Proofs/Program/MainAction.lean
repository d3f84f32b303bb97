import ManagedRuntime.Proofs.Configuration.Acceptance
import ManagedRuntime.Proofs.Execution.Startup
import ManagedRuntime.Proofs.Program.Landings
import ManagedRuntime.Proofs.Program.Reraising

/-!
# The main action and its exit code

A main action is done, or an exception leaves it, or a fault in it goes to a region of its caller or ends the process.

* `mainStart` : the machine on which a main action begins;
* `runMain_eq_zero_iff`, `runMain_eq_done_iff` : the two codes that it can end with;
* `runMain_cases` : all the ways in which it ends;
* `Stacked.depth_of_alone` : it runs in the regions of its caller;
* `Instruction.run_unlisted` : what becomes of a fault whose signal is not intercepted;
* `runMain_separates` : all of this for a configuration that has been read from a text.
-/

namespace ManagedRuntime.Program

open Execution

set_option autoImplicit false

variable {inline : Bool}

/-! ## Ends of a main action -/

/-- The machine on which a main action begins. -/
def mainStart (m : Machine World) : Machine World := { m with process := m.process.init }

theorem configuration_init (p : Process) : p.init.configuration = p.configuration := by
  rw [Process.init, Process.initWith, Process.configuration, active_install]
  rfl

section

variable {body : Statement} {m m' : Machine World} {flow : Flow Unit}

theorem runMain_of_run (h : body.run inline (mainStart m) = (flow, m')) :
    runMain (body.run inline) m = exitCode m.process.configuration (flow, m') := by
  rw [← configuration_init, ← h]
  rfl

theorem ne_zero_of_inRange {code : Int32} (h : Configuration.InRange code) : code ≠ 0 := by
  rintro rfl
  exact absurd h.1 (by decide)

theorem runMain_eq_zero_iff (hrange : Configuration.InRange m.process.configuration.exitCode) :
    runMain (body.run inline) m = (.done 0, m') ↔ body.run inline (mainStart m) = (.done (), m') := by
  refine ⟨fun h => ?_, fun h => runMain_of_run h⟩
  rcases hrun : body.run inline (mainStart m) with ⟨_ | payload | point | ending, m₁⟩ <;>
    rw [runMain_of_run hrun] at h
  · cases h
    rfl
  · exact absurd (Flow.done.inj (congrArg Prod.fst h)) (ne_zero_of_inRange hrange)
  · cases h
  · cases h

/-- The machine that an exception leaves behind which has left a main action. -/
def reported (c : Configuration) (e : Exception) (m : Machine World) : Machine World :=
  { m with
    process := if c.reportUnhandled then m.process.printError (Process.unhandledMark ++ e.message.characters) else m.process
    thread := m.thread.endUnwind.record e }

theorem runMain_eq_done_iff {code : Int32} (hcode : code ≠ 0) :
    runMain (body.run inline) m = (.done code, m') ↔ code = m.process.configuration.exitCode ∧
      ∃ p payload m₁, EndedByRaise inline body (mainStart m) p payload m₁ ∧
        m' = reported m.process.configuration payload.exception m₁ := by
  constructor
  · intro h
    rcases hrun : body.run inline (mainStart m) with ⟨_ | payload | point | ending, m₁⟩ <;>
      rw [runMain_of_run hrun] at h
    · cases h
      exact absurd rfl hcode
    · cases h
      obtain ⟨p, hp⟩ := run_eq_unwinding_iff.1 hrun
      exact ⟨rfl, p, payload, m₁, hp, rfl⟩
    · cases h
    · cases h
  · rintro ⟨rfl, p, payload, m₁, hp, rfl⟩
    exact runMain_of_run (run_eq_unwinding_iff.2 ⟨p, hp⟩)

/-- A jump that leaves a main action goes to the innermost region of its caller. -/
theorem current_of_main_resuming {point : ResumePoint}
    (h : body.run inline (mainStart m) = (.resuming point, m')) : m.thread.current = some point :=
  (current_of_run_resuming h : (mainStart m).thread.current = some point)

/-- A main action returns a code, is left by a jump to the region of its caller, or has ended the process. -/
theorem runMain_cases (inline : Bool) (body : Statement) (m : Machine World) :
    (∃ code m', runMain (body.run inline) m = (.done code, m')) ∨
    (∃ p f point m', EndedByFault inline body (mainStart m) p f ∧ m.thread.current = some point ∧
      runMain (body.run inline) m = (.resuming point, m') ∧ m'.thread.pending = some f) ∨
    ∃ ending m', runMain (body.run inline) m = (.ended ending, m') := by
  rcases hrun : body.run inline (mainStart m) with ⟨_ | payload | point | ending, m₁⟩
  · exact .inl ⟨0, m₁, runMain_of_run hrun⟩
  · exact .inl ⟨_, _, runMain_of_run hrun⟩
  · obtain ⟨p, f, hp, hf⟩ := exists_fault_of_run hrun
    exact .inr (.inl ⟨p, f, point, m₁, hp, current_of_main_resuming hrun, runMain_of_run hrun, hf⟩)
  · exact .inr (.inr ⟨ending, m₁, runMain_of_run hrun⟩)

theorem runMain_of_fault {p : Point} {f : Fault} (h : EndedByFault inline body (mainStart m) p f) :
    ∃ point m', m.thread.current = some point ∧ runMain (body.run inline) m = (.resuming point, m') ∧
      m'.thread.pending = some f := by
  obtain ⟨point, m', hrun, hf⟩ := run_of_fault h
  exact ⟨point, m', current_of_main_resuming hrun, runMain_of_run hrun, hf⟩

/-- A main action has ended the process if a step of it has. -/
theorem runMain_of_ended {p : Point} {ending : Ending} {fs : List Frame} {m₁ : Machine World}
    (hr : Reaches inline ⟨.run body, [], mainStart m⟩ p)
    (hs : p.step inline = some ⟨.back (.ended ending), fs, m₁⟩) :
    ∃ m', runMain (body.run inline) m = (.ended ending, m') := by
  obtain ⟨m', hend⟩ := reaches_ended inline ending fs m₁
  have heq := Reaches.final_unique rfl rfl (reaches_run inline body [] (mainStart m)) ((hr.tail hs).trans hend)
  rcases hrun : body.run inline (mainStart m) with ⟨flow, m₂⟩
  rw [hrun] at heq
  cases heq
  exact ⟨m₂, runMain_of_run hrun⟩

end

/-! ## The regions of the caller -/

/-- A thread with the regions of a run is deeper than at its beginning by as many as there are. -/
theorem Stacked.depth_of_alone {base t : Thread} {fs : List Frame} (h : Stacked base (fs.filterMap Frame.mark?) t)
    (hw : fs.filterMap Frame.waits? = []) : t.depth = base.depth + (regionsOf (fs.filterMap Frame.mark?)).length := by
  induction fs generalizing t with
  | nil => exact h.1.depth
  | cons f fs ih =>
    cases f with
    | region before exit =>
      obtain ⟨-, hdepth, -, -, hbefore⟩ := h
      have hb := ih hbefore hw
      change t.depth = base.depth + ((regionsOf (fs.filterMap Frame.mark?)).length + 1)
      omega
    | parent p => cases hw
    | next | watch | reraise | scope | dropping | main => exact ih h hw

theorem stacked_of_main {body : Statement} {m : Machine World} {p : Point}
    (hr : Reaches inline ⟨.run body, [], mainStart m⟩ p) (hp : p.control.phase ≠ .ended) :
    Stacked m.thread p.marks p.machine.thread :=
  (fits_of_reaches (fits_run body (mainStart m)) hr).stacked hp

/-! ## Faults -/

/-- A fault outside the regions of the body strikes in the innermost region of the caller. -/
theorem sameCells_of_main_fault {body : Statement} {m : Machine World} {p : Point} {s : Signal} {f : Fault}
    (hr : Reaches inline ⟨.run body, [], mainStart m⟩ p) (hb : Bare p.frames) (hf : p.Faults s f) :
    SameCells m.thread p.machine.thread := by
  refine (stacked_of_main hr ?_).sameCells_of_bare hb
  rw [hf.calm]
  exact Phase.noConfusion

/-- A signal that is not intercepted ends the process, unless it is merely sent and a watch takes it. -/
theorem Instruction.run_unlisted {i : Instruction} {s : Signal} {f : Fault} {m : Machine World}
    (h : i.fault? = some (s, f)) (hd : m.process.disposition s ≠ .intercept) :
    (∃ ending, i.run m = (.ended ending, m)) ∨
    ∃ code, i.run = Execution.send s code ∧ m.process.disposition s = .watch ∧
      i.run m = (.done (), { m with process := m.process.disarm s }) := by
  have htrap : ∀ t : Trap, s = t.signal → ∃ ending, ∀ α, (Execution.trap t : Action World α) m = (.ended ending, m) := by
    rintro t rfl
    unfold Execution.trap
    cases hds : m.process.disposition t.signal with
    | intercept => exact absurd hds hd
    | fatal => exact ⟨_, fun _ => rfl⟩
    | watch => exact ⟨_, fun _ => rfl⟩
  rcases fault?_eq_some h with ⟨t, hs, -, e | e⟩ | ⟨code, -, e⟩
  · obtain ⟨ending, he⟩ := htrap t hs
    exact .inl ⟨ending, by rw [e, he]⟩
  · obtain ⟨ending, he⟩ := htrap t hs
    exact .inl ⟨ending, by rw [e, Action.bind, he, Action.proceed]⟩
  · rw [e]
    unfold Execution.send
    cases hds : m.process.disposition s with
    | intercept => exact absurd hds hd
    | fatal => exact .inl ⟨_, rfl⟩
    | watch => exact .inr ⟨code, rfl, rfl, rfl⟩

/-! ## Success and failure -/

/-- What a main action `body` in a process with the configuration `c` comes to, called on the machine `m`. -/
structure SeparatesFailure (inline : Bool) (c : Configuration) (body : Statement) (m : Machine World) : Prop where
  range : 1 ≤ c.exitCode.toInt ∧ c.exitCode.toInt ≤ 255
  /-- It returns zero exactly if the body is done, whatever the body has caught. -/
  success : ∀ m', runMain (body.run inline) m = (.done 0, m') ↔ body.run inline (mainStart m) = (.done (), m')
  /-- An exception that leaves the body is that of the thread in the end, whatever has happened on its way. -/
  failure : ∀ p payload m₁, EndedByRaise inline body (mainStart m) p payload m₁ →
    ∃ m', runMain (body.run inline) m = (.done c.exitCode, m') ∧ m'.thread.exception = payload.exception
  /-- Any other code is that of an exception that has left the body. -/
  failed : ∀ code m', runMain (body.run inline) m = (.done code, m') → code ≠ 0 →
    code = c.exitCode ∧ ∃ p payload m₁, EndedByRaise inline body (mainStart m) p payload m₁ ∧
      m'.thread.exception = payload.exception
  /-- Where it does not return, a fault has gone to a region of the caller, or the process has ended. -/
  otherwise : (∃ code m', runMain (body.run inline) m = (.done code, m')) ∨
    (∃ p f point m', EndedByFault inline body (mainStart m) p f ∧ m.thread.current = some point ∧
      runMain (body.run inline) m = (.resuming point, m') ∧ m'.thread.pending = some f) ∨
    ∃ ending m', runMain (body.run inline) m = (.ended ending, m')
  /-- It is no region: all regions on its thread are those of the caller and those that the body has entered. -/
  depth : ∀ p, Reaches inline ⟨.run body, [], mainStart m⟩ p → p.control.phase ≠ .ended → p.waiting = [] →
    p.machine.thread.depth = m.thread.depth + p.regions.length
  /-- Outside the regions of the body, the innermost region is that of the caller. -/
  outside : ∀ p, Reaches inline ⟨.run body, [], mainStart m⟩ p → p.control.phase ≠ .ended → Bare p.frames →
    SameCells m.thread p.machine.thread
  /-- There, a fault goes to the region of the caller, unless there is none or an unwind would be lost. -/
  delivered : ∀ p s f, Reaches inline ⟨.run body, [], mainStart m⟩ p → Bare p.frames → p.Faults s f →
    ∀ before, m.thread.current = some before.nextPoint → p.machine.thread.unwindingSinceEntry = false →
    ∃ m', land before (runMain (body.run inline) m) = (.done (.fault f), m')
  /-- If so, the signal kills the process. -/
  killed : ∀ p s f, Reaches inline ⟨.run body, [], mainStart m⟩ p → Bare p.frames → p.Faults s f →
    m.thread.current = none ∨ p.machine.thread.unwindingSinceEntry = true →
    ∃ m', runMain (body.run inline) m = (.ended (.killed s), m')
  /-- A fault that is not intercepted ends the process, save that a watch takes a signal that is sent. -/
  unlisted : ∀ p i s f, Reaches inline ⟨.run body, [], mainStart m⟩ p → p.control = .run (.perform i) →
    i.fault? = some (s, f) → p.machine.process.disposition s ≠ .intercept →
    (∃ ending m', runMain (body.run inline) m = (.ended ending, m')) ∨
      ∃ code, i.run = Execution.send s code ∧ p.machine.process.disposition s = .watch ∧
        p.step inline = some ⟨.back (.done ()), p.frames,
          { p.machine with process := p.machine.process.disarm s }⟩

theorem separatesFailure (inline : Bool) (body : Statement) (m : Machine World)
    (hrange : Configuration.InRange m.process.configuration.exitCode) :
    SeparatesFailure inline m.process.configuration body m where
  range := hrange
  success _ := runMain_eq_zero_iff hrange
  failure p payload m₁ hp :=
    ⟨_, (runMain_eq_done_iff (ne_zero_of_inRange hrange)).2 ⟨rfl, p, payload, m₁, hp, rfl⟩, rfl⟩
  failed code m' h hcode := by
    obtain ⟨hcode, p, payload, m₁, hp, rfl⟩ := (runMain_eq_done_iff hcode).1 h
    exact ⟨hcode, p, payload, m₁, hp, rfl⟩
  otherwise := runMain_cases inline body m
  depth p hr hp hw := (stacked_of_main hr hp).depth_of_alone hw
  outside p hr hp hb := (stacked_of_main hr hp).sameCells_of_bare hb
  delivered p s f hr hb hf before hcur hu := by
    have hsame := sameCells_of_main_fault hr hb hf
    have hended : EndedByFault inline body (mainStart m) p f :=
      ⟨s, before.nextPoint, hr, hf, hsame.current.trans hcur, hu, fun g hg => hb g hg _⟩
    obtain ⟨point, m', hpoint, hrun, hpending⟩ := runMain_of_fault hended
    rw [hcur] at hpoint
    cases hpoint
    rw [hrun, land, if_pos rfl, hpending]
    exact ⟨_, rfl⟩
  killed p s f hr hb hf hkill := by
    have hsame := sameCells_of_main_fault hr hb hf
    rcases hf.step inline with ⟨point, hcur, hu, -⟩ | ⟨-, hs⟩
    · rcases hkill with hnone | hunwinding
      · rw [hsame.current, hnone] at hcur
        cases hcur
      · rw [hu] at hunwinding
        cases hunwinding
    · exact runMain_of_ended hr hs
  unlisted p i s f hr hi hfault hd := by
    obtain ⟨control, fs, m₀⟩ := p
    cases hi
    rcases i.run_unlisted hfault hd with ⟨ending, he⟩ | ⟨code, hsend, hwatch, he⟩
    · have hs : Point.step inline ⟨.run (.perform i), fs, m₀⟩ = some ⟨.back (.ended ending), fs, m₀⟩ :=
        congrArg (fun r => some (Point.after fs r)) he
      exact .inl ⟨ending, runMain_of_ended hr hs⟩
    · exact .inr ⟨code, hsend, hwatch, congrArg (fun r => some (Point.after fs r)) he⟩

/--
**A main action tells success from failure.** With a configuration that a text gives, it returns zero exactly if its
body is done, and the code of the configuration exactly if an exception leaves the body, which is then the exception of
the thread. It enters no region: a fault outside the regions of the body goes to the caller or is fatal, except for a
signal that the body sends to itself and that a watch of the host takes.
-/
theorem runMain_separates (inline : Bool) {toml : Toml.Library} {text : List Char} {c : Configuration}
    (htext : Configuration.parseBy toml text = .ok c) (body : Statement) (m : Machine World)
    (hm : m.process.active = some c) :
    (∀ standard, toml.Implements standard → Reads standard text c) ∧ SeparatesFailure inline c body m := by
  have hc : m.process.configuration = c := by
    rw [Process.configuration, hm]
    rfl
  have hvalid := Configuration.valid_of_parseBy htext
  refine ⟨fun standard h => ((Configuration.parseBy_eq_ok_iff h).1 htext).1, ?_⟩
  rw [← hc] at hvalid ⊢
  exact separatesFailure inline body m hvalid.range

def threeOnFailure : Configuration := { Configuration.default with exitCode := 3 }

/-- The destructor catches an exception of its own and clears that of the thread while the body unwinds. -/
def clearingMain : Statement :=
  .withDestructor (.seq (.protect (.perform (.raiseForeign none))) (.perform .clear)) (.perform (.raise firstRaised))

def configured (c : Configuration) : Machine World := ⟨Process.start.initWith c, .fresh, .empty⟩

theorem runMain_separates_clearing :
    Configuration.parse "[exit]\nunhandled_exception_code = 3\n".toList = .ok threeOnFailure ∧
    ∃ m', runMain (clearingMain.run false) (configured threeOnFailure) = (.done 3, m') ∧
      m'.thread.exception = firstRaised := by
  have htext : Configuration.parse "[exit]\nunhandled_exception_code = 3\n".toList = .ok threeOnFailure := by cbv
  have hrun : clearingMain.run false (mainStart (configured threeOnFailure)) = (.unwinding (.raised firstRaised), _) :=
    rfl
  obtain ⟨p, hp⟩ := run_eq_unwinding_iff.1 hrun
  exact ⟨htext, (runMain_separates false htext clearingMain (configured threeOnFailure) rfl).2.failure p _ _ hp⟩

/-- A bus error, and a sign of life. -/
def outlivingMain : Statement := .seq (.perform (.send .bus sentToItself)) (.perform (.log (.name "alive")))

/-- There is no region, nothing is intercepted, and yet the main action with the fault is done. -/
theorem fault_outlived :
    (Instruction.send .bus sentToItself).fault? = some (.bus, .busError) ∧
    (configured nothingIntercepted).thread.current = none ∧
    (∃ m, runMain (outlivingMain.run true) (configured nothingIntercepted) = (.done 0, m)) ∧
    ∃ m, runProcess nothingIntercepted outlivingMain = (.ended (.exited 0), m) ∧
      m.world.events = [.log (.name "alive"), .exit 0 ⟨.none, 0⟩] :=
  ⟨rfl, rfl, ⟨_, rfl⟩, _, rfl, rfl⟩

end ManagedRuntime.Program
