import ManagedRuntime.Proofs.Program.Exchange
import ManagedRuntime.Proofs.Program.Unwinds

/-!
# Faults and raises

An exception is delivered by a jump if a fault causes it, and by an unwind if it is raised. Handlers cannot tell.

* `Instruction.asRaise` : the raise that stands for an instruction that faults;
* `untagged` : events, where a region that reports a fault counts as one that reports the exception of the fault;
* `FaultsDirectly` : in a run every fault is intercepted, with nothing on the way to its region that tells a jump
  from an unwind;
* `faults_as_raises` : then a program ends as it does with a raise in place of each fault.
-/

namespace ManagedRuntime.Program

open Execution

set_option autoImplicit false

variable {inline : Bool}

/-! ## Raises in place of faults -/

/-- An instruction that causes a fault, as the raise of the exception of this fault. -/
def Instruction.asRaise (i : Instruction) : Instruction :=
  match i.fault? with
  | some (_, f) => .raise (.ofFault f)
  | none => i

/-- A landing without the difference between a fault and the raise of its exception. -/
def untag : Landing Unit → Landing Unit
  | .fault f => .raised (.ofFault f)
  | landing => landing

def Event.untag : Event → Event
  | .protect landing => .protect (Program.untag landing)
  | e => e

/-- Everything matters but how a region tells a fault from a raise. -/
def untagged : Comparison := .through Event.untag true

theorem exception_untag (landing : Landing Unit) : (untag landing).exception? = landing.exception? := by
  cases landing <;> rfl

/--
Whenever an instruction that causes a fault is performed, the signal is intercepted, and no destructor, no main
action and no thread waits between it and the innermost region.
-/
def FaultsDirectly (inline : Bool) (first : Point) : Prop :=
  ∀ i fs m s f, Reaches inline first ⟨.run (.perform i), fs, m⟩ → i.fault? = some (s, f) →
    m.process.disposition s = .intercept ∧ Direct fs

/-! ## Delivery -/

/-- On a direct way there is a region, and no unwind began inside it. -/
theorem Direct.marks {fs : List Frame} (h : Direct fs) :
    regionsOf (fs.filterMap Frame.mark?) ≠ [] ∧ unwindsInside (fs.filterMap Frame.mark?) = 0 := by
  induction fs with
  | nil => exact h.elim
  | cons f fs ih =>
    cases f with
    | region before exit => exact ⟨List.cons_ne_nil _ _, rfl⟩
    | next | watch | reraise => exact ih h
    | scope | dropping | main | parent => exact h.elim

theorem not_nested_of_faultsDirectly {first c : Point} (h : FaultsDirectly inline first)
    (hc : Reaches inline first c) : ¬ c.Nested := by
  rintro ⟨⟨s, f, i, hi, hfault, -⟩, hinside, -⟩
  obtain ⟨control, fs, m⟩ := c
  cases hi
  have hzero := (h i fs m s f hc hfault).2.marks.2
  change 0 < unwindsInside (fs.filterMap Frame.mark?) at hinside
  omega

section Delivery

variable {program : Statement} {process : Process} {world : World}

/-- A fault on a direct way is delivered. -/
theorem run_of_faultsDirectly (h : FaultsDirectly inline (program.initial process world)) {i : Instruction}
    {fs : List Frame} {m : Machine World} {s : Signal} {f : Fault}
    (hr : Reaches inline (program.initial process world) ⟨.run (.perform i), fs, m⟩) (hi : i.fault? = some (s, f)) :
    ∃ point, i.run m = (.resuming point, jumping m f) := by
  obtain ⟨hd, hdirect⟩ := h i fs m s f hr hi
  obtain ⟨hregions, hinside⟩ := hdirect.marks
  have hclean := clean_of_reaches (clean_initial program process world) hr fun c hc _ =>
    not_nested_of_faultsDirectly h hc
  have hstacked : Stacked .fresh (fs.filterMap Frame.mark?) m.thread := hclean.fits.stacked_of_calm rfl
  have hcounted : Counted true (fs.filterMap Frame.mark?) m.thread.unwinds := hclean.tallies.of_calm rfl
  have hu := (letsThrough_iff hstacked hcounted hregions).2 (.inl hinside)
  obtain ⟨b, bs, hb⟩ := List.exists_cons_of_ne_nil hregions
  have hcur : m.thread.current = some b.nextPoint := by
    rw [hstacked.current_eq, hb]
    rfl
  refine ⟨b.nextPoint, ?_⟩
  rw [i.run_intercepted hi hd]
  exact intercept_of_current hcur hu

/-- Where a run performs an instruction, the raise in its place ends alike. -/
theorem hides_asRaise (h : FaultsDirectly inline (program.initial process world)) (i : Instruction) :
    (Statement.perform i).Hides untagged inline (program.initial process world) Instruction.asRaise := by
  intro fs m m' hr hm
  change Ends untagged fs Eq (i.run m) (i.asRaise.run m')
  cases hi : i.fault? with
  | none =>
    have he : i.asRaise = i := by simp only [Instruction.asRaise, hi]
    rw [he]
    refine i.matches_self ?_ fs m m' hm
    intro _ e d d' hdepth
    rw [hdepth rfl]
  | some fault =>
    obtain ⟨s, f⟩ := fault
    have he : i.asRaise = .raise (.ofFault f) := by simp only [Instruction.asRaise, hi]
    obtain ⟨point, hrun⟩ := run_of_faultsDirectly h hr hi
    rw [he, hrun]
    -- The jump carries the fault in the thread, the unwind carries its exception.
    have hpending := hm.withPending (some f) m'.thread.pending
    exact .raising point (h i fs m s f hr hi).2 rfl rfl (hpending.record (.ofFault f)).beginUnwind

theorem ends_asRaise (h : FaultsDirectly inline (program.initial process world)) :
    Ends untagged [] Eq (program.run inline ⟨process, .fresh, world⟩)
      ((program.map Instruction.asRaise).run inline ⟨process, .fresh, world⟩) :=
  hides_of_all (fun i _ => hides_asRaise h i) program program.all_true [] _ _ .refl (.refl untagged _)

end Delivery

/-! ## Processes -/

/-- What the main action does with its exit code. -/
def exitWith (code : Int32) : Action World Unit := do
  emit (.exit code (snapshot (← Action.getThread)))
  halt code

/-- The process in which a program runs as the main action. -/
def mainProcess (c : Configuration) : Process := (Process.start.initWith c).init

theorem runProcess_eq (c : Configuration) (program : Statement) :
    runProcess c program = Action.proceed exitWith (exitCode (mainProcess c).configuration
      (program.run true ⟨mainProcess c, .fresh, .empty⟩)) := rfl

theorem runProcess_ended (c : Configuration) (program : Statement) :
    ∃ ending m, runProcess c program = (.ended ending, m) := by
  rw [runProcess_eq]
  rcases hrun : program.run true ⟨mainProcess c, .fresh, .empty⟩ with ⟨_ | _ | _ | _, m⟩
  · exact ⟨_, _, rfl⟩
  · exact ⟨_, _, rfl⟩
  · exact nomatch current_of_run_resuming hrun
  · exact ⟨_, _, rfl⟩

theorem matches_exitWith (code : Int32) : Matches untagged (exitWith code) (exitWith code) := by
  refine matches_getThread fun t t' he hc => ?_
  rw [snapshot, snapshot, he, hc.depth rfl]
  exact (matches_emit rfl).bind fun _ => matches_finish _

theorem runProcess_asRaise {c : Configuration} {program : Statement}
    (h : FaultsDirectly true (program.initial (mainProcess c) .empty)) :
    SameEnd untagged.look (runProcess c program) (runProcess c (program.map Instruction.asRaise)) := by
  have hmain : Ends untagged (.main (mainProcess c).configuration :: []) Eq _ _ := (ends_asRaise h).inside False.elim
  have hends : Ends untagged [] Eq (runProcess c program) (runProcess c (program.map Instruction.asRaise)) := by
    rw [runProcess_eq, runProcess_eq]
    refine (ends_exitCode hmain).proceed ?_
    rintro code _ m m' - - rfl hm
    exact matches_exitWith code [] m m' hm
  obtain ⟨ending, m, hended⟩ := runProcess_ended c program
  rw [hended] at hends ⊢
  generalize runProcess c (program.map Instruction.asRaise) = r' at hends
  cases hends with
  | ended ending h => exact ⟨rfl, h.process, h.exception, h.unwinds, fun hf => absurd rfl hf, h.world⟩

/--
**Handlers cannot tell which way an exception has come.** If every fault is intercepted and nothing waits between it
and its region that could notice, a program ends in the same way with a raise in place of each fault: with the same
exception and depth, the same error output and, but for the tags of landings, the same events.
-/
theorem faults_as_raises (program : Statement) :
    (∀ inline process world, FaultsDirectly inline (program.initial process world) →
      SameEnd untagged.look (program.run inline ⟨process, .fresh, world⟩)
        ((program.map Instruction.asRaise).run inline ⟨process, .fresh, world⟩)) ∧
    (∀ c, FaultsDirectly true (program.initial (mainProcess c) .empty) →
      SameEnd untagged.look (runProcess c program) (runProcess c (program.map Instruction.asRaise))) ∧
    ∀ landing landing', untag landing = untag landing' → landing.exception? = landing'.exception? := by
  refine ⟨fun _ _ _ h => (ends_asRaise h).sameEnd, fun _ h => runProcess_asRaise h, fun landing landing' h => ?_⟩
  rw [← exception_untag landing, h, exception_untag]

/-- A division by zero whose handler reports the exception. -/
def caughtDivision : Statement := .protect (.tryCatch (.perform (.trap .division)) (.perform .state))

theorem faultsDirectly_caughtDivision (inline : Bool) :
    FaultsDirectly inline (caughtDivision.initial Process.start.init .empty) := by
  intro i fs m s f hr hi
  rcases hr.of_step rfl with h | hr
  · cases h
  rcases hr.of_step rfl with h | hr
  · cases h
  rcases hr.of_step rfl with h | hr
  · cases h
    cases hi
    exact ⟨rfl, trivial⟩
  rcases hr.of_step rfl with h | hr
  · cases h
  rcases hr.of_step rfl with h | hr
  · cases h
  rcases hr.of_step rfl with h | hr
  · cases h
    cases hi
  rcases hr.of_step rfl with h | hr
  · cases h
  rcases hr.of_step rfl with h | hr
  · cases h
  cases hr.of_final rfl

theorem faults_as_raises_caughtDivision :
    SameEnd untagged.look (runAlone caughtDivision) (runAlone (caughtDivision.map Instruction.asRaise)) ∧
    SameEnd untagged.look (runProcess .default caughtDivision)
      (runProcess .default (caughtDivision.map Instruction.asRaise)) :=
  ⟨(faults_as_raises caughtDivision).1 false _ _ (faultsDirectly_caughtDivision false),
    (faults_as_raises caughtDivision).2.1 .default (faultsDirectly_caughtDivision true)⟩

/-- What this says of the events: the handler sees the same exception in a region of the same depth. -/
example : (runAlone caughtDivision).2.world.events = [.state ⟨.ofFault .divideByZero, 1⟩, .protect (.normal ())] :=
  rfl

end ManagedRuntime.Program
