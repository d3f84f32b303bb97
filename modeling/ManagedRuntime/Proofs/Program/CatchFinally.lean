import ManagedRuntime.Proofs.Program.Exchange
import ManagedRuntime.Proofs.Program.Landings
import ManagedRuntime.Proofs.Program.Processes

/-!
# A handler and a cleanup

A block with a handler and a cleanup stands for two nested blocks. Its handler runs in a region of its own, where in
the nested blocks it runs in the region of the outer one.

* `handling`, `finishing` : the two halves that both forms have in common;
* `Statement.KeepsUnwinding` : a body that fails leaves its thread unwinding just if it was unwinding before;
* `tryCatchFinally_like_nested` : both forms end alike after such a body, and after another one they need not.
-/

namespace ManagedRuntime.Program

open Execution

set_option autoImplicit false

variable {inline : Bool}

/-! ## Events without depths -/

/-- An event without the number of regions that it reports. -/
def Event.forgetDepth : Event → Event
  | .state s => .state { s with depth := 0 }
  | .exit code s => .exit code { s with depth := 0 }
  | e => e

/-- Depths do not matter. -/
def shallow : Comparison := .through Event.forgetDepth false

theorem reportsState_shallow : shallow.ReportsState := fun _ _ _ _ => rfl

/-! ## The two forms -/

/-- A body in a region, and its handler in another one if the body fails. -/
def handling (body handler : Action World Unit) : Action World (Landing Unit) := do
  let landing ← protect body
  if landing.isNormal then pure landing else protect handler

/-- The cleanup, after which an exception is raised again. -/
def finishing (cleanup : Action World Unit) (landing : Landing Unit) : Action World Unit := do
  cleanup
  raiseAgain landing

theorem finishing_of_isNormal (cleanup : Action World Unit) {landing : Landing Unit} (h : landing.isNormal = true) :
    finishing cleanup landing = cleanup := by
  cases landing with
  | normal => exact Action.bind_pure cleanup
  | raised | fault => cases h

theorem tryCatchFinally_eq (body handler cleanup : Action World Unit) :
    tryCatchFinally body handler cleanup = handling body handler >>= finishing cleanup := by
  funext m
  change Action.proceed _ (protect body m) = Action.proceed _ (Action.proceed _ (protect body m))
  rcases protect body m with ⟨landing | _ | _ | _, m₁⟩
  · cases hn : landing.isNormal
    · simp only [Action.proceed, hn, Bool.false_eq_true, if_false]
      rfl
    · simp only [Action.proceed, hn, if_true, pure, Action.pure, finishing_of_isNormal cleanup hn]
  all_goals rfl

theorem handling_of_failed {body handler : Action World Unit} {m m₁ : Machine World} {landing : Landing Unit}
    (hp : protect body m = (.done landing, m₁)) (hn : landing.isNormal = false) :
    handling body handler m = protect handler m₁ := by
  change Action.proceed _ (protect body m) = _
  rw [hp]
  simp only [Action.proceed, hn, Bool.false_eq_true, if_false]

theorem handling_of_normal {body : Action World Unit} {m m₁ : Machine World} {landing : Landing Unit}
    (hp : protect body m = (.done landing, m₁)) (hn : landing.isNormal = true) (handler : Action World Unit) :
    handling body handler m = (.done landing, m₁) := by
  change Action.proceed _ (protect body m) = _
  rw [hp]
  simp only [Action.proceed, hn, if_true]
  rfl

section TryCatch

variable {body : Statement} {m m₁ : Machine World} {landing : Landing Unit}

theorem run_tryCatch_of_failed (hp : protect (body.run inline) m = (.done landing, m₁))
    (hn : landing.isNormal = false) (handler : Statement) :
    (Statement.tryCatch body handler).run inline m = handler.run inline m₁ := by
  change Action.proceed (fun l => if l.isNormal then pure () else handler.run inline) (protect _ m) = _
  rw [hp]
  simp only [Action.proceed, hn, Bool.false_eq_true, if_false]

theorem run_tryCatch_of_normal (hp : protect (body.run inline) m = (.done landing, m₁))
    (hn : landing.isNormal = true) (handler : Statement) :
    (Statement.tryCatch body handler).run inline m = (.done (), m₁) := by
  change Action.proceed (fun l => if l.isNormal then pure () else handler.run inline) (protect _ m) = _
  rw [hp]
  simp only [Action.proceed, hn, if_true]
  rfl

end TryCatch

/-- A body that fails leaves the thread unwinding just if it was unwinding before the region of the body. -/
def Statement.KeepsUnwinding (inline : Bool) (body : Statement) (m : Machine World) : Prop :=
  ∀ landing m', Execution.protect (body.run inline) m = (.done landing, m') → landing.isNormal = false →
    m'.thread.isUnwinding = m.thread.isUnwinding

theorem initialized_of_protect {body : Statement} {m m' : Machine World} {landing : Landing Unit}
    (h : protect (body.run inline) m = (.done landing, m')) : Initialized m'.process := by
  rcases hrun : body.run inline m.enter with ⟨flow, m₁⟩
  have hinit := initialized_of_run hrun
  have hprocess : m'.process = m₁.process := by
    simp only [protect, hrun] at h
    cases flow with
    | resuming point =>
      simp only [land] at h
      split at h <;> cases h
      rfl
    | done | unwinding => cases h; rfl
    | ended => cases h
  rw [hprocess]
  exact hinit

section Forms

variable {k : Comparison} {P : Instruction → Prop} {body handler cleanup : Statement} {m : Machine World}

/-- One region deeper a body sees the same, but for the depth. -/
theorem alike_enter_enter (hk : k.deep = false) (m : Machine World) : Alike k m.enter m.enter.enter := by
  have hinit : m.process.init = m.process.init.init :=
    ((initialized_initWith .default m.process).init_eq).symm
  exact ⟨⟨hinit, rfl, rfl, .refl k.look m.world⟩, .of_not_deep hk rfl rfl⟩

/-- The region of its own that a handler enters is like the one in which the nested handler runs. -/
theorem alike_handler (hk : k.deep = false) {m₁ m₁' : Machine World} (hinit : Initialized m₁.process)
    (hkeeps : m₁.thread.isUnwinding = m.thread.isUnwinding) (hcells : SameCells m.enter.thread m₁'.thread)
    (h : Akin k m₁ m₁') : Alike k m₁.enter m₁' := by
  have hprocess : m₁.process.init = m₁'.process := hinit.init_eq.trans h.process
  refine ⟨⟨hprocess, h.exception, h.unwinds, h.world⟩, .of_not_deep hk ?_ ?_⟩
  · rw [hcells.current]
    rfl
  · -- The one region was entered before the body, the other one after it.
    rw [hcells.enteredUnwinding]
    exact hkeeps

/-- A handler in a region of its own lands like one in the region of the outer block. -/
theorem handler_alike (hk : k.deep = false) (hP : ∀ i, P i → i = .state → k.ReportsState) (hhandler : handler.All P)
    {m₁ m₁' : Machine World} {landing landing' : Landing Unit} (hn : landing'.isNormal = false)
    (hbody : protect (body.run inline) m = (.done landing, m₁))
    (hbody' : protect (body.run inline) m.enter = (.done landing', m₁'))
    (hkeeps : m₁.thread.isUnwinding = m.thread.isUnwinding) (h : Akin k m₁ m₁') :
    Ends k [] (LandingsAlike k) (protect (handler.run inline) m₁)
      (protect ((Statement.tryCatch body handler).run inline) m) := by
  have hcells := sameCells_of_protect hbody
  have hcells' := sameCells_of_protect hbody'
  have hends : Ends k [] Eq (handler.run inline m₁.enter) ((Statement.tryCatch body handler).run inline m.enter) := by
    rw [run_tryCatch_of_failed hbody' hn]
    exact ends_self hP hhandler [] (alike_handler hk (initialized_of_protect hbody) hkeeps hcells' h)
  refine hends.protect.ends [] ⟨?_, fun hd => ?_, hcells.enteredUnwinding⟩
  · rw [hcells.current]
  · exact hcells.depth

/-- A body that is done lands in one region as it does in two. -/
theorem normal_alike (hk : k.deep = false) {m₁ m₁' : Machine World} {landing landing' : Landing Unit}
    (hn : landing.isNormal = true) (hn' : landing'.isNormal = true)
    (hbody : protect (body.run inline) m = (.done landing, m₁))
    (hbody' : protect (body.run inline) m.enter = (.done landing', m₁')) (h : Akin k m₁ m₁') :
    Ends k [] (LandingsAlike k) (handling (body.run inline) (handler.run inline) m)
      (protect ((Statement.tryCatch body handler).run inline) m) := by
  have hcells := sameCells_of_protect hbody
  obtain ⟨a, rfl⟩ : ∃ a, landing = .normal a := by
    cases landing with
    | normal a => exact ⟨a, rfl⟩
    | raised | fault => cases hn
  rw [handling_of_normal hbody hn, protect_of_run (run_tryCatch_of_normal hbody' hn' handler)]
  refine .done (.refl k _) ⟨⟨h.process, h.exception, h.unwinds, h.world⟩, .of_not_deep hk ?_ hcells.enteredUnwinding⟩
  rw [hcells.current]
  rfl

/-- The body and the handler land alike in both forms. -/
theorem handling_alike (hk : k.deep = false) (hP : ∀ i, P i → i = .state → k.ReportsState) (hbody : body.All P)
    (hhandler : handler.All P) (hkeeps : body.KeepsUnwinding inline m) :
    Ends k [] (LandingsAlike k) (handling (body.run inline) (handler.run inline) m)
      (protect ((Statement.tryCatch body handler).run inline) m) := by
  have hleft : LeftAlike k (protect (body.run inline) m) (protect (body.run inline) m.enter) :=
    (ends_self hP hbody [] (alike_enter_enter hk m)).protect
  generalize hp : protect (body.run inline) m = r at hleft
  generalize hp' : protect (body.run inline) m.enter = r' at hleft
  cases hleft with
  | @landed landing landing' m₁ m₁' hl h =>
    have hsame := hl.isNormal
    cases hn : landing.isNormal <;> rw [hn] at hsame
    · rw [handling_of_failed hp hn]
      exact handler_alike hk hP hhandler hsame.symm hp hp' (hkeeps landing m₁ hp hn) h
    · exact normal_alike hk hn hsame.symm hp hp' h
  | @ended ending m₁ m₁' h =>
    have hinner : handling (body.run inline) (handler.run inline) m = (.ended ending, m₁) := by
      change Action.proceed _ (protect (body.run inline) m) = _
      rw [hp]
      rfl
    have houter : (Statement.tryCatch body handler).run inline m.enter = (.ended ending, m₁') := by
      change Action.proceed _ (protect (body.run inline) m.enter) = _
      rw [hp']
      rfl
    rw [hinner, protect_of_run houter]
    exact .ended ending h

theorem matches_finishing (hP : ∀ i, P i → i = .state → k.ReportsState) (hcleanup : cleanup.All P)
    {landing landing' : Landing Unit} (hl : LandingsAlike k landing landing') :
    Matches k (finishing (cleanup.run inline) landing) (finishing (cleanup.run inline) landing') := by
  refine Matches.bind ?_ fun _ => matches_raiseAgain hl
  exact fun fs m m' hm => ends_self hP hcleanup fs hm

theorem run_tryCatchFinally (inline : Bool) (body handler cleanup : Statement) (m : Machine World) :
    (Statement.tryCatchFinally body handler cleanup).run inline m =
      Action.proceed (finishing (cleanup.run inline)) (handling (body.run inline) (handler.run inline) m) :=
  congrFun (tryCatchFinally_eq _ _ _) m

/-- With what the comparison looks at, both forms have the same end. -/
theorem sameEnd_forms (hk : k.deep = false) (hP : ∀ i, P i → i = .state → k.ReportsState) (hbody : body.All P)
    (hhandler : handler.All P) (hcleanup : cleanup.All P) (hkeeps : body.KeepsUnwinding inline m) :
    SameEnd k.look ((Statement.tryCatchFinally body handler cleanup).run inline m)
      ((Statement.tryFinally (.tryCatch body handler) cleanup).run inline m) := by
  refine Ends.sameEnd ?_
  rw [run_tryCatchFinally]
  refine (handling_alike hk hP hbody hhandler hkeeps).proceed ?_
  exact fun landing landing' m₁ m₁' _ _ hl h₁ => matches_finishing hP hcleanup hl [] m₁ m₁' h₁

end Forms

/-! ## Agreement -/

/-- Both forms of a block with a handler and a cleanup, on one machine. -/
structure FormsAgree (inline : Bool) (body handler cleanup : Statement) (m : Machine World) : Prop where
  /-- Each form runs its cleanup once, after the body and the handler, and then raises what the handler has left. -/
  combined : (Statement.tryCatchFinally body handler cleanup).run inline m =
    Action.proceed (finishing (cleanup.run inline)) (handling (body.run inline) (handler.run inline) m)
  nested : (Statement.tryFinally (.tryCatch body handler) cleanup).run inline m =
    Action.proceed (finishing (cleanup.run inline)) (protect ((Statement.tryCatch body handler).run inline) m)
  /-- Both forms raise the same again. -/
  landing : ∀ landing, (∃ m', handling (body.run inline) (handler.run inline) m = (.done landing, m')) ↔
    ∃ m', protect ((Statement.tryCatch body handler).run inline) m = (.done landing, m')
  ends : SameEnd (Event.through Event.forgetDepth) ((Statement.tryCatchFinally body handler cleanup).run inline m)
    ((Statement.tryFinally (.tryCatch body handler) cleanup).run inline m)
  /-- Where no part reports the number of its regions, all events are the same. -/
  exactly : body.All (· ≠ .state) → handler.All (· ≠ .state) → cleanup.All (· ≠ .state) →
    SameEnd id ((Statement.tryCatchFinally body handler cleanup).run inline m)
      ((Statement.tryFinally (.tryCatch body handler) cleanup).run inline m)

/-- The region of its own catches a fault of the handler, and the region of the outer block does not. -/
structure FormsDiffer (inline : Bool) (body cleanup : Statement) (m : Machine World) : Prop where
  combined : ∃ m', handling (body.run inline) ((Statement.perform (.trap .division)).run inline) m =
    (.done (.fault Trap.division.fault), m')
  nested : ∃ m', (Statement.tryFinally (.tryCatch body (.perform (.trap .division))) cleanup).run inline m =
    (.ended (.killed .fpe), m')

/-- Where depths alone do not matter, landings that look alike are the same. -/
theorem Ends.landing_iff {r r' : Flow (Landing Unit) × Machine World}
    (h : Ends shallow [] (LandingsAlike shallow) r r') (landing : Landing Unit) :
    (∃ m, r = (.done landing, m)) ↔ ∃ m, r' = (.done landing, m) := by
  refine ⟨?_, ?_⟩
  · rintro ⟨m, rfl⟩
    cases h with
    | @done _ landing' _ m' hl _ =>
      have heq : Event.protect landing = Event.protect landing' := hl.look
      cases heq
      exact ⟨m', rfl⟩
  · rintro ⟨m', rfl⟩
    cases h with
    | @done landing' _ m _ hl _ =>
      have heq : Event.protect landing' = Event.protect landing := hl.look
      cases heq
      exact ⟨m, rfl⟩

theorem formsAgree {body : Statement} {m : Machine World} (hkeeps : body.KeepsUnwinding inline m)
    (handler cleanup : Statement) : FormsAgree inline body handler cleanup m where
  combined := run_tryCatchFinally inline body handler cleanup m
  nested := rfl
  landing := Ends.landing_iff
    (handling_alike rfl (fun _ _ _ => reportsState_shallow) body.all_true handler.all_true hkeeps)
  ends := sameEnd_forms (k := shallow) rfl (fun _ _ _ => reportsState_shallow) body.all_true handler.all_true
    cleanup.all_true hkeeps
  exactly hbody hhandler hcleanup :=
    sameEnd_forms (k := .exact) rfl (fun _ hi h => absurd h hi) hbody hhandler hcleanup hkeeps

/-- A fault where the thread counts as unwinding since the entry of its region. -/
theorem intercept_of_unwinding {s : Signal} {f : Fault} {m : Machine World} {point : ResumePoint}
    (hc : m.thread.current = some point) (hu : m.thread.unwindingSinceEntry = true) :
    (intercept s f : Action World Unit) m = (.ended (.killed s), m) := by
  unfold intercept
  rw [hc]
  exact if_pos hu

section Differ

variable {body : Statement} {m m₁ : Machine World} {landing : Landing Unit}

/-- A division by zero in a handler with a region of its own is caught. -/
theorem handling_division (hp : protect (body.run inline) m = (.done landing, m₁)) (hn : landing.isNormal = false)
    (hd : m₁.process.disposition .fpe = .intercept) :
    ∃ m', handling (body.run inline) ((Statement.perform (.trap .division)).run inline) m =
      (.done (.fault Trap.division.fault), m') := by
  have hd' : m₁.enter.process.disposition .fpe = .intercept := by
    change m₁.process.init.disposition .fpe = .intercept
    rw [(initialized_of_protect hp).init_eq, hd]
  have hu : m₁.enter.thread.unwindingSinceEntry = false := Bool.and_not_self _
  rw [handling_of_failed hp hn]
  exact protect_of_fault ((trap_intercepted hd').trans (intercept_of_current rfl hu)) rfl

/-- In the region of the outer block it is fatal if the body has lost an unwind. -/
theorem run_division_of_lost (hp : protect (body.run inline) m.enter = (.done landing, m₁))
    (hn : landing.isNormal = false) (hbefore : m.thread.isUnwinding = false) (hafter : m₁.thread.isUnwinding = true)
    (hd : m₁.process.disposition .fpe = .intercept) :
    (Statement.tryCatch body (.perform (.trap .division))).run inline m.enter = (.ended (.killed .fpe), m₁) := by
  have hcells := sameCells_of_protect hp
  have hu : m₁.thread.unwindingSinceEntry = true := by
    have hflag : m₁.thread.enteredUnwinding = false := hcells.enteredUnwinding.trans hbefore
    rw [Thread.unwindingSinceEntry, hflag, hafter]
    rfl
  rw [run_tryCatch_of_failed hp hn]
  exact (trap_intercepted hd).trans (intercept_of_unwinding hcells.current hu)

theorem formsDiffer (hp : protect (body.run inline) m = (.done landing, m₁)) (hn : landing.isNormal = false)
    (hbefore : m.thread.isUnwinding = false) (hafter : m₁.thread.isUnwinding = true)
    (hd : m₁.process.disposition .fpe = .intercept) (cleanup : Statement) : FormsDiffer inline body cleanup m := by
  refine ⟨handling_division hp hn hd, ?_⟩
  have hleft : LeftAlike shallow (protect (body.run inline) m) (protect (body.run inline) m.enter) :=
    (ends_self (fun _ _ _ => reportsState_shallow) body.all_true [] (alike_enter_enter rfl m)).protect
  rw [hp] at hleft
  generalize hp' : protect (body.run inline) m.enter = r' at hleft
  cases hleft with
  | @landed _ landing' _ m₁' hl h =>
    have hn' : landing'.isNormal = false := hl.isNormal.symm.trans hn
    have hafter' : m₁'.thread.isUnwinding = true := by
      rw [Thread.isUnwinding, ← h.unwinds]
      exact hafter
    have hinner := run_division_of_lost hp' hn' hbefore hafter' (h.process ▸ hd)
    refine ⟨m₁', ?_⟩
    change Action.proceed _ (land m.thread ((Statement.tryCatch body _).run inline m.enter)) = _
    rw [hinner]
    rfl

end Differ

/-- Where no nested fault strikes, every body leaves its region with the unwinds with which it was entered. -/
theorem keepsUnwinding_of_unspoilt {program body : Statement} {process : Process} {world : World} {exit : Exit}
    {fs : List Frame} {m : Machine World}
    (hn : ∀ c, Reaches inline (program.initial process world) c → ¬ c.Nested)
    (hr : Reaches inline (program.initial process world) (.entering body exit fs m)) :
    body.KeepsUnwinding inline m := by
  intro landing m' hp _
  rcases hrun : body.run inline m.enter with ⟨flow, m₁⟩
  rw [protect_of_run hrun] at hp
  have hend : Reaches inline (program.initial process world) ⟨.back flow, .region m.thread exit :: fs, m₁⟩ := by
    have hs := reaches_run inline body (.region m.thread exit :: fs) m.enter
    rw [hrun] at hs
    exact hr.trans hs
  have hclean := clean_of_reaches (clean_initial program process world) hend fun c hc _ => hn c hc
  have hflow : (Control.back flow).phase ≠ .ended := by
    intro hphase
    cases flow with
    | ended ending => cases hp
    | _ => cases hphase
  obtain ⟨landing', m₂, hstep, hcount⟩ : ∃ landing' m₂,
      Point.step inline ⟨.back flow, .region m.thread exit :: fs, m₁⟩ = some ⟨.landed landing' exit, fs, m₂⟩ ∧
        m₂.thread.unwinds = m.thread.unwinds := hclean.returns hflow
  simp only [Point.step, Frame.resume, hp, Point.leaving] at hstep
  cases hstep
  rw [Thread.isUnwinding, hcount, Thread.isUnwinding]

/--
**A block with a handler and a cleanup stands for two nested blocks**, if its body, should it fail, leaves the thread
unwinding just if it was unwinding before. After a body that has lost an unwind, a fault in the handler is caught in
the one form and kills the process in the other.
-/
theorem tryCatchFinally_like_nested (inline : Bool) (body : Statement) (m : Machine World) :
    (body.KeepsUnwinding inline m → ∀ handler cleanup, FormsAgree inline body handler cleanup m) ∧
    ∀ landing m₁, protect (body.run inline) m = (.done landing, m₁) → landing.isNormal = false →
      m.thread.isUnwinding = false → m₁.thread.isUnwinding = true → m₁.process.disposition .fpe = .intercept →
      ∀ cleanup, FormsDiffer inline body cleanup m :=
  ⟨formsAgree, fun _ _ hp hn hbefore hafter hd => formsDiffer hp hn hbefore hafter hd⟩

/-- A body that loses an unwind: in the region in its destructor, a nested fault strikes. -/
def losingBody : Statement :=
  .withDestructor
    (.protect (.withDestructor (.perform (.trap .division)) (.perform (.raise nothingRaised))))
    (.perform (.raise nothingRaised))

/-- The forms agree after a raise, and differ after the body that loses an unwind. -/
theorem tryCatchFinally_like_nested_raise :
    FormsAgree false (.perform (.raise nothingRaised)) (.perform (.trap .division)) (.perform (.log (.number 1)))
      start ∧
    FormsDiffer false losingBody (.perform (.log (.number 1))) start := by
  refine ⟨(tryCatchFinally_like_nested false (.perform (.raise nothingRaised)) start).1 ?_ _ _, ?_⟩
  · intro landing m' hp _
    cases hp
    rfl
  · exact (tryCatchFinally_like_nested false losingBody start).2 (.raised nothingRaised) _ rfl rfl rfl rfl rfl _

/-- The one form runs its cleanup and ends with the fault of its handler; the other one kills the process. -/
theorem forms_apart :
    (∃ m, runAlone (.protect (.tryCatchFinally losingBody (.perform (.trap .division))
        (.perform (.log (.name "cleanup"))))) = (.done (), m) ∧
      m.world.events = [.protect (.fault .divideByZero), .log (.name "cleanup"),
        .protect (.raised (.ofFault .divideByZero))]) ∧
    ∃ m, runAlone (.protect (.tryFinally (.tryCatch losingBody (.perform (.trap .division)))
        (.perform (.log (.name "cleanup"))))) = (.ended (.killed .fpe), m) ∧
      m.world.events = [.protect (.fault .divideByZero)] :=
  ⟨⟨_, rfl, rfl⟩, _, rfl, rfl⟩

end ManagedRuntime.Program
