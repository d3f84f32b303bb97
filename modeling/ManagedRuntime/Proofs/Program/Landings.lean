import ManagedRuntime.Proofs.Program.Origins

/-!
# What a handler sees

* `EndedByRaise`, `EndedByFault` : a raise or a fault in a body is what ends it;
* `LandsTruly` : the landing of a region and the exception of its thread are those of what ended the body;
* `protect_landsTruly` : this is so for every body.
-/

namespace ManagedRuntime.Program

open Execution

set_option autoImplicit false

variable {inline : Bool}

/-- The raise at the point `c`, with a payload, ends the body on the machine `m'`. -/
def EndedByRaise (inline : Bool) (body : Statement) (m : Machine World) (c : Point) (payload : Payload)
    (m' : Machine World) : Prop :=
  ∃ fs m₁, Reaches inline ⟨.run body, [], m⟩ c ∧ Originates c (.unwinding payload) fs m₁ ∧
    (∀ e, payload = .raised e → m₁.thread.exception = e) ∧ Carries inline (.unwinding payload) fs m₁ m'

/-- The fault at the point `c`, in no region inside the body, ends the body. -/
def EndedByFault (inline : Bool) (body : Statement) (m : Machine World) (c : Point) (f : Fault) : Prop :=
  ∃ s point, Reaches inline ⟨.run body, [], m⟩ c ∧ c.Faults s f ∧ c.machine.thread.current = some point ∧
    c.machine.thread.unwindingSinceEntry = false ∧ ∀ g ∈ c.frames, g.Passes (.resuming point)

/-- An exception that is raised becomes that of the thread at once. -/
theorem Originates.exception {c : Point} {e : Exception} {fs : List Frame} {m : Machine World}
    (h : Originates c (.unwinding (.raised e)) fs m) : m.thread.exception = e := by
  cases h with
  | perform fs h =>
    rename_i i m₀
    rcases i.run_spec m₀ with hq | ⟨_, _, _, -, -, -, -, hj⟩
    · rw [h] at hq
      obtain ⟨r, hr, hpayload⟩ := hq
      rw [hr, ← hpayload e rfl]
      rfl
    · rw [h] at hj
      cases hj
  | again => rfl

/-- A jump begins with a fault, which the thread keeps for the region. -/
theorem Originates.fault {c : Point} {point : ResumePoint} {fs : List Frame} {m : Machine World}
    (h : Originates c (.resuming point) fs m) :
    ∃ s f, c.Faults s f ∧ c.machine.thread.current = some point ∧ c.machine.thread.unwindingSinceEntry = false ∧
      fs = c.frames ∧ m = jumping c.machine f := by
  cases h with
  | perform fs h =>
    rename_i i m₀
    rcases i.run_spec m₀ with hq | ⟨s, f, point', hi, hd, hc, hu, hj⟩
    · rw [h] at hq
      exact hq.elim
    · rw [h] at hj
      cases hj
      exact ⟨s, f, ⟨i, rfl, hi, hd⟩, hc, hu, rfl, rfl⟩

/-- A jump leaves the machine as it is and passes every frame. -/
theorem Carries.of_resuming {point : ResumePoint} {fs : List Frame} {m m' : Machine World}
    (h : Carries inline (.resuming point) fs m m') : m' = m ∧ ∀ g ∈ fs, g.Passes (.resuming point) := by
  generalize hflow : Flow.resuming point = flow at h
  induction h with
  | arrived => exact ⟨rfl, fun _ hg => nomatch hg⟩
  | pass hf _ ih =>
    obtain ⟨heq, hall⟩ := ih hflow
    refine ⟨heq, fun g hg => ?_⟩
    rcases List.mem_cons.1 hg with rfl | hg
    · exact hf
    · exact hall g hg
  | drop => cases hflow

theorem Carries.resuming {point : ResumePoint} {fs : List Frame} (m : Machine World)
    (h : ∀ g ∈ fs, g.Passes (.resuming point)) : Carries inline (.resuming point) fs m m := by
  induction fs with
  | nil => exact .arrived _ m
  | cons f fs ih => exact .pass (h f (.head fs)) (ih fun g hg => h g (.tail f hg))

theorem run_eq_unwinding_iff {body : Statement} {m m' : Machine World} {payload : Payload} :
    body.run inline m = (.unwinding payload, m') ↔ ∃ c, EndedByRaise inline body m c payload m' := by
  rw [run_eq_iff (show Leaves (.unwinding payload) from trivial)]
  refine ⟨?_, ?_⟩
  · rintro ⟨c, fs, m₁, hc, ho, hcarry⟩
    refine ⟨c, fs, m₁, hc, ho, ?_, hcarry⟩
    rintro e rfl
    exact ho.exception
  · rintro ⟨c, fs, m₁, hc, ho, -, hcarry⟩
    exact ⟨c, fs, m₁, hc, ho, hcarry⟩

theorem exists_fault_of_run {body : Statement} {m m' : Machine World} {point : ResumePoint}
    (h : body.run inline m = (.resuming point, m')) :
    ∃ c f, EndedByFault inline body m c f ∧ m'.thread.pending = some f := by
  obtain ⟨c, fs, m₁, hc, ho, hcarry⟩ := endsBy_of_run inline body m _ m' h trivial
  obtain ⟨s, f, hf, hcur, hu, rfl, rfl⟩ := ho.fault
  obtain ⟨rfl, hall⟩ := hcarry.of_resuming
  exact ⟨c, f, ⟨s, point, hc, hf, hcur, hu, hall⟩, rfl⟩

theorem run_of_fault {body : Statement} {m : Machine World} {c : Point} {f : Fault}
    (h : EndedByFault inline body m c f) :
    ∃ point m', body.run inline m = (.resuming point, m') ∧ m'.thread.pending = some f := by
  obtain ⟨s, point, hc, hf, hcur, hu, hall⟩ := h
  refine ⟨point, jumping c.machine f, (run_eq_iff (show Leaves (.resuming point) from trivial)).2 ?_, rfl⟩
  obtain ⟨i, hi, hfault, hd⟩ := hf
  obtain ⟨control, fs, m₀⟩ := c
  cases hi
  refine ⟨_, fs, _, hc, .perform fs ?_, .resuming _ hall⟩
  rw [i.run_intercepted hfault hd]
  exact intercept_of_current hcur hu

/-! ## Landings -/

/-- The landing of a region and the exception of its thread tell what ended the body. -/
structure LandsTruly (inline : Bool) (body : Statement) (m : Machine World) : Prop where
  /-- The exception is that of the raise that ended the body, or stands for an exception of the host. -/
  raised : ∀ e m', protect (body.run inline) m = (.done (.raised e), m') →
    m'.thread.exception = e ∧ ∃ c payload m₁, EndedByRaise inline body m.enter c payload m₁ ∧ payload.exception = e
  caught : ∀ c payload m₁, EndedByRaise inline body m.enter c payload m₁ →
    ∃ m', protect (body.run inline) m = (.done (.raised payload.exception), m')
  fault : ∀ f m', protect (body.run inline) m = (.done (.fault f), m') →
    m'.thread.exception = .ofFault f ∧ ∃ c, EndedByFault inline body m.enter c f
  intercepted : ∀ c f, EndedByFault inline body m.enter c f →
    ∃ m', protect (body.run inline) m = (.done (.fault f), m')
  /-- Where nothing ended the body, the exception is what the body has left. -/
  normal : ∀ m', protect (body.run inline) m = (.done (.normal ()), m') ↔
    ∃ m₁, body.run inline m.enter = (.done (), m₁) ∧ m' = { m₁ with thread := m.thread.leave m₁.thread }
  /-- A handler runs once, on the machine on which the region has landed, or not at all. -/
  handler : ∀ (handler : Action World Unit) landing m', protect (body.run inline) m = (.done landing, m') →
    tryCatch (body.run inline) handler m = if landing.isNormal then (.done (), m') else handler m'
  /-- Where the region does not land, the process has ended. -/
  ended : ∀ flow m', protect (body.run inline) m = (flow, m') → (∃ landing, flow = .done landing) ∨
    ∃ ending, flow = .ended ending ∧ ∀ handler, tryCatch (body.run inline) handler m = (.ended ending, m')

theorem protect_of_run {body : Statement} {m m₁ : Machine World} {flow : Flow Unit}
    (h : body.run inline m.enter = (flow, m₁)) : protect (body.run inline) m = land m.thread (flow, m₁) := by
  rw [← h]
  rfl

/-- What the landing of a region says of the end of its body. -/
theorem run_of_protect {body : Statement} {m m' : Machine World} {landing : Landing Unit}
    (h : protect (body.run inline) m = (.done landing, m')) :
    (∃ m₁, body.run inline m.enter = (.done (), m₁) ∧ landing = .normal () ∧
      m' = { m₁ with thread := m.thread.leave m₁.thread }) ∨
    (∃ payload m₁, body.run inline m.enter = (.unwinding payload, m₁) ∧ landing = .raised payload.exception ∧
      m'.thread.exception = payload.exception) ∨
    ∃ point m₁ f, body.run inline m.enter = (.resuming point, m₁) ∧ m₁.thread.pending = some f ∧
      landing = .fault f ∧ m'.thread.exception = .ofFault f := by
  rcases hrun : body.run inline m.enter with ⟨_ | payload | point | ending, m₁⟩ <;> rw [protect_of_run hrun] at h
  · cases h
    exact .inl ⟨m₁, rfl, rfl, rfl⟩
  · cases h
    exact .inr (.inl ⟨payload, m₁, rfl, rfl, rfl⟩)
  · obtain ⟨c, f, -, hpending⟩ := exists_fault_of_run hrun
    unfold land at h
    dsimp only at h
    split at h
    · cases h
      exact .inr (.inr ⟨point, m₁, f, rfl, hpending, by rw [hpending]; rfl, by rw [hpending]; rfl⟩)
    · cases h
  · cases h

theorem protect_of_fault {body : Statement} {m m₁ : Machine World} {point : ResumePoint} {f : Fault}
    (h : body.run inline m.enter = (.resuming point, m₁)) (hf : m₁.thread.pending = some f) :
    ∃ m', protect (body.run inline) m = (.done (.fault f), m') := by
  obtain ⟨landing, m', hp, -⟩ := protect_returns h Phase.noConfusion
  rcases run_of_protect hp with ⟨m₂, hrun, -⟩ | ⟨payload, m₂, hrun, -⟩ | ⟨point, m₂, f', hrun, hpending, rfl, -⟩
  · rw [h] at hrun
    cases hrun
  · rw [h] at hrun
    cases hrun
  · rw [h] at hrun
    cases hrun
    rw [hf] at hpending
    cases hpending
    exact ⟨m', hp⟩

/-- **What a handler sees is what ended its body.** -/
theorem protect_landsTruly (inline : Bool) (body : Statement) (m : Machine World) : LandsTruly inline body m where
  raised := by
    intro e m' h
    rcases run_of_protect h with ⟨m₁, -, hl, -⟩ | ⟨payload, m₁, hrun, hl, he⟩ | ⟨point, m₁, f, -, -, hl, -⟩ <;> cases hl
    obtain ⟨c, hc⟩ := run_eq_unwinding_iff.1 hrun
    exact ⟨he, c, payload, m₁, hc, rfl⟩
  caught := by
    intro c payload m₁ h
    exact ⟨_, protect_of_run (run_eq_unwinding_iff.2 ⟨c, h⟩)⟩
  fault := by
    intro f m' h
    rcases run_of_protect h with ⟨_, -, hl, -⟩ | ⟨_, _, -, hl, -⟩ | ⟨point, m₁, f', hrun, hf, hl, he⟩ <;> cases hl
    obtain ⟨c, f', hc, hf'⟩ := exists_fault_of_run hrun
    rw [hf] at hf'
    cases hf'
    exact ⟨he, c, hc⟩
  intercepted := by
    intro c f h
    obtain ⟨point, m₁, hrun, hf⟩ := run_of_fault h
    exact protect_of_fault hrun hf
  normal := by
    intro m'
    refine ⟨fun h => ?_, ?_⟩
    · rcases run_of_protect h with ⟨m₁, hrun, -, hm⟩ | ⟨_, _, -, hl, -⟩ | ⟨_, _, _, -, -, hl, -⟩
      · exact ⟨m₁, hrun, hm⟩
      · cases hl
      · cases hl
    · rintro ⟨m₁, hrun, rfl⟩
      exact protect_of_run hrun
  handler := by
    intro handler landing m' h
    change Action.proceed (fun landing => if landing.isNormal then pure () else handler)
      (protect (body.run inline) m) = _
    rw [h]
    cases hl : landing.isNormal <;> simp only [Action.proceed, hl] <;> rfl
  ended := by
    intro flow m' h
    rcases protect_ends inline body m with ⟨landing, m₁, hp⟩ | ⟨ending, m₁, hp⟩
    · rw [hp] at h
      cases h
      exact .inl ⟨landing, rfl⟩
    · rw [hp] at h
      cases h
      refine .inr ⟨ending, rfl, fun handler => ?_⟩
      change Action.proceed _ (protect (body.run inline) m) = _
      rw [hp]
      rfl

/-- A destructor that catches another exception and clears that of the thread does not change what is caught. -/
example : ∃ m', protect ((Statement.withDestructor
      (.seq (.protect (.perform (.raiseForeign none))) (.perform .clear))
      (.perform (.raise nothingRaised))).run false) start = (.done (.raised nothingRaised), m') ∧
    m'.thread.exception = nothingRaised :=
  ⟨_, rfl, rfl⟩

end ManagedRuntime.Program
