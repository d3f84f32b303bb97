import ManagedRuntime.Proofs.Program.Landings

/-!
# Raising an exception again

A handler that raises again raises the exception of its thread, whichever has been written there last.

* `Point.Writes` : the next step raises or catches an exception, or forgets that of the thread;
* `Point.root` : the thread on which a run has begun, whatever threads it has started since;
* `Untouched`, `LastWritten` : the way from one point to another, by what is written to that thread;
* `reraise_raises_last` : the exception that has been handled is raised again where its handler has written no other;
  if it has, the last one that was written is raised.
-/

namespace ManagedRuntime.Program

open Execution

set_option autoImplicit false

variable {inline : Bool}

/-! ## The thread of a run -/

def Frame.waits? : Frame → Option Thread
  | .parent m => some m.thread
  | _ => none

/-- The threads that wait, the one that has started the running thread first. -/
def Point.waiting (c : Point) : List Thread := c.frames.filterMap Frame.waits?

/-- The thread on which a run has begun. -/
def Point.root (c : Point) : Thread := c.waiting.getLast?.getD c.machine.thread

theorem root_of_waiting {c : Point} (h : c.waiting = []) : c.root = c.machine.thread := by
  rw [Point.root, h]
  rfl

/-! ## Writes -/

/-- The next step makes `e` the exception of the running thread. -/
inductive Point.Writes (c : Point) (e : Exception) : Prop where
  | raised {fs : List Frame} {m : Machine World} (h : Originates c (.unwinding (.raised e)) fs m)
  | landed {flow : Flow Unit} {before : Thread} {exit : Exit} {fs : List Frame} {landing : Landing Unit}
    {m : Machine World} (hc : c.control = .back flow) (hf : c.frames = .region before exit :: fs)
    (hl : land before (flow, c.machine) = (.done landing, m)) (he : landing.exception? = some e)
  /-- The exception has left a main action. -/
  | escaped {payload : Payload} {used : Configuration} {fs : List Frame} (hc : c.control = .back (.unwinding payload))
    (hf : c.frames = .main used :: fs) (he : payload.exception = e)
  | cleared {i : Instruction} (hc : c.control = .run (.perform i)) (hi : i.Clears) (he : .none = e)

/-- The same for the thread on which the run has begun. -/
def Point.Overwrites (c : Point) (e : Exception) : Prop := c.waiting = [] ∧ c.Writes e

theorem exception_of_land {before : Thread} {r : Flow Unit × Machine World} {landing : Landing Unit}
    {m : Machine World} {e : Exception} (h : land before r = (.done landing, m)) (he : landing.exception? = some e) :
    m.thread.exception = e := by
  rcases r with ⟨_ | payload | point | ending, m₀⟩
  · cases h
    cases he
  · cases h
    cases he
    rfl
  · unfold land at h
    dsimp only at h
    split at h
    · cases h
      cases he
      rfl
    · cases h
  · cases h

theorem Originates.waiting {c : Point} {flow : Flow Unit} {fs : List Frame} {m : Machine World}
    (h : Originates c flow fs m) : fs.filterMap Frame.waits? = c.waiting := by
  cases h <;> rfl

/-- A step that writes an exception leaves it on the thread that runs on. -/
theorem Point.Writes.step {c c' : Point} {e : Exception} (h : c.Writes e) (hs : c.step inline = some c') :
    c'.waiting = c.waiting ∧ c'.machine.thread.exception = e := by
  cases h with
  | raised h =>
    rw [h.step] at hs
    cases hs
    exact ⟨h.waiting, h.exception⟩
  | landed hc hf hl he =>
    obtain ⟨control, frames, m⟩ := c
    cases hc
    cases hf
    simp only [Point.step, Frame.resume, hl, Point.leaving] at hs
    cases hs
    exact ⟨rfl, exception_of_land hl he⟩
  | escaped hc hf he =>
    obtain ⟨control, frames, m⟩ := c
    cases hc
    cases hf
    cases hs
    exact ⟨rfl, he⟩
  | @cleared i hc hi he =>
    obtain ⟨control, frames, m⟩ := c
    cases hc
    cases hs
    have hrun : i.run m = (.done (), { m with thread := m.thread.record .none }) := (i.run_of_clears hi m).2
    refine ⟨rfl, ?_⟩
    change (Point.after frames (i.run m)).machine.thread.exception = e
    rw [hrun]
    exact he

/-! ## What a step does to exceptions -/

/-- The threads of a run and their exceptions, from one point to the next. -/
inductive Effect (c c' : Point) : Prop where
  | kept (hw : c'.waiting = c.waiting) (he : c'.machine.thread.exception = c.machine.thread.exception)
  | written {e : Exception} (h : c.Writes e)
  | spawned (hw : c'.waiting = c.machine.thread :: c.waiting)
  | joined (hw : c.waiting = c'.machine.thread :: c'.waiting)

theorem effect_of_modestEnd {c : Point} {fs : List Frame} {r : Flow Unit × Machine World}
    (hw : fs.filterMap Frame.waits? = c.waiting) (h : ModestEnd c.machine.thread r)
    (ho : ∀ e m, r = (.unwinding (.raised e), m) → Originates c (.unwinding (.raised e)) fs m) :
    Effect c (.after fs r) := by
  rcases r with ⟨_ | payload | _ | _, m⟩
  · exact .kept hw (congrArg Thread.exception h)
  · cases payload with
    | raised e => exact .written (.raised (ho e m rfl))
    | foreign text =>
      have hthread : m.thread = c.machine.thread.beginUnwind := h
      exact .kept hw (congrArg Thread.exception hthread : m.thread.exception = _)
  · exact h.elim
  · exact .kept hw (congrArg Thread.exception h)

theorem effect_of_run (i : Instruction) (fs : List Frame) (m : Machine World) :
    Effect ⟨.run (.perform i), fs, m⟩ (.after fs (i.run m)) := by
  rcases i.run_cases m with ⟨hc, -⟩ | h | ⟨s, f, point, -, -, -, -, e⟩
  · exact .written (.cleared rfl hc rfl)
  · exact effect_of_modestEnd rfl h fun e m' hr => .perform fs hr
  · rw [e]
    exact .kept rfl rfl

theorem effect_of_begin (s : Statement) (fs : List Frame) (m : Machine World) :
    Effect ⟨.run s, fs, m⟩ (s.begin inline fs m) := by
  cases s with
  | perform i => exact effect_of_run i fs m
  | nest count => cases count <;> exact .kept rfl rfl
  | times count => cases count <;> exact .kept rfl rfl
  | thread => exact .spawned rfl
  | skip | seq | sameRegion | protect | tryCatch | tryFinally | tryCatchFinally | runMain | withDestructor =>
    exact .kept rfl rfl

theorem effect_of_land (before : Thread) (exit : Exit) (flow : Flow Unit) (fs : List Frame) (m : Machine World) :
    Effect ⟨.back flow, .region before exit :: fs, m⟩ (.leaving exit fs (land before (flow, m))) := by
  cases flow with
  | done | ended => exact .kept rfl rfl
  | unwinding payload => exact .written (.landed rfl rfl rfl rfl)
  | resuming point =>
    by_cases hpoint : point = before.nextPoint
    · exact .written (.landed rfl rfl (if_pos hpoint) rfl)
    · simp only [land, if_neg hpoint]
      exact .kept rfl rfl

theorem effect_of_raiseAgain (landing : Landing Unit) (fs : List Frame) (m : Machine World) :
    Effect ⟨.back (.done ()), .reraise landing :: fs, m⟩ (.after fs (raiseAgain landing m)) := by
  refine effect_of_modestEnd rfl (modest_raiseAgain landing m) fun e m' hr => ?_
  obtain ⟨e', he, hflow, rfl⟩ := raiseAgain_of_leaves hr trivial
  cases hflow
  exact .again fs m he

theorem effect_of_join (p : Machine World) (flow : Flow Unit) (fs : List Frame) (m : Machine World) :
    Effect ⟨.back flow, .parent p :: fs, m⟩
      (.after fs (Action.proceed (emitThread inline) (collect p (flow, m)))) := by
  refine .joined ?_
  cases flow <;> cases inline <;> rfl

theorem effect_of_resume (f : Frame) (flow : Flow Unit) (fs : List Frame) (m : Machine World) :
    Effect ⟨.back flow, f :: fs, m⟩ (f.resume inline fs flow m) := by
  cases f with
  | region before exit => exact effect_of_land before exit flow fs m
  | reraise landing =>
    cases flow with
    | done => exact effect_of_raiseAgain landing fs m
    | unwinding | resuming | ended => exact .kept rfl rfl
  | main used =>
    cases flow with
    | unwinding payload => exact .written (.escaped rfl rfl rfl)
    | done | resuming | ended => exact .kept rfl rfl
  | parent p => exact effect_of_join p flow fs m
  | next | watch | scope | dropping => cases flow <;> exact .kept rfl rfl

theorem effect_of_exit (exit : Exit) (landing : Landing Unit) (fs : List Frame) (m : Machine World) :
    Effect ⟨.landed landing exit, fs, m⟩ (exit.step landing fs m) := by
  cases exit with
  | report | cleanUp | goOn => exact .kept rfl rfl
  | handle | handleAndCleanUp =>
    simp only [Exit.step]
    split <;> exact .kept rfl rfl

theorem effect_of_step {c c' : Point} (h : c.step inline = some c') : Effect c c' := by
  rcases c with ⟨s | flow | ⟨landing, exit⟩, fs, m⟩
  · cases h
    exact effect_of_begin s fs m
  · cases fs with
    | nil => cases h
    | cons f fs =>
      cases h
      exact effect_of_resume f flow fs m
  · cases h
    exact effect_of_exit exit landing fs m

/-- **A step that does not write to the thread of the run leaves its exception as it is.** -/
theorem exception_of_step {c c' : Point} (hs : c.step inline = some c') (hn : ∀ e, ¬ c.Overwrites e) :
    c'.root.exception = c.root.exception := by
  cases effect_of_step hs with
  | kept hw he =>
    rw [Point.root, Point.root, hw]
    cases c.waiting.getLast? with
    | none => exact he
    | some t => rfl
  | @written e h =>
    -- Another thread runs, and the one of the run waits for it.
    have hne : c.waiting ≠ [] := fun hw => hn e ⟨hw, h⟩
    obtain ⟨t, ht⟩ := Option.isSome_iff_exists.1 (List.getLast?_isSome.2 hne)
    rw [Point.root, Point.root, (h.step hs).1, ht]
    rfl
  | spawned hw =>
    rw [Point.root, Point.root, hw, List.getLast?_cons]
    rfl
  | joined hw =>
    rw [Point.root, Point.root, hw, List.getLast?_cons]
    rfl

/-! ## What a run does to the exception of its thread -/

/-- One point is reached from another, and on the way nothing is written to the thread of the run. -/
abbrev Untouched (inline : Bool) : Point → Point → Prop :=
  Relation.ReflTransGen fun c c' => c.step inline = some c' ∧ ∀ e, ¬ c.Overwrites e

/-- The exception that is written last to the thread of the run on the way from one point to another. -/
def LastWritten (inline : Bool) (first last : Point) (e : Exception) : Prop :=
  ∃ c c', Reaches inline first c ∧ c.Overwrites e ∧ c.step inline = some c' ∧ Untouched inline c' last

theorem Untouched.exception {first last : Point} (h : Untouched inline first last) :
    last.root.exception = first.root.exception := by
  induction h with
  | refl => rfl
  | tail _ hs ih => exact (exception_of_step hs.1 hs.2).trans ih

theorem LastWritten.exception {first last : Point} {e : Exception} (h : LastWritten inline first last e) :
    last.root.exception = e := by
  obtain ⟨c, c', -, ⟨hw, hwrites⟩, hs, hlast⟩ := h
  obtain ⟨hw', he⟩ := hwrites.step hs
  rw [hlast.exception, root_of_waiting (hw'.trans hw), he]

/-- Something is written last on the way, or nothing at all. -/
theorem untouched_or_lastWritten {first last : Point} (h : Reaches inline first last) :
    Untouched inline first last ∨ ∃ e, LastWritten inline first last e := by
  induction h with
  | refl => exact .inl .refl
  | @tail c c' hr hs ih =>
    by_cases hwrites : ∃ e, c.Overwrites e
    · obtain ⟨e, he⟩ := hwrites
      exact .inr ⟨e, c, c', hr, he, hs, .refl⟩
    · have hkeeps : ∀ e, ¬ c.Overwrites e := fun e he => hwrites ⟨e, he⟩
      rcases ih with hfree | ⟨e, d, d', hd, hde, hds, hfree⟩
      · exact .inl (hfree.tail ⟨hs, hkeeps⟩)
      · exact .inr ⟨e, d, d', hd, hde, hds, hfree.tail ⟨hs, hkeeps⟩⟩

/-! ## Handlers that raise again -/

/-- What is raised where the exception of the thread is to be raised again. -/
def raisedAgain (e : Exception) : Exception := if e.kind = .none then nothingRaised else e

theorem raisedAgain_of_kind {e : Exception} (h : e.kind ≠ .none) : raisedAgain e = e := if_neg h

theorem run_reraise (m : Machine World) :
    Instruction.reraise.run m = (.unwinding (.raised (raisedAgain m.thread.exception)),
      { m with thread := (m.thread.record (raisedAgain m.thread.exception)).beginUnwind }) := rfl

/-- The block of a body whose handler raises again in the end. -/
def catchAndReraise (body handler : Statement) : Statement :=
  .tryCatch body (.seq handler (.perform .reraise))

/-- What leaves the handler is the exception that the thread has when it raises again. -/
theorem protect_catchAndReraise {body handler : Statement} {m m₁ m₂ : Machine World} {landing : Landing Unit}
    {r : Exception} (hbody : protect (body.run inline) m.enter = (.done landing, m₁))
    (hr : landing.exception? = some r) (hhandler : handler.run inline m₁ = (.done (), m₂)) :
    ∃ m', protect ((catchAndReraise body handler).run inline) m =
        (.done (.raised (raisedAgain m₂.thread.exception)), m') ∧
      m'.thread.exception = raisedAgain m₂.thread.exception := by
  have hnormal : landing.isNormal = false := by cases landing <;> first | rfl | cases hr
  have hrun : (catchAndReraise body handler).run inline m.enter = Instruction.reraise.run m₂ := by
    have hblock := (protect_landsTruly inline body m.enter).handler
      ((Statement.seq handler (.perform .reraise)).run inline) landing m₁ hbody
    rw [hnormal] at hblock
    refine hblock.trans ?_
    change Action.proceed (fun _ => Instruction.reraise.run) (handler.run inline m₁) = _
    rw [hhandler]
    rfl
  rw [run_reraise] at hrun
  exact ⟨_, protect_of_run hrun, rfl⟩

/--
**An exception that is raised again.** A handler that ends by raising again raises the exception which it has handled,
if it has written no other to its thread; if it has, the last one that it has written is raised.
-/
theorem reraise_raises_last {body handler : Statement} {m m₁ m₂ : Machine World} {landing : Landing Unit}
    {r : Exception} (hbody : protect (body.run inline) m.enter = (.done landing, m₁))
    (hr : landing.exception? = some r) (hkind : r.kind ≠ .none) (hhandler : handler.run inline m₁ = (.done (), m₂)) :
    ∃ e m', protect ((catchAndReraise body handler).run inline) m = (.done (.raised e), m') ∧
      m'.thread.exception = e ∧
      ((Untouched inline ⟨.run handler, [], m₁⟩ (.after [] (.done (), m₂)) ∧ e = r) ∨
        ∃ e', LastWritten inline ⟨.run handler, [], m₁⟩ (.after [] (.done (), m₂)) e' ∧ e = raisedAgain e') := by
  obtain ⟨m', hp, he⟩ := protect_catchAndReraise hbody hr hhandler
  have hhandled : m₁.thread.exception = r := exception_of_land hbody hr
  have hreach := reaches_run inline handler [] m₁
  rw [hhandler] at hreach
  refine ⟨_, m', hp, he, ?_⟩
  rcases untouched_or_lastWritten hreach with hfree | ⟨e', hlast⟩
  · have hexception : m₂.thread.exception = m₁.thread.exception := hfree.exception
    refine .inl ⟨hfree, ?_⟩
    rw [hexception, hhandled, raisedAgain_of_kind hkind]
  · have hexception : m₂.thread.exception = e' := hlast.exception
    exact .inr ⟨e', hlast, by rw [hexception]⟩

def firstRaised : Exception := .software 5 (Text.ofString "first")

def innerRaised : Exception := .software Exception.codeSoftware (Text.ofString "inner")

/-- A block that catches what it raises. -/
def innerBlock : Statement := .tryCatch (.perform (.raise innerRaised)) .skip

/-- The machine on which the handler of `firstRaised` begins. -/
def handlerStart : Machine World :=
  (protect ((Statement.perform (.raise firstRaised)).run false) start.enter).2

theorem innerRaised_ne_firstRaised : innerRaised ≠ firstRaised := fun h =>
  absurd (congrArg Exception.code h) (by decide)

/-- What the handler writes last is what its own block has raised. -/
theorem reraise_raises_last_innerBlock :
    ∃ m₂ m' e', innerBlock.run false handlerStart = (.done (), m₂) ∧
      protect ((catchAndReraise (.perform (.raise firstRaised)) innerBlock).run false) start =
        (.done (.raised innerRaised), m') ∧
      LastWritten false ⟨.run innerBlock, [], handlerStart⟩ (.after [] (.done (), m₂)) e' ∧
      raisedAgain e' = innerRaised := by
  have hbody : protect ((Statement.perform (.raise firstRaised)).run false) start.enter =
      (.done (.raised firstRaised), handlerStart) := rfl
  have hhandler : innerBlock.run false handlerStart = (.done (), (innerBlock.run false handlerStart).2) := rfl
  have hkind : firstRaised.kind ≠ .none := nofun
  obtain ⟨e, m', hp, -, hlast⟩ := reraise_raises_last hbody rfl hkind hhandler
  have he : e = innerRaised := by
    cases hp
    rfl
  subst he
  rcases hlast with ⟨-, he⟩ | ⟨e', hwritten, he⟩
  · exact absurd he innerRaised_ne_firstRaised
  · exact ⟨_, m', e', rfl, hp, hwritten, he.symm⟩

/-- The handler catches its own exception and is done, and the exception that it has handled is lost. -/
theorem handled_exception_lost :
    (∃ m₂, innerBlock.run false handlerStart = (.done (), m₂)) ∧
    (∃ m, runAlone (.protect (catchAndReraise (.perform (.raise firstRaised)) innerBlock)) = (.done (), m) ∧
      m.world.events = [.protect (.raised innerRaised)] ∧ m.thread.exception = innerRaised) ∧
    innerRaised ≠ firstRaised :=
  ⟨⟨_, rfl⟩, ⟨_, rfl, rfl, rfl⟩, innerRaised_ne_firstRaised⟩

/-- What other threads raise and catch in the meantime is theirs. -/
example : ∃ m, runAlone (.protect (catchAndReraise (.perform (.raise firstRaised)) (.thread innerBlock))) =
    (.done (), m) ∧ m.world.events = [.thread [] none, .protect (.raised firstRaised)] :=
  ⟨_, rfl, rfl⟩

end ManagedRuntime.Program
