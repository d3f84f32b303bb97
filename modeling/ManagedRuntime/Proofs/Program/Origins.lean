import ManagedRuntime.Proofs.Program.Unwinds

/-!
# Where the end of a statement comes from

A statement that ends in an unwind or in a jump does so because of one raise or of one fault in it, whatever
its destructors do on the way.

* `Originates` : a point at which an unwind or a jump begins; `Carries` : its way through the frames;
* `Point.EndsBy` : a run ends by an unwind or a jump that began at one of its points;
* `run_eq_iff` : this is how statements end that are not done and do not end the process.
-/

namespace ManagedRuntime.Program

open Execution

set_option autoImplicit false

variable {inline : Bool}

/-! ## Points on top of other frames -/

/-- The same point, where other frames wait as well. -/
def Point.above (c : Point) (fs : List Frame) : Point := { c with frames := c.frames ++ fs }

theorem begin_above (s : Statement) (fs gs : List Frame) (m : Machine World) :
    s.begin inline (gs ++ fs) m = (s.begin inline gs m).above fs := by
  cases s with
  | nest count => cases count <;> rfl
  | times count => cases count <;> rfl
  | _ => rfl

theorem leaving_above (exit : Exit) (fs gs : List Frame) (r : Flow (Landing Unit) × Machine World) :
    Point.leaving exit (gs ++ fs) r = (Point.leaving exit gs r).above fs := by
  rcases r with ⟨_ | _ | _ | _, m⟩ <;> rfl

theorem resume_above (f : Frame) (flow : Flow Unit) (fs gs : List Frame) (m : Machine World) :
    f.resume inline (gs ++ fs) flow m = (f.resume inline gs flow m).above fs := by
  cases f with
  | next | scope | dropping => cases flow <;> rfl
  | region before exit => exact leaving_above exit fs gs _
  | watch | reraise | main | parent => rfl

theorem exit_above (exit : Exit) (landing : Landing Unit) (fs gs : List Frame) (m : Machine World) :
    exit.step landing (gs ++ fs) m = (exit.step landing gs m).above fs := by
  cases exit with
  | handle | handleAndCleanUp =>
    simp only [Exit.step]
    split <;> rfl
  | report | cleanUp | goOn => rfl

/-- A step does not depend on the frames below. -/
theorem step_above {c c' : Point} (h : c.step inline = some c') (fs : List Frame) :
    (c.above fs).step inline = some (c'.above fs) := by
  rcases c with ⟨s | flow | ⟨landing, exit⟩, gs, m⟩
  · cases h
    exact congrArg some (begin_above s fs gs m)
  · cases gs with
    | nil => cases h
    | cons g gs =>
      cases h
      exact congrArg some (resume_above g flow fs gs m)
  · cases h
    exact congrArg some (exit_above exit landing fs gs m)

theorem reaches_above {c c' : Point} (h : Reaches inline c c') (fs : List Frame) :
    Reaches inline (c.above fs) (c'.above fs) := by
  induction h with
  | refl => exact .refl
  | tail _ hs ih => exact ih.tail (step_above hs fs)

/-! ## Unwinds and jumps -/

/-- A statement has been left by an unwind or a jump. -/
def Leaves : Flow Unit → Prop
  | .unwinding _ | .resuming _ => True
  | .done _ | .ended _ => False

/-- An unwind passes what waits for nothing else; a jump passes all but regions and threads. -/
def Frame.Passes : Flow Unit → Frame → Prop
  | .unwinding _, .next _ | .unwinding _, .watch _ | .unwinding _, .reraise _ => True
  | .resuming _, .region _ _ | .resuming _, .parent _ => False
  | .resuming _, _ => True
  | _, _ => False

/-- Frames that stop no jump. -/
def Bare (fs : List Frame) : Prop := ∀ g ∈ fs, ∀ point, g.Passes (.resuming point)

/-- Above frames that stop no jump, the innermost region is still the one that was there before them. -/
theorem Stacked.sameCells_of_bare {base t : Thread} {fs : List Frame}
    (h : Stacked base (fs.filterMap Frame.mark?) t) (hb : Bare fs) : SameCells base t := by
  induction fs with
  | nil => exact h.1
  | cons f fs ih =>
    have hrest := fun h => ih h fun g hg => hb g (.tail f hg)
    cases f with
    | region before exit => exact (hb _ (.head fs) ⟨0⟩).elim
    | parent p => exact (hb _ (.head fs) ⟨0⟩).elim
    | next | watch | reraise | scope | dropping | main => exact hrest h

/-- The way of an unwind or a jump through frames; an unwind runs the destructors of the scopes that it leaves. -/
inductive Carries (inline : Bool) : Flow Unit → List Frame → Machine World → Machine World → Prop where
  | arrived (flow : Flow Unit) (m : Machine World) : Carries inline flow [] m m
  | pass {flow : Flow Unit} {f : Frame} {fs : List Frame} {m m' : Machine World} (hf : f.Passes flow)
    (h : Carries inline flow fs m m') : Carries inline flow (f :: fs) m m'
  | drop {payload : Payload} {destructor : Statement} {fs : List Frame} {m m₁ m' : Machine World}
    (hd : destructor.run inline m = (.done (), m₁)) (h : Carries inline (.unwinding payload) fs m₁ m') :
    Carries inline (.unwinding payload) (.scope destructor :: fs) m m'

/-- A point from which an instruction leaves, or an exception is raised again after a cleanup. -/
inductive Originates : Point → Flow Unit → List Frame → Machine World → Prop where
  | perform {i : Instruction} {flow : Flow Unit} (fs : List Frame) {m m₁ : Machine World} (h : i.run m = (flow, m₁)) :
    Originates ⟨.run (.perform i), fs, m⟩ flow fs m₁
  | again {landing : Landing Unit} {e : Exception} (fs : List Frame) (m : Machine World)
    (h : landing.exception? = some e) :
    Originates ⟨.back (.done ()), .reraise landing :: fs, m⟩ (.unwinding (.raised e)) fs
      { m with thread := (m.thread.record e).beginUnwind }

/-- The run from a point ends by an unwind or a jump that begins on the way. -/
def Point.EndsBy (inline : Bool) (first : Point) (flow : Flow Unit) (m' : Machine World) : Prop :=
  ∃ c fs m, Reaches inline first c ∧ Originates c flow fs m ∧ Carries inline flow fs m m'

theorem Carries.append {flow : Flow Unit} {fs gs : List Frame} {m m₁ m' : Machine World}
    (h : Carries inline flow fs m m₁) (h' : Carries inline flow gs m₁ m') : Carries inline flow (fs ++ gs) m m' := by
  induction h with
  | arrived => exact h'
  | pass hf _ ih => exact .pass hf (ih h')
  | drop hd _ ih => exact .drop hd (ih h')

theorem Originates.above {c : Point} {flow : Flow Unit} {fs : List Frame} {m : Machine World}
    (h : Originates c flow fs m) (gs : List Frame) : Originates (c.above gs) flow (fs ++ gs) m := by
  cases h with
  | perform fs h => exact .perform (fs ++ gs) h
  | again fs m h => exact .again (fs ++ gs) m h

theorem Originates.step {c : Point} {flow : Flow Unit} {fs : List Frame} {m : Machine World}
    (h : Originates c flow fs m) : c.step inline = some ⟨.back flow, fs, m⟩ := by
  cases h with
  | perform fs h => exact congrArg (fun r => some (Point.after fs r)) h
  | again fs m h =>
    simp only [Point.step, Frame.resume, Action.proceed, raiseAgain, h]
    rfl

theorem Carries.reaches {flow : Flow Unit} {fs : List Frame} {m m' : Machine World}
    (h : Carries inline flow fs m m') : Reaches inline ⟨.back flow, fs, m⟩ ⟨.back flow, [], m'⟩ := by
  induction h with
  | arrived => exact .refl
  | @pass flow f fs m m' hf _ ih =>
    refine .head ?_ ih
    cases flow <;> cases f <;> first | exact hf.elim | rfl
  | @drop payload destructor fs m m₁ m' hd _ ih =>
    have hr := reaches_resume (reaches_run inline destructor) (.dropping payload) fs m
    rw [hd] at hr
    exact .head rfl (hr.trans ih)

theorem Point.EndsBy.of_reaches {first second : Point} {flow : Flow Unit} {m' : Machine World}
    (h : second.EndsBy inline flow m') (hr : Reaches inline first second) : first.EndsBy inline flow m' := by
  obtain ⟨c, fs, m, hc, ho, hcarry⟩ := h
  exact ⟨c, fs, m, hr.trans hc, ho, hcarry⟩

theorem Point.EndsBy.above {first : Point} {flow : Flow Unit} {m₁ m' : Machine World} {gs : List Frame}
    (h : first.EndsBy inline flow m₁) (hg : Carries inline flow gs m₁ m') : (first.above gs).EndsBy inline flow m' := by
  obtain ⟨c, fs, m, hc, ho, hcarry⟩ := h
  exact ⟨c.above gs, fs ++ gs, m, reaches_above hc gs, ho.above gs, hcarry.append hg⟩

/-! ## How statements end -/

/-- The unwinds and jumps by which a statement ends begin on its way. -/
def Statement.EndsBy (inline : Bool) (s : Statement) : Prop :=
  ∀ m flow m', s.run inline m = (flow, m') → Leaves flow → Point.EndsBy inline ⟨.run s, [], m⟩ flow m'

/-- A statement is left, and a frame that waits for it lets this pass. -/
theorem endsBy_of_frame {first : Point} {s : Statement} {f : Frame} {flow : Flow Unit} {m m₁ m' : Machine World}
    (hs : s.EndsBy inline) (hr : Reaches inline first ⟨.run s, [f], m⟩) (hrun : s.run inline m = (flow, m₁))
    (hf : Leaves flow) (hcarry : Carries inline flow [f] m₁ m') : first.EndsBy inline flow m' :=
  ((hs m flow m₁ hrun hf).above hcarry).of_reaches hr

theorem endsBy_of_passing {first : Point} {s : Statement} {f : Frame} {flow : Flow Unit} {m m' : Machine World}
    (hs : s.EndsBy inline) (hr : Reaches inline first ⟨.run s, [f], m⟩) (hrun : s.run inline m = (flow, m'))
    (hf : Leaves flow) (hpass : f.Passes flow) : first.EndsBy inline flow m' :=
  endsBy_of_frame hs hr hrun hf (.pass hpass (.arrived flow m'))

/-- A protected statement returns, or the process has ended. -/
theorem protect_ends (inline : Bool) (body : Statement) (m : Machine World) :
    (∃ landing m', protect (body.run inline) m = (.done landing, m')) ∨
    ∃ ending m', protect (body.run inline) m = (.ended ending, m') := by
  rcases h : body.run inline m.enter with ⟨flow, m₁⟩
  cases flow with
  | ended ending =>
    refine .inr ⟨ending, m₁, ?_⟩
    simp only [protect, h, land]
  | done | unwinding | resuming =>
    obtain ⟨landing, m', e, -⟩ := protect_returns h Phase.noConfusion
    exact .inl ⟨landing, m', e⟩

theorem raiseAgain_of_leaves {landing : Landing Unit} {flow : Flow Unit} {m m' : Machine World}
    (h : raiseAgain landing m = (flow, m')) (hf : Leaves flow) :
    ∃ e, landing.exception? = some e ∧ flow = .unwinding (.raised e) ∧
      m' = { m with thread := (m.thread.record e).beginUnwind } := by
  unfold raiseAgain at h
  cases he : landing.exception? with
  | none =>
    rw [he] at h
    cases h
    exact hf.elim
  | some e =>
    rw [he] at h
    cases h
    exact ⟨e, rfl, rfl, rfl⟩

/-- A statement that another action follows is left itself, or it is done and the action is left. -/
theorem endsBy_or_done {first : Point} {s : Statement} {f : Frame} {next : Unit → Action World Unit}
    {flow : Flow Unit} {m m' : Machine World} (hs : s.EndsBy inline) (hr : Reaches inline first ⟨.run s, [f], m⟩)
    (hunwind : ∀ payload, f.Passes (.unwinding payload)) (hjump : ∀ point, f.Passes (.resuming point))
    (h : Action.proceed next (s.run inline m) = (flow, m')) (hf : Leaves flow) :
    first.EndsBy inline flow m' ∨ ∃ m₁, s.run inline m = (.done (), m₁) ∧ next () m₁ = (flow, m') := by
  rcases hrun : s.run inline m with ⟨_ | payload | point | ending, m₁⟩ <;> rw [hrun] at h
  · exact .inr ⟨m₁, rfl, h⟩
  · cases h
    exact .inl (endsBy_of_passing hs hr hrun trivial (hunwind payload))
  · cases h
    exact .inl (endsBy_of_passing hs hr hrun trivial (hjump point))
  · cases h
    exact hf.elim

theorem endsBy_seq {first second : Statement} (h₁ : first.EndsBy inline) (h₂ : second.EndsBy inline)
    {start : Point} {m m' : Machine World} {flow : Flow Unit}
    (hr : Reaches inline start ⟨.run first, [.next second], m⟩)
    (h : Action.proceed (fun _ => second.run inline) (first.run inline m) = (flow, m')) (hf : Leaves flow) :
    start.EndsBy inline flow m' := by
  rcases endsBy_or_done h₁ hr (fun _ => trivial) (fun _ => trivial) h hf with hends | ⟨m₁, hrun, hnext⟩
  · exact hends
  · exact (h₂ m₁ flow m' hnext hf).of_reaches (reaches_of_frame hr hrun)

theorem endsBy_cleanUp {cleanup : Statement} (hc : cleanup.EndsBy inline) {landing : Landing Unit} {first : Point}
    {m m' : Machine World} {flow : Flow Unit} (hr : Reaches inline first ⟨.run cleanup, [.reraise landing], m⟩)
    (h : Action.proceed (fun _ => raiseAgain landing) (cleanup.run inline m) = (flow, m')) (hf : Leaves flow) :
    first.EndsBy inline flow m' := by
  rcases endsBy_or_done hc hr (fun _ => trivial) (fun _ => trivial) h hf with hends | ⟨m₁, hrun, hnext⟩
  · exact hends
  · -- The exception of the landing is raised again here.
    obtain ⟨e, he, rfl, rfl⟩ := raiseAgain_of_leaves hnext hf
    have hs := reaches_run inline cleanup [.reraise landing] m
    rw [hrun] at hs
    exact ⟨_, [], _, hr.trans hs, .again [] m₁ he, .arrived _ _⟩

/-- The statements that an exit still has to run. -/
def Exit.EndsBy (inline : Bool) : Exit → Prop
  | .report => True
  | .handle s | .cleanUp s | .goOn s => s.EndsBy inline
  | .handleAndCleanUp handler cleanup => handler.EndsBy inline ∧ cleanup.EndsBy inline

theorem endsBy_exit {exit : Exit} (hexit : exit.EndsBy inline) {first : Point} {landing : Landing Unit}
    {m m' : Machine World} {flow : Flow Unit} (hr : Reaches inline first ⟨.landed landing exit, [], m⟩)
    (h : exit.action inline landing m = (flow, m')) (hf : Leaves flow) : first.EndsBy inline flow m' := by
  cases exit with
  | report =>
    cases h
    exact hf.elim
  | handle handler =>
    simp only [Exit.action] at h
    cases hl : landing.isNormal <;> rw [hl] at h
    · exact (hexit m flow m' h hf).of_reaches (hr.tail (by simp [Point.step, Exit.step, hl]))
    · cases h
      exact hf.elim
  | cleanUp cleanup => exact endsBy_cleanUp hexit (hr.tail rfl) h hf
  | handleAndCleanUp handler cleanup =>
    simp only [Exit.action] at h
    cases hl : landing.isNormal <;> rw [hl] at h
    · have hr' : Reaches inline first (.entering handler (.cleanUp cleanup) [] m) :=
        hr.tail (by simp [Point.step, Exit.step, hl])
      change Action.proceed _ (protect (handler.run inline) m) = _ at h
      rcases protect_ends inline handler m with ⟨handled, m₁, hp⟩ | ⟨ending, m₁, hp⟩ <;> rw [hp] at h
      · exact endsBy_cleanUp hexit.2 ((reaches_protect hr' hp).tail rfl) h hf
      · cases h
        exact hf.elim
    · exact (hexit.2 m flow m' h hf).of_reaches (hr.tail (by simp [Point.step, Exit.step, hl]))
  | goOn after => exact (hexit m flow m' h hf).of_reaches (hr.tail rfl)

/-- A statement that begins with a region and goes on with its exit. -/
theorem endsBy_of_entering {s : Statement} (body : Statement) (exit : Exit) (hexit : exit.EndsBy inline)
    (hbegin : ∀ m, s.begin inline [] m = .entering body exit [] m)
    (hrun : ∀ m, s.run inline m =
      Action.proceed (fun landing => exit.action inline landing) (protect (body.run inline) m)) :
    s.EndsBy inline := by
  intro m flow m' h hf
  have hr : Reaches inline ⟨.run s, [], m⟩ (.entering body exit [] m) := .single (by rw [Point.step, hbegin])
  rw [hrun] at h
  rcases protect_ends inline body m with ⟨landing, m₁, hp⟩ | ⟨ending, m₁, hp⟩ <;> rw [hp] at h
  · exact endsBy_exit hexit (reaches_protect hr hp) h hf
  · cases h
    exact hf.elim

theorem endsBy_perform (i : Instruction) : (Statement.perform i).EndsBy inline := by
  intro m flow m' h _
  exact ⟨_, [], m', .refl, .perform [] h, .arrived flow m'⟩

theorem endsBy_sameRegion {body : Statement} (hbody : body.EndsBy inline) :
    (Statement.sameRegion body).EndsBy inline := by
  intro m flow m' h hf
  have hr : Reaches inline ⟨.run (.sameRegion body), [], m⟩ ⟨.run body, [.watch m.thread.current], m⟩ := .single rfl
  change Action.proceed (fun _ m' => emit (.sameRegion (m.thread.current = m'.thread.current)) m')
    (body.run inline m) = _ at h
  rcases endsBy_or_done hbody hr (fun _ => trivial) (fun _ => trivial) h hf with hends | ⟨m₁, -, hnext⟩
  · exact hends
  · cases hnext
    exact hf.elim

theorem endsBy_runMain {body : Statement} (hbody : body.EndsBy inline) : (Statement.runMain body).EndsBy inline := by
  intro m flow m' h hf
  have hr : Reaches inline ⟨.run (.runMain body), [], m⟩
      ⟨.run body, [.main m.process.init.configuration], { m with process := m.process.init }⟩ := .single rfl
  change Action.proceed (fun code => emit (.runMain code))
    (exitCode m.process.init.configuration (body.run inline { m with process := m.process.init })) = _ at h
  rcases hrun : body.run inline { m with process := m.process.init } with ⟨_ | payload | point | ending, m₁⟩ <;>
    rw [hrun] at h <;> cases h
  · exact hf.elim
  · exact hf.elim
  · exact endsBy_of_passing hbody hr hrun trivial trivial
  · exact hf.elim

theorem endsBy_withDestructor {destructor body : Statement} (hd : destructor.EndsBy inline)
    (hbody : body.EndsBy inline) : (Statement.withDestructor destructor body).EndsBy inline := by
  intro m flow m' h hf
  have hr : Reaches inline ⟨.run (.withDestructor destructor body), [], m⟩ ⟨.run body, [.scope destructor], m⟩ :=
    .single rfl
  change withDestructor (destructor.run inline) (body.run inline) m = _ at h
  rw [withDestructor] at h
  rcases hrun : body.run inline m with ⟨_ | payload | point | ending, m₁⟩ <;> rw [hrun] at h
  · exact (hd m₁ flow m' h hf).of_reaches (reaches_of_frame hr hrun)
  · -- The unwind goes on if the destructor is done; a jump from the destructor skips the rest of it.
    rcases hdrun : destructor.run inline m₁ with ⟨_ | other | point | ending, m₂⟩ <;> simp only [hdrun] at h <;> cases h
    · exact endsBy_of_frame hbody hr hrun trivial (.drop hdrun (.arrived _ _))
    · exact hf.elim
    · exact endsBy_of_passing hd (reaches_of_frame hr hrun) hdrun trivial trivial
    · exact hf.elim
  · cases h
    exact endsBy_of_passing hbody hr hrun trivial trivial
  · cases h
    exact hf.elim

theorem endsBy_times {body : Statement} (hbody : body.EndsBy inline) (count : Nat) :
    (Statement.times count body).EndsBy inline := by
  induction count with
  | zero =>
    intro m flow m' h hf
    cases h
    exact hf.elim
  | succ count ih =>
    intro m flow m' h hf
    exact endsBy_seq hbody ih (.single rfl) h hf

theorem endsBy_nest {body after : Statement} (hbody : body.EndsBy inline) (hafter : after.EndsBy inline)
    (block : Block) (count : Nat) : (Statement.nest count block body after).EndsBy inline := by
  cases count with
  | zero =>
    intro m flow m' h hf
    exact (hbody m flow m' h hf).of_reaches (.single rfl)
  | succ count =>
    refine endsBy_of_entering (.nest count block body after) (block.exit after) ?_ (fun _ => rfl) ?_
    · cases block <;> exact hafter
    · cases block <;> exact fun _ => rfl

/-- A new thread has no region, so no jump leaves it, and its unwinds end with it. -/
theorem endsBy_thread (body : Statement) : (Statement.thread body).EndsBy inline := by
  intro m flow m' h hf
  change Action.proceed (emitThread inline)
    (collect m (body.run inline ⟨m.process, .fresh, m.world.forThread inline⟩)) = _ at h
  rcases hrun : body.run inline ⟨m.process, .fresh, m.world.forThread inline⟩ with
    ⟨_ | payload | point | ending, m₁⟩ <;> rw [hrun] at h
  · cases inline <;> cases h <;> exact hf.elim
  · cases inline <;> cases h <;> exact hf.elim
  · exact nomatch current_of_run_resuming hrun
  · cases h
    exact hf.elim

theorem endsBy_of_run (inline : Bool) (s : Statement) : s.EndsBy inline := by
  induction s with
  | skip =>
    intro m flow m' h hf
    cases h
    exact hf.elim
  | seq first second h₁ h₂ => exact fun m flow m' h hf => endsBy_seq h₁ h₂ (.single rfl) h hf
  | perform i => exact endsBy_perform i
  | sameRegion body h => exact endsBy_sameRegion h
  | protect body => exact endsBy_of_entering body .report trivial (fun _ => rfl) fun _ => rfl
  | tryCatch body handler _ hh => exact endsBy_of_entering body (.handle handler) hh (fun _ => rfl) fun _ => rfl
  | tryFinally body cleanup _ hc => exact endsBy_of_entering body (.cleanUp cleanup) hc (fun _ => rfl) fun _ => rfl
  | tryCatchFinally body handler cleanup _ hh hc =>
    exact endsBy_of_entering body (.handleAndCleanUp handler cleanup) ⟨hh, hc⟩ (fun _ => rfl) fun _ => rfl
  | runMain body h => exact endsBy_runMain h
  | withDestructor destructor body hd h => exact endsBy_withDestructor hd h
  | nest count block body after h ha => exact endsBy_nest h ha block count
  | times count body h => exact endsBy_times h count
  | thread body => exact endsBy_thread body

/-- **A statement is left by an unwind or a jump exactly if one that begins in it is carried to its end.** -/
theorem run_eq_iff {s : Statement} {m m' : Machine World} {flow : Flow Unit} (hf : Leaves flow) :
    s.run inline m = (flow, m') ↔ Point.EndsBy inline ⟨.run s, [], m⟩ flow m' := by
  refine ⟨fun h => endsBy_of_run inline s m flow m' h hf, ?_⟩
  rintro ⟨c, fs, m₁, hc, ho, hcarry⟩
  have hend : Reaches inline ⟨.run s, [], m⟩ ⟨.back flow, [], m'⟩ := (hc.tail ho.step).trans hcarry.reaches
  have heq := Reaches.final_unique rfl rfl (reaches_run inline s [] m) hend
  cases hrun : s.run inline m
  rw [hrun] at heq
  cases heq
  rfl

end ManagedRuntime.Program
