import Mathlib.Logic.Relation
import ManagedRuntime.Program.Run

/-!
# Programs step by step

`Statement.run` answers how a program ends. Here a run has all its points: what is being done, what waits
for it to end, and the machine.

* `Frame` : a part of a program that waits for another part to end; `Exit` : what follows the body of a region;
* `Point` : a point of a run; `Point.step` : the next one, if the run goes on;
* `reaches_run` : the steps of a statement lead to the end that `Statement.run` has for it;
* `Reaches.to_final` : what a run reaches lies before its end, which is unique.
-/

namespace ManagedRuntime.Program

open Execution

set_option autoImplicit false

/-! ## Points of a run -/

/-- What follows the body of a region. -/
inductive Exit where
  | report
  | handle (handler : Statement)
  | cleanUp (cleanup : Statement)
  | handleAndCleanUp (handler cleanup : Statement)
  /-- A statement that runs whatever the landing is. -/
  | goOn (after : Statement)

/-- A part of a program that waits for the end of another one. -/
inductive Frame where
  | next (second : Statement)
  | watch (before : Option ResumePoint)
  /-- A region that was entered on the thread `before`. -/
  | region (before : Thread) (exit : Exit)
  /-- A cleanup runs, after which the exception of a landing is raised again. -/
  | reraise (landing : Landing Unit)
  /-- A scope whose destructor has not run yet. -/
  | scope (destructor : Statement)
  /-- The destructor of a scope runs that the payload unwinds. -/
  | dropping (payload : Payload)
  | main (c : Configuration)
  /-- The machine of a thread that waits for the one that runs. -/
  | parent (m : Machine World)

inductive Control where
  | run (s : Statement)
  /-- A statement has come to its end. -/
  | back (flow : Flow Unit)
  /-- A region has been left. -/
  | landed (landing : Landing Unit) (exit : Exit)

structure Point where
  control : Control
  /-- The innermost frame is the first. -/
  frames : List Frame
  machine : Machine World

namespace Point

/-- The end of a statement. -/
def after (fs : List Frame) (r : Flow Unit × Machine World) : Point := ⟨.back r.1, fs, r.2⟩

/-- The beginning of the body of a region. -/
def entering (body : Statement) (exit : Exit) (fs : List Frame) (m : Machine World) : Point :=
  ⟨.run body, .region m.thread exit :: fs, m.enter⟩

/-- The end of a region. -/
def leaving (exit : Exit) (fs : List Frame) : Flow (Landing Unit) × Machine World → Point
  | (.done landing, m) => ⟨.landed landing exit, fs, m⟩
  | (.unwinding payload, m) => ⟨.back (.unwinding payload), fs, m⟩
  | (.resuming point, m) => ⟨.back (.resuming point), fs, m⟩
  | (.ended ending, m) => ⟨.back (.ended ending), fs, m⟩

end Point

/-! ## Steps -/

/-- What follows the body of a region in a block, the second part of the block being `after`. -/
def Block.exit (after : Statement) : Block → Exit
  | .tryCatch => .handle after
  | .tryFinally => .cleanUp after
  | .protect => .goOn after

/-- The step that begins a statement. -/
def Statement.begin (inline : Bool) (fs : List Frame) (m : Machine World) : Statement → Point
  | .skip => .after fs (.done (), m)
  | .seq first second => ⟨.run first, .next second :: fs, m⟩
  | .perform instruction => .after fs (instruction.run m)
  | .sameRegion body => ⟨.run body, .watch m.thread.current :: fs, m⟩
  | .protect body => .entering body .report fs m
  | .tryCatch body handler => .entering body (.handle handler) fs m
  | .tryFinally body cleanup => .entering body (.cleanUp cleanup) fs m
  | .tryCatchFinally body handler cleanup => .entering body (.handleAndCleanUp handler cleanup) fs m
  | .runMain body => ⟨.run body, .main m.process.init.configuration :: fs, { m with process := m.process.init }⟩
  | .withDestructor destructor body => ⟨.run body, .scope destructor :: fs, m⟩
  | .nest 0 _ body _ => ⟨.run body, fs, m⟩
  | .nest (count + 1) block body after => .entering (.nest count block body after) (block.exit after) fs m
  | .times 0 _ => .after fs (.done (), m)
  | .times (count + 1) body => ⟨.run body, .next (.times count body) :: fs, m⟩
  | .thread body => ⟨.run body, .parent m :: fs, ⟨m.process, .fresh, m.world.forThread inline⟩⟩

/-- The step from the end of a part that a frame waits for. -/
def Frame.resume (inline : Bool) (fs : List Frame) (flow : Flow Unit) (m : Machine World) : Frame → Point
  | .next second =>
    match flow with
    | .done () => ⟨.run second, fs, m⟩
    | flow => ⟨.back flow, fs, m⟩
  | .watch before =>
    .after fs (Action.proceed (fun () => emit (.sameRegion (before = m.thread.current))) (flow, m))
  | .region before exit => .leaving exit fs (land before (flow, m))
  | .reraise landing => .after fs (Action.proceed (fun () => raiseAgain landing) (flow, m))
  | .scope destructor =>
    match flow with
    | .done () => ⟨.run destructor, fs, m⟩
    | .unwinding payload => ⟨.run destructor, .dropping payload :: fs, m⟩
    | flow => ⟨.back flow, fs, m⟩
  | .dropping payload =>
    match flow with
    | .done () => ⟨.back (.unwinding payload), fs, m⟩
    | .unwinding _ => ⟨.back (.ended .aborted), fs, m⟩
    | flow => ⟨.back flow, fs, m⟩
  | .main c => .after fs (Action.proceed (fun code => emit (.runMain code)) (exitCode c (flow, m)))
  | .parent before => .after fs (Action.proceed (emitThread inline) (collect before (flow, m)))

/-- The step after a region has been left. -/
def Exit.step (landing : Landing Unit) (fs : List Frame) (m : Machine World) : Exit → Point
  | .report => .after fs (emit (.protect landing) m)
  | .handle handler => if landing.isNormal then .after fs (.done (), m) else ⟨.run handler, fs, m⟩
  | .cleanUp cleanup => ⟨.run cleanup, .reraise landing :: fs, m⟩
  | .handleAndCleanUp handler cleanup =>
    if landing.isNormal then ⟨.run cleanup, fs, m⟩ else .entering handler (.cleanUp cleanup) fs m
  | .goOn after => ⟨.run after, fs, m⟩

/-- The point after a point; a run is over when nothing waits for its end. -/
def Point.step (inline : Bool) : Point → Option Point
  | ⟨.run s, fs, m⟩ => some (s.begin inline fs m)
  | ⟨.landed landing exit, fs, m⟩ => some (exit.step landing fs m)
  | ⟨.back flow, f :: fs, m⟩ => some (f.resume inline fs flow m)
  | ⟨.back _, [], _⟩ => none

/-- The beginning of a program on a thread on which nothing has happened. -/
def Statement.initial (program : Statement) (process : Process) (world : World) : Point :=
  ⟨.run program, [], ⟨process, .fresh, world⟩⟩

/-- One point is reached from another by any number of steps. -/
abbrev Reaches (inline : Bool) : Point → Point → Prop := Relation.ReflTransGen fun c c' => c.step inline = some c'

variable {inline : Bool}

theorem Reaches.single {c c' : Point} (h : c.step inline = some c') : Reaches inline c c' :=
  Relation.ReflTransGen.single h

/-! ## The steps of a statement -/

/-- A statement is done step by step, whatever waits for its end. -/
def Statement.Steps (inline : Bool) (s : Statement) : Prop :=
  ∀ fs m, Reaches inline ⟨.run s, fs, m⟩ (.after fs (s.run inline m))

theorem reaches_resume {s : Statement} (hs : s.Steps inline) (f : Frame) (fs : List Frame) (m : Machine World) :
    Reaches inline ⟨.run s, f :: fs, m⟩ (f.resume inline fs (s.run inline m).1 (s.run inline m).2) :=
  (hs (f :: fs) m).tail rfl

theorem reaches_leaving {body : Statement} (hbody : body.Steps inline) (exit : Exit) (fs : List Frame)
    (m : Machine World) :
    Reaches inline (.entering body exit fs m) (.leaving exit fs (protect (body.run inline) m)) :=
  reaches_resume hbody (.region m.thread exit) fs m.enter

/-- What an exit does with a landing, as an action. -/
def Exit.action (inline : Bool) (landing : Landing Unit) : Exit → Action World Unit
  | .report => emit (.protect landing)
  | .handle handler => if landing.isNormal then pure () else handler.run inline
  | .cleanUp cleanup => do
    cleanup.run inline
    raiseAgain landing
  | .handleAndCleanUp handler cleanup =>
    if landing.isNormal then cleanup.run inline
    else do
      let handled ← Execution.protect (handler.run inline)
      cleanup.run inline
      raiseAgain handled
  | .goOn after => after.run inline

/-- The statements that an exit still has to run. -/
def Exit.Steps (inline : Bool) : Exit → Prop
  | .report => True
  | .handle s | .cleanUp s | .goOn s => s.Steps inline
  | .handleAndCleanUp handler cleanup => handler.Steps inline ∧ cleanup.Steps inline

theorem reaches_cleanUp {cleanup : Statement} (hc : cleanup.Steps inline) (landing : Landing Unit) (fs : List Frame)
    (m : Machine World) :
    Reaches inline ⟨.landed landing (.cleanUp cleanup), fs, m⟩
      (.after fs ((Exit.cleanUp cleanup).action inline landing m)) :=
  .head rfl (reaches_resume hc (.reraise landing) fs m)

/-- The end of a region, followed by what its exit does. -/
theorem reaches_leave {exit : Exit} (fs : List Frame) (r : Flow (Landing Unit) × Machine World)
    (hexit : ∀ landing m, Reaches inline ⟨.landed landing exit, fs, m⟩ (.after fs (exit.action inline landing m))) :
    Reaches inline (.leaving exit fs r) (.after fs (Action.proceed (fun landing => exit.action inline landing) r)) := by
  rcases r with ⟨_ | _ | _ | _, m⟩
  · exact hexit _ m
  all_goals exact .refl

theorem reaches_exit {exit : Exit} (h : exit.Steps inline) (landing : Landing Unit) (fs : List Frame)
    (m : Machine World) :
    Reaches inline ⟨.landed landing exit, fs, m⟩ (.after fs (exit.action inline landing m)) := by
  cases exit with
  | report => exact .single rfl
  | handle handler =>
    cases hl : landing.isNormal
    · have e : (Exit.handle handler).action inline landing = handler.run inline := by simp [Exit.action, hl]
      rw [e]
      exact .head (by simp [Point.step, Exit.step, hl]) (h fs m)
    · have e : (Exit.handle handler).action inline landing = pure () := by simp [Exit.action, hl]
      rw [e]
      exact .single (by simp only [Point.step, Exit.step, hl, if_true]; rfl)
  | cleanUp cleanup => exact reaches_cleanUp h landing fs m
  | handleAndCleanUp handler cleanup =>
    cases hl : landing.isNormal
    · have e : (Exit.handleAndCleanUp handler cleanup).action inline landing m =
          Action.proceed (fun handled => (Exit.cleanUp cleanup).action inline handled)
            (protect (handler.run inline) m) := by
        simp only [Exit.action, hl, Bool.false_eq_true, if_false]; rfl
      rw [e]
      refine .head (b := .entering handler (.cleanUp cleanup) fs m) (by simp [Point.step, Exit.step, hl]) ?_
      exact (reaches_leaving h.1 _ fs m).trans (reaches_leave fs _ fun l m => reaches_cleanUp h.2 l fs m)
    · have e : (Exit.handleAndCleanUp handler cleanup).action inline landing = cleanup.run inline := by
        simp [Exit.action, hl]
      rw [e]
      exact .head (by simp [Point.step, Exit.step, hl]) (h.2 fs m)
  | goOn after => exact .head rfl (h fs m)

/-- A statement that begins with a region and goes on with its exit. -/
theorem steps_of_entering {s body : Statement} (exit : Exit) (hbody : body.Steps inline) (hexit : exit.Steps inline)
    (hbegin : ∀ fs m, s.begin inline fs m = .entering body exit fs m)
    (hrun : ∀ m, s.run inline m =
      Action.proceed (fun landing => exit.action inline landing) (protect (body.run inline) m)) :
    s.Steps inline := by
  intro fs m
  refine .head (b := .entering body exit fs m) (by rw [Point.step, hbegin]) ?_
  rw [hrun]
  exact (reaches_leaving hbody exit fs m).trans (reaches_leave fs _ fun l m => reaches_exit hexit l fs m)

theorem reaches_next {first second : Statement} (h₁ : first.Steps inline) (h₂ : second.Steps inline)
    (fs : List Frame) (m : Machine World) :
    Reaches inline ⟨.run first, .next second :: fs, m⟩
      (.after fs (Action.proceed (fun _ => second.run inline) (first.run inline m))) := by
  refine (reaches_resume h₁ (.next second) fs m).trans ?_
  rcases first.run inline m with ⟨_ | _ | _ | _, m⟩
  · exact h₂ fs m
  all_goals exact .refl

theorem steps_seq {first second : Statement} (h₁ : first.Steps inline) (h₂ : second.Steps inline) :
    (Statement.seq first second).Steps inline := fun fs m => .head rfl (reaches_next h₁ h₂ fs m)

theorem steps_sameRegion {body : Statement} (h : body.Steps inline) : (Statement.sameRegion body).Steps inline := by
  intro fs m
  refine .head rfl ((reaches_resume h (.watch m.thread.current) fs m).trans ?_)
  have e : (Statement.sameRegion body).run inline m = Action.proceed
      (fun _ m' => emit (.sameRegion (m.thread.current = m'.thread.current)) m') (body.run inline m) := rfl
  rw [e]
  rcases body.run inline m with ⟨_ | _ | _ | _, m⟩ <;> exact .refl

theorem steps_withDestructor {destructor body : Statement} (hd : destructor.Steps inline)
    (hbody : body.Steps inline) : (Statement.withDestructor destructor body).Steps inline := by
  intro fs m
  refine .head rfl ((reaches_resume hbody (.scope destructor) fs m).trans ?_)
  have e : (Statement.withDestructor destructor body).run inline m =
      withDestructor (destructor.run inline) (body.run inline) m := rfl
  rw [e, withDestructor]
  rcases body.run inline m with ⟨_ | payload | _ | _, m⟩
  · exact hd fs m
  · refine (reaches_resume hd (.dropping payload) fs m).trans ?_
    dsimp only
    rcases destructor.run inline m with ⟨_ | _ | _ | _, m⟩ <;> exact .refl
  all_goals exact .refl

theorem steps_times {body : Statement} (hbody : body.Steps inline) (count : Nat) :
    (Statement.times count body).Steps inline := by
  induction count with
  | zero => exact fun fs m => .single rfl
  | succ count ih =>
    intro fs m
    exact .head rfl (reaches_next hbody ih fs m)

theorem steps_nest {body after : Statement} (hbody : body.Steps inline) (hafter : after.Steps inline) (block : Block)
    (count : Nat) : (Statement.nest count block body after).Steps inline := by
  induction count with
  | zero => exact fun fs m => .head rfl (hbody fs m)
  | succ count ih =>
    refine steps_of_entering (block.exit after) ih ?_ (fun _ _ => rfl) ?_
    · cases block <;> exact hafter
    · cases block <;> exact fun _ => rfl

/-- **The steps of a statement lead to its end.** -/
theorem reaches_run (inline : Bool) (s : Statement) : s.Steps inline := by
  induction s with
  | skip => exact fun fs m => .single rfl
  | seq first second h₁ h₂ => exact steps_seq h₁ h₂
  | perform instruction => exact fun fs m => .single rfl
  | sameRegion body h => exact steps_sameRegion h
  | protect body h => exact steps_of_entering .report h trivial (fun _ _ => rfl) fun _ => rfl
  | tryCatch body handler h hh => exact steps_of_entering (.handle handler) h hh (fun _ _ => rfl) fun _ => rfl
  | tryFinally body cleanup h hc =>
    exact steps_of_entering (.cleanUp cleanup) h hc (fun _ _ => rfl) fun _ => rfl
  | tryCatchFinally body handler cleanup h hh hc =>
    exact steps_of_entering (.handleAndCleanUp handler cleanup) h ⟨hh, hc⟩ (fun _ _ => rfl) fun _ => rfl
  | runMain body h => exact fun fs m => .head rfl (reaches_resume h (.main m.process.init.configuration) fs _)
  | withDestructor destructor body hd h => exact steps_withDestructor hd h
  | nest count block body after h ha => exact steps_nest h ha block count
  | times count body h => exact steps_times h count
  | thread body h => exact fun fs m => .head rfl (reaches_resume h (.parent m) fs _)

section Behind

variable {first : Point} {fs : List Frame} {m m₁ : Machine World}

/-- A statement has ended, and a frame goes on. -/
theorem reaches_of_frame {s : Statement} {f : Frame} {flow : Flow Unit}
    (hr : Reaches inline first ⟨.run s, f :: fs, m⟩) (hrun : s.run inline m = (flow, m₁)) :
    Reaches inline first (f.resume inline fs flow m₁) := by
  have hs := reaches_resume (reaches_run inline s) f fs m
  rw [hrun] at hs
  exact hr.trans hs

/-- A region has been left, and its exit goes on. -/
theorem reaches_protect {body : Statement} {exit : Exit} {landing : Landing Unit}
    (hr : Reaches inline first (.entering body exit fs m))
    (hp : protect (body.run inline) m = (.done landing, m₁)) :
    Reaches inline first ⟨.landed landing exit, fs, m₁⟩ := by
  have hs := reaches_leaving (reaches_run inline body) exit fs m
  rw [hp] at hs
  exact hr.trans hs

end Behind

/-! ## The end of a run -/

/-- A run that has come to its end stays there. -/
theorem Reaches.of_final {c c' : Point} (hc : c.step inline = none) (h : Reaches inline c c') : c' = c := by
  rcases h.cases_head with rfl | ⟨d, hd, -⟩
  · rfl
  · rw [hc] at hd
    cases hd

/-- What is reached from a point is this point or lies behind the next one. -/
theorem Reaches.of_step {c c' d : Point} (hs : c.step inline = some c') (h : Reaches inline c d) :
    d = c ∨ Reaches inline c' d := by
  rcases h.cases_head with rfl | ⟨e, he, h⟩
  · exact .inl rfl
  · rw [hs] at he
    cases he
    exact .inr h

/-- Every point of a run lies on the way to its end. -/
theorem Reaches.to_final {c c' final : Point} (hf : final.step inline = none) (h : Reaches inline c final)
    (h' : Reaches inline c c') : Reaches inline c' final := by
  induction h' with
  | refl => exact h
  | tail _ hs ih =>
    rcases ih.of_step hs with rfl | h
    · rw [hf] at hs
      cases hs
    · exact h

/-- Two ends of a run are the same. -/
theorem Reaches.final_unique {c final final' : Point} (hf : final.step inline = none)
    (hf' : final'.step inline = none) (h : Reaches inline c final) (h' : Reaches inline c final') :
    final' = final := ((h.to_final hf h').of_final hf').symm

end ManagedRuntime.Program
