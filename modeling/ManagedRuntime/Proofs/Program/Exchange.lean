import ManagedRuntime.Proofs.Program.Comparison

/-!
# Exchanging instructions

A program is run beside the program in which its instructions have been exchanged for others.

* `Statement.map` : a program with other instructions; `Statement.All` : what holds of all instructions of a program;
* `Statement.Hides` : in a run, the exchange of the instructions of a statement does not show;
* `hides_of_all` : this is so if it is so for each instruction where the run performs it;
* `SameEnd` : ends that a program cannot tell apart.
-/

namespace ManagedRuntime.Program

open Execution

set_option autoImplicit false

/-! ## Other instructions -/

def Statement.map (φ : Instruction → Instruction) : Statement → Statement
  | .skip => .skip
  | .seq first second => .seq (first.map φ) (second.map φ)
  | .perform i => .perform (φ i)
  | .sameRegion body => .sameRegion (body.map φ)
  | .protect body => .protect (body.map φ)
  | .tryCatch body handler => .tryCatch (body.map φ) (handler.map φ)
  | .tryFinally body cleanup => .tryFinally (body.map φ) (cleanup.map φ)
  | .tryCatchFinally body handler cleanup => .tryCatchFinally (body.map φ) (handler.map φ) (cleanup.map φ)
  | .runMain body => .runMain (body.map φ)
  | .withDestructor destructor body => .withDestructor (destructor.map φ) (body.map φ)
  | .nest count block body after => .nest count block (body.map φ) (after.map φ)
  | .times count body => .times count (body.map φ)
  | .thread body => .thread (body.map φ)

theorem Statement.map_id (s : Statement) : s.map id = s := by
  induction s <;> simp_all [Statement.map]

def Exit.map (φ : Instruction → Instruction) : Exit → Exit
  | .report => .report
  | .handle handler => .handle (handler.map φ)
  | .cleanUp cleanup => .cleanUp (cleanup.map φ)
  | .handleAndCleanUp handler cleanup => .handleAndCleanUp (handler.map φ) (cleanup.map φ)
  | .goOn after => .goOn (after.map φ)

/-- A property of all instructions of a program. -/
def Statement.All (P : Instruction → Prop) : Statement → Prop
  | .skip => True
  | .perform i => P i
  | .sameRegion body | .protect body | .runMain body | .times _ body | .thread body => body.All P
  | .seq s t | .tryCatch s t | .tryFinally s t | .withDestructor s t | .nest _ _ s t => s.All P ∧ t.All P
  | .tryCatchFinally body handler cleanup => body.All P ∧ handler.All P ∧ cleanup.All P

theorem Statement.all_true (s : Statement) : s.All fun _ => True := by
  induction s <;> simp_all [Statement.All]

/-! ## Exchanges that do not show -/

variable {k : Comparison} {inline : Bool} {φ : Instruction → Instruction} {first : Point}

/-- In the run from the point `first`, a statement ends alike with other instructions. -/
def Statement.Hides (k : Comparison) (inline : Bool) (first : Point) (φ : Instruction → Instruction)
    (s : Statement) : Prop :=
  ∀ fs m m', Reaches inline first ⟨.run s, fs, m⟩ → Alike k m m' →
    Ends k fs Eq (s.run inline m) ((s.map φ).run inline m')

/-! ### Regions -/

/-- A region that lands puts back the cells that were there before it. -/
theorem sameCells_of_protect {body : Statement} {m m₁ : Machine World} {l : Landing Unit}
    (h : protect (body.run inline) m = (.done l, m₁)) : SameCells m.thread m₁.thread := by
  rcases hrun : body.run inline m.enter with ⟨flow, m₂⟩
  have hflow : (Control.back flow).phase ≠ .ended := by
    intro hphase
    cases flow with
    | ended ending =>
      simp only [protect, hrun, land] at h
      cases h
    | _ => cases hphase
  obtain ⟨l', m', h', -, hcells⟩ := protect_returns hrun hflow
  rw [h] at h'
  cases h'
  exact hcells

/-- A body jumps to its own region. -/
theorem eq_nextPoint_of_run {body : Statement} {m m₁ : Machine World} {point : ResumePoint}
    (h : body.run inline m.enter = (.resuming point, m₁)) : point = m.thread.nextPoint :=
  (Option.some.inj (current_of_run_resuming h)).symm

/-- Regions that have been left alike go on alike if they were entered alike. -/
theorem LeftAlike.ends {body body' : Statement} {m m' : Machine World} (fs : List Frame)
    (h : LeftAlike k (protect (body.run inline) m) (protect (body'.run inline) m'))
    (hm : CellsAlike k.deep m.thread m'.thread) :
    Ends k fs (LandingsAlike k) (protect (body.run inline) m) (protect (body'.run inline) m') := by
  generalize hp : protect (body.run inline) m = r at h
  generalize hp' : protect (body'.run inline) m' = r' at h
  cases h with
  | landed hl h => exact .done hl ⟨h, hm.of_sameCells (sameCells_of_protect hp) (sameCells_of_protect hp')⟩
  | ended ending h => exact .ended ending h

/-- Bodies that end alike in regions of their own, on machines that need not have the same regions. -/
theorem Ends.protect {body body' : Statement} {m m' : Machine World} {fs : List Frame}
    (h : Ends k fs Eq (body.run inline m.enter) (body'.run inline m'.enter)) :
    LeftAlike k (protect (body.run inline) m) (protect (body'.run inline) m') := by
  refine h.land ?_ ?_
  · exact fun _ _ hrun => eq_nextPoint_of_run hrun
  · exact fun _ _ hrun => eq_nextPoint_of_run hrun

theorem ends_protect {body : Statement} (hbody : body.Hides k inline first φ) {exit : Exit} {fs : List Frame}
    {m m' : Machine World} (hr : Reaches inline first (.entering body exit fs m)) (hm : Alike k m m') :
    Ends k fs (LandingsAlike k) (protect (body.run inline) m) (protect ((body.map φ).run inline) m') :=
  (hbody _ _ _ hr hm.enter).protect.ends fs hm.cells

theorem matches_raiseAgain {l l' : Landing Unit} (hl : LandingsAlike k l l') :
    Matches k (raiseAgain l) (raiseAgain l') := by
  unfold raiseAgain
  rw [← hl.exception]
  cases l.exception? with
  | none => exact matches_pure _
  | some e => exact matches_raise e

theorem ends_cleanUp {cleanup : Statement} (hc : cleanup.Hides k inline first φ) {l l' : Landing Unit}
    {fs : List Frame} {m m' : Machine World} (hr : Reaches inline first ⟨.run cleanup, .reraise l :: fs, m⟩)
    (hl : LandingsAlike k l l') (hm : Alike k m m') :
    Ends k fs Eq ((Exit.cleanUp cleanup).action inline l m) ((Exit.cleanUp (cleanup.map φ)).action inline l' m') := by
  have hends : Ends k fs Eq (cleanup.run inline m) ((cleanup.map φ).run inline m') := (hc _ _ _ hr hm).inside id
  refine hends.proceed ?_
  exact fun _ _ m₁ m₁' _ _ _ h₁ => matches_raiseAgain hl fs m₁ m₁' h₁

/-- The statements that an exit still has to run. -/
def Exit.Hides (k : Comparison) (inline : Bool) (first : Point) (φ : Instruction → Instruction) : Exit → Prop
  | .report => True
  | .handle s | .cleanUp s | .goOn s => s.Hides k inline first φ
  | .handleAndCleanUp handler cleanup => handler.Hides k inline first φ ∧ cleanup.Hides k inline first φ

theorem ends_exit {exit : Exit} (hexit : exit.Hides k inline first φ) {l l' : Landing Unit} {fs : List Frame}
    {m m' : Machine World} (hr : Reaches inline first ⟨.landed l exit, fs, m⟩) (hl : LandingsAlike k l l')
    (hm : Alike k m m') : Ends k fs Eq (exit.action inline l m) ((exit.map φ).action inline l' m') := by
  have hnormal := hl.isNormal
  cases exit with
  | report => exact matches_emit hl.look fs m m' hm
  | handle handler =>
    simp only [Exit.map, Exit.action, ← hnormal]
    cases hn : l.isNormal
    · exact hexit fs m m' (hr.tail (by simp [Point.step, Exit.step, hn])) hm
    · exact .done rfl hm
  | cleanUp cleanup => exact ends_cleanUp hexit (hr.tail rfl) hl hm
  | handleAndCleanUp handler cleanup =>
    simp only [Exit.map, Exit.action, ← hnormal]
    cases hn : l.isNormal
    · have hr' : Reaches inline first (.entering handler (.cleanUp cleanup) fs m) :=
        hr.tail (by simp [Point.step, Exit.step, hn])
      refine (ends_protect hexit.1 hr' hm).proceed ?_
      intro h h' m₁ m₁' hp _ hh h₁
      exact ends_cleanUp hexit.2 ((reaches_protect hr' hp).tail rfl) hh h₁
    · exact hexit.2 fs m m' (hr.tail (by simp [Point.step, Exit.step, hn])) hm
  | goOn after => exact hexit fs m m' (hr.tail rfl) hm

/-- A statement that begins with a region and goes on with its exit. -/
theorem hides_of_entering {s body : Statement} (exit : Exit) (hbody : body.Hides k inline first φ)
    (hexit : exit.Hides k inline first φ) (hbegin : ∀ fs m, s.begin inline fs m = .entering body exit fs m)
    (hrun : ∀ m, s.run inline m =
      Action.proceed (fun l => exit.action inline l) (protect (body.run inline) m))
    (hrun' : ∀ m, (s.map φ).run inline m =
      Action.proceed (fun l => (exit.map φ).action inline l) (protect ((body.map φ).run inline) m)) :
    s.Hides k inline first φ := by
  intro fs m m' hr hm
  have hr' : Reaches inline first (.entering body exit fs m) := hr.tail (by rw [Point.step, hbegin])
  rw [hrun, hrun']
  refine (ends_protect hbody hr' hm).proceed ?_
  intro l l' m₁ m₁' hp _ hl h₁
  exact ends_exit hexit (reaches_protect hr' hp) hl h₁

/-! ### Other statements -/

theorem ends_next {s t : Statement} (hs : s.Hides k inline first φ) (ht : t.Hides k inline first φ)
    {fs : List Frame} {m m' : Machine World} (hr : Reaches inline first ⟨.run s, .next t :: fs, m⟩)
    (hm : Alike k m m') :
    Ends k fs Eq (Action.proceed (fun _ => t.run inline) (s.run inline m))
      (Action.proceed (fun _ => (t.map φ).run inline) ((s.map φ).run inline m')) := by
  have hends : Ends k fs Eq (s.run inline m) ((s.map φ).run inline m') := (hs _ _ _ hr hm).inside id
  refine hends.proceed ?_
  exact fun _ _ m₁ m₁' hrun _ _ h₁ => ht fs m₁ m₁' (reaches_of_frame hr hrun) h₁

/-- The innermost region is the same after a statement as before it, in both runs. -/
theorem hides_sameRegion {body : Statement} (hbody : body.Hides k inline first φ) :
    (Statement.sameRegion body).Hides k inline first φ := by
  intro fs m m' hr hm
  have hends : Ends k fs Eq (body.run inline m) ((body.map φ).run inline m') :=
    (hbody (.watch m.thread.current :: fs) m m' (hr.tail rfl) hm).inside id
  refine hends.proceed ?_
  intro _ _ m₁ m₁' hrun hrun' _ h₁
  have hcur := (stacked_run hrun Phase.noConfusion).1.current
  have hcur' := (stacked_run hrun' Phase.noConfusion).1.current
  refine matches_emit ?_ fs m₁ m₁' h₁
  rw [hcur, hcur', decide_eq_true rfl, decide_eq_true rfl]

theorem ends_exitCode {c : Configuration} {fs : List Frame} {r r' : Flow Unit × Machine World}
    (h : Ends k (.main c :: fs) Eq r r') : Ends k fs Eq (exitCode c r) (exitCode c r') := by
  cases h with
  | done _ h => exact .done rfl h
  | @unwinding payload m m' h =>
    have hprinted := h.onProcess fun p =>
      if c.reportUnhandled then p.printError (Process.unhandledMark ++ payload.exception.message.characters) else p
    exact .done rfl (hprinted.endUnwind.record payload.exception)
  | resuming point point' hp h => exact .resuming point point' hp h
  | ended ending h => exact .ended ending h
  | raising point hd =>
    -- A jump passes a main action, and an unwind does not.
    exact hd.elim

theorem hides_runMain {body : Statement} (hbody : body.Hides k inline first φ) :
    (Statement.runMain body).Hides k inline first φ := by
  intro fs m m' hr hm
  have hends := hbody (.main m.process.init.configuration :: fs) _ _ (hr.tail rfl) (hm.onProcess Process.init)
  have hmain := ends_exitCode hends
  rw [hm.process] at hmain
  change Ends k fs Eq (Action.proceed (fun code => emit (.runMain code)) (exitCode m.process.init.configuration _)) _
  rw [hm.process]
  refine hmain.proceed ?_
  rintro code _ m₁ m₁' - - rfl h₁
  exact matches_emit rfl fs m₁ m₁' h₁

/-- A destructor that runs in an unwind ends alike; the raise of a fault does not reach it. -/
theorem hides_withDestructor {destructor body : Statement} (hd : destructor.Hides k inline first φ)
    (hbody : body.Hides k inline first φ) : (Statement.withDestructor destructor body).Hides k inline first φ := by
  intro fs m m' hr hm
  have hrbody : Reaches inline first ⟨.run body, .scope destructor :: fs, m⟩ := hr.tail rfl
  have hends := hbody (.scope destructor :: fs) m m' hrbody hm
  change Ends k fs Eq (withDestructor (destructor.run inline) (body.run inline) m)
    (withDestructor ((destructor.map φ).run inline) ((body.map φ).run inline) m')
  simp only [withDestructor]
  generalize hrun : body.run inline m = r at hends
  generalize (body.map φ).run inline m' = r' at hends
  cases hends with
  | @done _ _ m₁ m₁' _ h₁ => exact hd fs m₁ m₁' (reaches_of_frame hrbody hrun) h₁
  | @unwinding payload m₁ m₁' h₁ =>
    have hdrop := hd (.dropping payload :: fs) m₁ m₁' (reaches_of_frame hrbody hrun) h₁
    dsimp only
    generalize destructor.run inline m₁ = r at hdrop
    generalize (destructor.map φ).run inline m₁' = r' at hdrop
    cases hdrop with
    | done _ h₂ => exact .unwinding payload h₂
    | unwinding _ h₂ => exact .ended .aborted h₂
    | resuming point point' hp h₂ => exact .resuming point point' hp h₂
    | ended ending h₂ => exact .ended ending h₂
    | raising point hdirect => exact hdirect.elim
  | resuming point point' hp h₁ => exact .resuming point point' hp h₁
  | ended ending h₁ => exact .ended ending h₁
  | raising point hdirect => exact hdirect.elim

theorem hides_times {body : Statement} (hbody : body.Hides k inline first φ) (count : Nat) :
    (Statement.times count body).Hides k inline first φ := by
  induction count with
  | zero => exact fun fs m m' _ hm => .done rfl hm
  | succ count ih => exact fun fs m m' hr hm => ends_next hbody ih (hr.tail rfl) hm

theorem hides_nest {body after : Statement} (hbody : body.Hides k inline first φ)
    (hafter : after.Hides k inline first φ) (block : Block) (count : Nat) :
    (Statement.nest count block body after).Hides k inline first φ := by
  induction count with
  | zero => exact fun fs m m' hr hm => hbody fs m m' (hr.tail rfl) hm
  | succ count ih =>
    refine hides_of_entering (block.exit after) ih ?_ (fun _ _ => rfl) ?_ ?_
    · cases block <;> exact hafter
    · cases block <;> exact fun _ => rfl
    · cases block <;> exact fun _ => rfl

/-- What a thread leaves to its parent looks alike. -/
theorem ends_emitThread {fs : List Frame} {m m' : Machine World} {escaped : Option Exception} {child child' : World}
    (hchild : WorldsAlike k.look child child') (hm : Alike k m m') :
    Ends k fs Eq (emitThread inline (escaped, child) m) (emitThread inline (escaped, child') m') := by
  cases inline with
  | false => exact matches_emit (k.thread _ _ _ hchild.events) fs m m' hm
  | true =>
    have hworld : WorldsAlike k.look { m.world with events := child.events }
        { m'.world with events := child'.events } :=
      ⟨hm.world.counter, hm.world.arrays, hm.world.texts, hchild.events⟩
    exact matches_emit rfl fs _ _ (hm.onWorld hworld)

/-- A thread has no region at its beginning, so that nothing but an unwind leaves it. -/
theorem hides_thread {body : Statement} (hbody : body.Hides k inline first φ) :
    (Statement.thread body).Hides k inline first φ := by
  intro fs m m' hr hm
  have hstart : Alike k ⟨m.process, .fresh, m.world.forThread inline⟩
      ⟨m'.process, .fresh, m'.world.forThread inline⟩ := by
    refine ⟨⟨hm.process, rfl, rfl, rfl, rfl, rfl, ?_⟩, .refl k.deep .fresh⟩
    cases inline with
    | false => rfl
    | true => exact hm.world.events
  have hends := hbody (.parent m :: fs) _ _ (hr.tail rfl) hstart
  change Ends k fs Eq
    (Action.proceed (emitThread inline) (collect m (body.run inline ⟨m.process, .fresh, m.world.forThread inline⟩)))
    (Action.proceed (emitThread inline)
      (collect m' ((body.map φ).run inline ⟨m'.process, .fresh, m'.world.forThread inline⟩)))
  generalize hrun : body.run inline ⟨m.process, .fresh, m.world.forThread inline⟩ = r at hends
  generalize (body.map φ).run inline ⟨m'.process, .fresh, m'.world.forThread inline⟩ = r' at hends
  have hback : ∀ {m₁ m₁' : Machine World}, Alike k m₁ m₁' →
      Alike k { m with process := m₁.process } { m' with process := m₁'.process } := fun h₁ =>
    ⟨⟨h₁.process, hm.exception, hm.unwinds, hm.world⟩, hm.cells⟩
  cases hends with
  | done _ h₁ => exact ends_emitThread h₁.world (hback h₁)
  | unwinding payload h₁ => exact ends_emitThread h₁.world (hback h₁)
  | resuming point point' hp h₁ => exact nomatch current_of_run_resuming hrun
  | ended ending h₁ => exact .ended ending ((hback h₁).onWorld h₁.world)
  | raising point hdirect => exact hdirect.elim

/-- **An exchange of instructions does not show** if it does not show where the run performs one of them. -/
theorem hides_of_all {P : Instruction → Prop} (hperform : ∀ i, P i → (Statement.perform i).Hides k inline first φ)
    (s : Statement) (hs : s.All P) : s.Hides k inline first φ := by
  induction s with
  | skip => exact fun fs m m' _ hm => .done rfl hm
  | seq s t ihs iht => exact fun fs m m' hr hm => ends_next (ihs hs.1) (iht hs.2) (hr.tail rfl) hm
  | perform i => exact hperform i hs
  | sameRegion body ih => exact hides_sameRegion (ih hs)
  | protect body ih =>
    exact hides_of_entering .report (ih hs) trivial (fun _ _ => rfl) (fun _ => rfl) fun _ => rfl
  | tryCatch body handler ih ihh =>
    exact hides_of_entering (.handle handler) (ih hs.1) (ihh hs.2) (fun _ _ => rfl) (fun _ => rfl) fun _ => rfl
  | tryFinally body cleanup ih ihc =>
    exact hides_of_entering (.cleanUp cleanup) (ih hs.1) (ihc hs.2) (fun _ _ => rfl) (fun _ => rfl) fun _ => rfl
  | tryCatchFinally body handler cleanup ih ihh ihc =>
    exact hides_of_entering (.handleAndCleanUp handler cleanup) (ih hs.1) ⟨ihh hs.2.1, ihc hs.2.2⟩
      (fun _ _ => rfl) (fun _ => rfl) fun _ => rfl
  | runMain body ih => exact hides_runMain (ih hs)
  | withDestructor destructor body ihd ih => exact hides_withDestructor (ihd hs.1) (ih hs.2)
  | nest count block body after ih iha => exact hides_nest (ih hs.1) (iha hs.2) block count
  | times count body ih => exact hides_times (ih hs) count
  | thread body ih => exact hides_thread (ih hs)

/-! ## The same ends -/

/-- Two ends from one machine that a program cannot tell apart, with what `look` keeps of the events. -/
structure SameEnd (look : Event → Event) (r r' : Flow Unit × Machine World) : Prop where
  flow : r.1 = r'.1
  process : r.2.process = r'.2.process
  exception : r.2.thread.exception = r'.2.thread.exception
  unwinds : r.2.thread.unwinds = r'.2.thread.unwinds
  cells : (Control.back r.1).phase ≠ .ended → SameCells r.2.thread r'.2.thread
  world : WorldsAlike look r.2.world r'.2.world

theorem SameCells.symm {t t' : Thread} (h : SameCells t t') : SameCells t' t :=
  ⟨h.current.symm, h.depth.symm, h.enteredUnwinding.symm⟩

/-- Statements that end alike on the same machine have the same end. -/
theorem Ends.sameEnd {k : Comparison} {s s' : Statement} {m : Machine World}
    (h : Ends k [] Eq (s.run inline m) (s'.run inline m)) : SameEnd k.look (s.run inline m) (s'.run inline m) := by
  have hcells : ∀ {flow flow' m₁ m₁'}, s.run inline m = (flow, m₁) → s'.run inline m = (flow', m₁') →
      (Control.back flow).phase ≠ .ended → (Control.back flow').phase ≠ .ended →
      SameCells m₁.thread m₁'.thread := fun hrun hrun' hf hf' =>
    (stacked_run hrun hf).1.symm.trans (stacked_run hrun' hf').1
  generalize hrun : s.run inline m = r at h
  generalize hrun' : s'.run inline m = r' at h
  cases h with
  | done _ h => exact ⟨rfl, h.process, h.exception, h.unwinds, fun hf => hcells hrun hrun' hf hf, h.world⟩
  | unwinding payload h =>
    exact ⟨rfl, h.process, h.exception, h.unwinds, fun hf => hcells hrun hrun' hf hf, h.world⟩
  | resuming point point' _ h =>
    -- Both jump to the region around them.
    have hpoint : some point = some point' :=
      (current_of_run_resuming hrun).symm.trans (current_of_run_resuming hrun')
    cases hpoint
    exact ⟨rfl, h.process, h.exception, h.unwinds, fun hf => hcells hrun hrun' hf hf, h.world⟩
  | ended ending h => exact ⟨rfl, h.process, h.exception, h.unwinds, fun hf => absurd rfl hf, h.world⟩
  | raising point hd => exact hd.elim

/-- A statement ends alike on machines that look alike. -/
theorem ends_self {k : Comparison} {P : Instruction → Prop} (hP : ∀ i, P i → i = .state → k.ReportsState)
    {s : Statement} (hs : s.All P) {m m' : Machine World} (fs : List Frame) (hm : Alike k m m') :
    Ends k fs Eq (s.run inline m) (s.run inline m') := by
  have hhides : s.Hides k inline ⟨.run s, fs, m⟩ id := by
    refine hides_of_all ?_ s hs
    exact fun i hi fs m m' _ hm => i.matches_self (hP i hi) fs m m' hm
  have hends := hhides fs m m' .refl hm
  rw [Statement.map_id] at hends
  exact hends

end ManagedRuntime.Program
