import Mathlib.Data.List.Nodup
import ManagedRuntime.Proofs.Program.Threads

/-!
# The stack of regions

A thread has three cells for its innermost region; the cells for the regions around it are kept by the calls
that entered the inner ones.

* `SameCells` : the three cells are the same; `Stacked` : the cells fit the marks of the frames;
* `fits_of_reaches` : they do so at every point of a run;
* `regions_registered` : the registered resume points are those of the regions whose bodies run, and every way
  out of a region puts back the cells that were there before it.
-/

namespace ManagedRuntime.Program

open Execution

set_option autoImplicit false

variable {inline : Bool}

/-! ## The cells of a thread -/

/-- The innermost region, the depth and the flag of an unwind at its entry are the same. -/
structure SameCells (t t' : Thread) : Prop where
  current : t'.current = t.current
  depth : t'.depth = t.depth
  enteredUnwinding : t'.enteredUnwinding = t.enteredUnwinding

theorem SameCells.refl (t : Thread) : SameCells t t := ⟨rfl, rfl, rfl⟩

theorem SameCells.trans {t u v : Thread} (h : SameCells t u) (h' : SameCells u v) : SameCells t v :=
  ⟨h'.current.trans h.current, h'.depth.trans h.depth, h'.enteredUnwinding.trans h.enteredUnwinding⟩

/-- The cells of the thread `t` fit the marks above a thread with the cells of `base`. -/
def Stacked (base : Thread) : List Mark → Thread → Prop
  | [], t => SameCells base t ∧ base.entered ≤ t.entered
  | .region b :: ms, t =>
    t.current = some b.nextPoint ∧ t.depth = b.depth + 1 ∧ t.enteredUnwinding = b.isUnwinding ∧
      b.entered < t.entered ∧ Stacked base ms b
  | .unwind :: ms, t => Stacked base ms t
  | .parent p :: ms, t => SameCells .fresh t ∧ Stacked base ms p

theorem Stacked.congr {base t t' : Thread} {ms : List Mark} (h : Stacked base ms t) (hc : SameCells t t')
    (he : t.entered ≤ t'.entered) : Stacked base ms t' := by
  induction ms with
  | nil => exact ⟨h.1.trans hc, Nat.le_trans h.2 he⟩
  | cons mark ms ih =>
    cases mark with
    | region b =>
      obtain ⟨hcur, hdepth, hflag, hlt, hb⟩ := h
      exact ⟨hc.current.trans hcur, hc.depth.trans hdepth, hc.enteredUnwinding.trans hflag, by omega, hb⟩
    | unwind => exact ih h
    | parent p => exact ⟨h.1.trans hc, h.2⟩

theorem Stacked.enter {base t : Thread} {ms : List Mark} (h : Stacked base ms t) :
    Stacked base (.region t :: ms) t.enter :=
  ⟨rfl, rfl, rfl, Nat.lt_succ_self _, h⟩

theorem Stacked.sameCells_leave {base b t u : Thread} {ms : List Mark} (h : Stacked base (.region b :: ms) t)
    (hd : u.depth = t.depth) : SameCells b (b.leave u) := by
  obtain ⟨-, hdepth, -⟩ := h
  refine ⟨rfl, ?_, rfl⟩
  change u.depth - 1 = b.depth
  omega

theorem Stacked.leave {base b t u : Thread} {ms : List Mark} (h : Stacked base (.region b :: ms) t)
    (hd : u.depth = t.depth) (he : u.entered = t.entered) : Stacked base ms (b.leave u) := by
  have hlt : b.entered < t.entered := h.2.2.2.1
  refine h.2.2.2.2.congr (h.sameCells_leave hd) ?_
  change b.entered ≤ u.entered
  omega

/-! ## The cells along a run -/

/-- The cells fit the marks as long as the process lives, and a jump goes to the innermost region. -/
structure Fits (base : Thread) (v : View) : Prop where
  stacked : v.phase ≠ .ended → Stacked base v.marks v.thread
  jump : ∀ point, v.phase = .jumping point → v.thread.current = some point

theorem Fits.of_calm {base t : Thread} {ms : List Mark} (h : Stacked base ms t) : Fits base ⟨.calm, ms, t⟩ :=
  ⟨fun _ => h, fun _ hp => by cases hp⟩

theorem Fits.of_unwinding {base t : Thread} {ms : List Mark} (h : Stacked base ms t) :
    Fits base ⟨.unwinding, ms, t⟩ :=
  ⟨fun _ => h, fun _ hp => by cases hp⟩

theorem Fits.of_moves {base : Thread} {v v' : View} (h : Fits base v) (hm : Moves v v') : Fits base v' := by
  cases hm with
  | pass => exact h
  | stop => exact ⟨fun hp => absurd rfl hp, fun _ hp => by cases hp⟩
  | record ms t e => exact .of_calm ((h.stacked (by simp)).congr ⟨rfl, rfl, rfl⟩ (Nat.le_refl _))
  | raise ms t e => exact .of_unwinding ((h.stacked (by simp)).congr ⟨rfl, rfl, rfl⟩ (Nat.le_refl _))
  | fault ms t point f hc hu =>
    refine ⟨fun _ => (h.stacked (by simp)).congr ⟨rfl, rfl, rfl⟩ (Nat.le_refl _), fun _ hp => ?_⟩
    cases hp
    exact hc
  | enter ms t => exact .of_calm (h.stacked (by simp)).enter
  | leave b ms t => exact .of_calm ((h.stacked (by simp)).leave rfl rfl)
  | catchUnwind b ms t e =>
    have hs := (h.stacked (by simp)).leave (u := t.endUnwind) rfl rfl
    exact .of_calm (hs.congr ⟨rfl, rfl, rfl⟩ (Nat.le_refl _))
  | catchFault b ms t =>
    have hs := (h.stacked (by simp)).leave (u := { t with pending := none }) rfl rfl
    exact .of_calm (hs.congr ⟨rfl, rfl, rfl⟩ (Nat.le_refl _))
  | jumpPast b ms t point hne =>
    -- A jump goes to the current region, which is the innermost one.
    have hcur := h.jump point rfl
    rw [(h.stacked (by simp)).1] at hcur
    cases hcur
    exact absurd rfl hne
  | drop ms t => exact .of_calm (h.stacked (by simp))
  | dropped ms t => exact .of_unwinding (h.stacked (by simp))
  | skip ms t point => exact ⟨fun _ => h.stacked (by simp), h.jump⟩
  | exit ms t e => exact .of_calm ((h.stacked (by simp)).congr ⟨rfl, rfl, rfl⟩ (Nat.le_refl _))
  | spawn ms t => exact .of_calm ⟨.refl _, h.stacked (by simp)⟩
  | join ms p t phase hphase =>
    rcases hphase with rfl | rfl
    · exact .of_calm (h.stacked (by simp)).2
    · exact .of_calm (h.stacked (by simp)).2
  | lose ms p t point =>
    -- A thread without regions does not jump.
    have hcur := h.jump point rfl
    rw [(h.stacked (by simp)).1.current] at hcur
    cases hcur

theorem fits_of_reaches {base : Thread} {c c' : Point} (h : Fits base c.view) (hr : Reaches inline c c') :
    Fits base c'.view := by
  induction hr with
  | refl => exact h
  | tail _ hs ih => exact ih.of_moves (moves_of_step hs)

/-- The cells on which a statement begins are the base of its run. -/
theorem fits_run (s : Statement) (m : Machine World) : Fits m.thread (Point.view ⟨.run s, [], m⟩) :=
  .of_calm ⟨.refl _, (Nat.le_refl _)⟩

theorem fits_end (inline : Bool) (s : Statement) (m : Machine World) :
    Fits m.thread (Point.after [] (s.run inline m)).view :=
  fits_of_reaches (fits_run s m) (reaches_run inline s [] m)

/-- A statement that does not end the process has left the regions that it entered. -/
theorem stacked_run {s : Statement} {m m' : Machine World} {flow : Flow Unit} (h : s.run inline m = (flow, m'))
    (hf : (Control.back flow).phase ≠ .ended) : Stacked m.thread [] m'.thread := by
  have hfits := fits_end inline s m
  rw [h] at hfits
  exact hfits.stacked hf

/-- A statement jumps to the region that was the innermost one when it began. -/
theorem current_of_run_resuming {s : Statement} {m m' : Machine World} {point : ResumePoint}
    (h : s.run inline m = (.resuming point, m')) : m.thread.current = some point := by
  have hfits := fits_end inline s m
  rw [h] at hfits
  have hcells := (stacked_run h (by simp [Control.phase])).1
  exact hcells.current.symm.trans (hfits.jump point rfl)

/-! ## Leaving a region -/

/-- A landing that tells how a body ended. -/
def Lands : Flow Unit → Landing Unit → Prop
  | .done _, landing => landing = .normal ()
  | .unwinding payload, landing => landing = .raised payload.exception
  | .resuming _, landing => ∃ f, landing = .fault f
  | .ended _, _ => False

/-- Whichever way the body of the innermost region ends, the region is left and its cells are put back. -/
theorem land_of_stacked {base b : Thread} {ms : List Mark} {flow : Flow Unit} {m : Machine World}
    (h : Stacked base (.region b :: ms) m.thread) (hf : (Control.back flow).phase ≠ .ended)
    (hjump : ∀ point, flow = .resuming point → m.thread.current = some point) :
    ∃ landing m', land b (flow, m) = (.done landing, m') ∧ Lands flow landing ∧ SameCells b m'.thread ∧
      m.thread.depth = m'.thread.depth + 1 := by
  have hdepth : ∀ t, t.depth = m.thread.depth → m.thread.depth = (b.leave t).depth + 1 := by
    intro t ht
    have hb := (h.sameCells_leave ht).depth
    have hm : m.thread.depth = b.depth + 1 := h.2.1
    omega
  cases flow with
  | done => exact ⟨.normal (), _, rfl, rfl, h.sameCells_leave rfl, hdepth _ rfl⟩
  | unwinding payload =>
    have hcells := h.sameCells_leave (u := m.thread.endUnwind) rfl
    exact ⟨.raised payload.exception, _, rfl, rfl, hcells.trans ⟨rfl, rfl, rfl⟩, hdepth m.thread.endUnwind rfl⟩
  | resuming point =>
    have hpoint : point = b.nextPoint := Option.some.inj ((hjump point rfl).symm.trans h.1)
    have hcells := h.sameCells_leave (u := { m.thread with pending := none }) rfl
    have hd := hdepth { m.thread with pending := none } rfl
    refine ⟨.fault (m.thread.pending.getD .unknown), _, if_pos hpoint, ⟨_, rfl⟩, ?_, ?_⟩
    · exact hcells.trans ⟨rfl, rfl, rfl⟩
    · exact hd
  | ended ending => exact absurd rfl hf

/-- A protected statement returns with the cells that were there before it, unless the process ends. -/
theorem protect_returns {body : Statement} {m m₁ : Machine World} {flow : Flow Unit}
    (h : body.run inline m.enter = (flow, m₁)) (hf : (Control.back flow).phase ≠ .ended) :
    ∃ landing m', protect (body.run inline) m = (.done landing, m') ∧ Lands flow landing ∧
      SameCells m.thread m'.thread := by
  have hm : Stacked m.thread [.region m.thread] m.enter.thread :=
    Stacked.enter (show Stacked m.thread [] m.thread from ⟨.refl _, Nat.le_refl _⟩)
  obtain ⟨hcells, hentered⟩ := stacked_run h hf
  have hjump : ∀ point, flow = .resuming point → m₁.thread.current = some point := by
    rintro point rfl
    exact hcells.current.trans (current_of_run_resuming h)
  obtain ⟨landing, m', e, hl, hc, -⟩ := land_of_stacked (hm.congr hcells hentered) hf hjump
  refine ⟨landing, m', ?_, hl, hc⟩
  rw [← e, ← h]
  rfl

/-! ## Registered regions -/

/-- The threads on which the regions of the running thread were entered, the innermost region first. -/
def regionsOf : List Mark → List Thread
  | [] => []
  | .region b :: ms => b :: regionsOf ms
  | .unwind :: ms => regionsOf ms
  | .parent _ :: _ => []

def Point.regions (c : Point) : List Thread := regionsOf c.marks

/-- The cells of the thread register exactly the regions whose bodies run. -/
structure Point.Registered (c : Point) : Prop where
  /-- The chain from the innermost region through what the calls keep: one point for each region, then nothing. -/
  chain : c.machine.thread.current :: c.regions.map Thread.current =
    c.regions.map (fun b => some b.nextPoint) ++ [none]
  depth : c.machine.thread.depth = c.regions.length
  enteredUnwinding : c.machine.thread.enteredUnwinding = (c.regions.head?.map Thread.isUnwinding).getD false
  nodup : (c.regions.map Thread.nextPoint).Nodup

theorem Stacked.chain {ms : List Mark} {t : Thread} (h : Stacked .fresh ms t) :
    t.current :: (regionsOf ms).map Thread.current =
      (regionsOf ms).map (fun b => some b.nextPoint) ++ [none] := by
  induction ms generalizing t with
  | nil => simp only [regionsOf, List.map_nil, List.nil_append, h.1.current]; rfl
  | cons mark ms ih =>
    cases mark with
    | region b =>
      have hb := ih h.2.2.2.2
      simp only [regionsOf, List.map_cons, List.cons_append, h.1, hb]
    | unwind => exact ih h
    | parent p => simp only [regionsOf, List.map_nil, List.nil_append, h.1.current]; rfl

theorem Stacked.depth {ms : List Mark} {t : Thread} (h : Stacked .fresh ms t) : t.depth = (regionsOf ms).length := by
  induction ms generalizing t with
  | nil => exact h.1.depth
  | cons mark ms ih =>
    cases mark with
    | region b =>
      have hb := ih h.2.2.2.2
      simp only [regionsOf, List.length_cons, h.2.1, hb]
    | unwind => exact ih h
    | parent p => exact h.1.depth

theorem Stacked.enteredUnwinding {ms : List Mark} {t : Thread} (h : Stacked .fresh ms t) :
    t.enteredUnwinding = ((regionsOf ms).head?.map Thread.isUnwinding).getD false := by
  induction ms with
  | nil => exact h.1.enteredUnwinding
  | cons mark ms ih =>
    cases mark with
    | region b => exact h.2.2.1
    | unwind => exact ih h
    | parent p => exact h.1.enteredUnwinding

/-- An inner region has been entered after every outer one. -/
theorem Stacked.entered_lt {base t : Thread} {ms : List Mark} (h : Stacked base ms t) :
    (∀ b ∈ regionsOf ms, b.entered < t.entered) ∧
      (regionsOf ms).Pairwise fun b b' => b'.entered < b.entered := by
  induction ms generalizing t with
  | nil => exact ⟨by simp [regionsOf], .nil⟩
  | cons mark ms ih =>
    cases mark with
    | region b =>
      obtain ⟨hlt, hpair⟩ := ih h.2.2.2.2
      have hb : b.entered < t.entered := h.2.2.2.1
      refine ⟨fun b' hb' => ?_, hpair.cons hlt⟩
      rcases List.mem_cons.1 hb' with rfl | hb'
      · exact hb
      · exact Nat.lt_trans (hlt b' hb') hb
    | unwind => exact ih h
    | parent p => exact ⟨by simp [regionsOf], .nil⟩

theorem Stacked.nodup {base t : Thread} {ms : List Mark} (h : Stacked base ms t) :
    ((regionsOf ms).map Thread.nextPoint).Nodup := by
  rw [List.nodup_iff_pairwise_ne, List.pairwise_map]
  refine h.entered_lt.2.imp fun hlt heq => ?_
  have he := congrArg ResumePoint.number heq
  simp only [Thread.nextPoint] at he
  omega

theorem Stacked.registered {c : Point} (h : Stacked .fresh c.marks c.machine.thread) : c.Registered :=
  ⟨h.chain, h.depth, h.enteredUnwinding, h.nodup⟩

/-- The body of a region has ended at this point: the next step leaves the region, and only this one. -/
def Point.LeavesRegion (inline : Bool) (c : Point) : Prop :=
  ∀ flow before exit fs, c.control = .back flow → c.frames = .region before exit :: fs →
    ∃ landing m', c.step inline = some ⟨.landed landing exit, fs, m'⟩ ∧ Lands flow landing ∧
      SameCells before m'.thread ∧ c.machine.thread.depth = m'.thread.depth + 1

/--
A region has been left at this point: what comes next runs in the region around it, save for a handler with a
cleanup after it, which has a region of its own.
-/
def Point.GoesOnOutside (inline : Bool) (c : Point) : Prop :=
  ∀ landing exit s fs m, c.control = .landed landing exit → c.step inline = some ⟨.run s, fs, m⟩ →
    (Point.regions ⟨.run s, fs, m⟩ = c.regions ∧ m = c.machine) ∨
    (Point.regions ⟨.run s, fs, m⟩ = c.machine.thread :: c.regions ∧ m = c.machine.enter ∧
      ∃ cleanup, exit = .handleAndCleanUp s cleanup)

theorem Fits.leavesRegion {base : Thread} {c : Point} (h : Fits base c.view) (hc : c.control.phase ≠ .ended) :
    c.LeavesRegion inline := by
  rintro flow before exit fs hflow hfs
  obtain ⟨control, frames, m⟩ := c
  cases hflow
  cases hfs
  have hjump : ∀ point, flow = .resuming point → m.thread.current = some point := by
    rintro point rfl
    exact h.jump point rfl
  obtain ⟨landing, m', e, hl, hcells, hdepth⟩ := land_of_stacked (h.stacked hc) hc hjump
  refine ⟨landing, m', ?_, hl, hcells, hdepth⟩
  simp only [Point.step, Frame.resume, e, Point.leaving]

theorem goesOnOutside (c : Point) : c.GoesOnOutside inline := by
  rintro landing exit s fs m hlanded hstep
  obtain ⟨control, frames, m₀⟩ := c
  cases hlanded
  cases exit with
  | report => cases hstep
  | handle handler =>
    simp only [Point.step, Exit.step] at hstep
    split at hstep
    · cases hstep
    · cases hstep
      exact .inl ⟨rfl, rfl⟩
  | cleanUp cleanup =>
    cases hstep
    exact .inl ⟨rfl, rfl⟩
  | handleAndCleanUp handler cleanup =>
    simp only [Point.step, Exit.step] at hstep
    split at hstep
    · cases hstep
      exact .inl ⟨rfl, rfl⟩
    · cases hstep
      exact .inr ⟨rfl, rfl, cleanup, rfl⟩
  | goOn after =>
    cases hstep
    exact .inl ⟨rfl, rfl⟩

/--
**The stack of regions.** At every point of every run the registered resume points are those of the regions
whose bodies run; every way out of a body leaves its region and puts back what was there before it; what
follows a region runs outside it; and a protected statement returns to its caller, whatever the machine is.
-/
theorem regions_registered (inline : Bool) (program : Statement) (process : Process) (world : World) :
    (∀ c, Reaches inline (program.initial process world) c → c.control.phase ≠ .ended →
      c.Registered ∧ c.LeavesRegion inline ∧ c.GoesOnOutside inline) ∧
    ∀ (body : Statement) (m m₁ : Machine World) (flow : Flow Unit), body.run inline m.enter = (flow, m₁) →
      (Control.back flow).phase ≠ .ended → ∃ landing m', protect (body.run inline) m = (.done landing, m') ∧
        Lands flow landing ∧ SameCells m.thread m'.thread := by
  refine ⟨fun c hc hphase => ?_, fun body m m₁ flow h hf => protect_returns h hf⟩
  have hfits := fits_of_reaches (fits_run program ⟨process, .fresh, world⟩) hc
  exact ⟨(hfits.stacked hphase).registered, hfits.leavesRegion hphase, goesOnOutside c⟩

/-- A raise leaves a scope whose destructor enters a region. -/
def regionInDestructor : Statement :=
  .protect (.withDestructor (.protect (.perform .state)) (.perform (.raise nothingRaised)))

/-- In the destructor two regions are registered, and a region that a raise leaves is no longer registered. -/
theorem regions_registered_inDestructor :
    (∃ c, Reaches false (regionInDestructor.initial .start .empty) c ∧ c.Registered ∧ c.regions.length = 2 ∧
      c.machine.thread.enteredUnwinding = true) ∧
    ∃ m', protect ((Statement.perform (.raise nothingRaised)).run false) start = (.done (.raised nothingRaised), m') ∧
      SameCells start.thread m'.thread := by
  have h := regions_registered false regionInDestructor .start .empty
  refine ⟨?_, ?_⟩
  · have hreach : Reaches false (regionInDestructor.initial .start .empty) ⟨.run (.perform .state), _, _⟩ :=
      .head rfl (.head rfl (.head rfl (.head rfl (.single rfl))))
    exact ⟨_, hreach, (h.1 _ hreach Phase.noConfusion).1, rfl, rfl⟩
  · obtain ⟨landing, m', e, hl, hc⟩ := h.2 (.perform (.raise nothingRaised)) start _ _ rfl Phase.noConfusion
    cases hl
    exact ⟨m', e, hc⟩

end ManagedRuntime.Program
