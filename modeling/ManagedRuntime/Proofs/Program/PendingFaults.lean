import ManagedRuntime.Proofs.Program.Reraising

/-!
# Pending faults

The class of a fault gets to the region where control resumes through a cell of its thread, which all regions of the
thread share.

* `Point.cells` : the cells of all threads of a run; `cells_of_step` : apart from faults nothing puts a class into one;
* `Jump` : a fault has struck at one point, and at another one control is on its way to the innermost region;
* `Jump.step` : it goes on, or the region lands with the class that the fault has stored;
* `CellsFit`, `cellsFit_of_reaches` : the cells are empty but for that of a thread that jumps;
* `fault_neither_stale_nor_lost` : what is taken from a cell is what the fault has stored that has led there.
-/

namespace ManagedRuntime.Program

open Execution

set_option autoImplicit false

variable {inline : Bool}

/-! ## Cells -/

/-- The cells for pending faults, that of the running thread first. -/
def Point.cells (c : Point) : List (Option Fault) := c.machine.thread.pending :: c.waiting.map Thread.pending

/-- Control is on its way to a region. -/
def Point.Jumping (c : Point) : Prop := ∃ point, c.control = .back (.resuming point)

/-- No cell holds a class. -/
def Point.Vacant (c : Point) : Prop := ∀ p ∈ c.cells, p = none

theorem vacant_iff {c : Point} :
    c.Vacant ↔ c.machine.thread.pending = none ∧ ∀ t ∈ c.waiting, t.pending = none := by
  simp [Point.Vacant, Point.cells]

theorem jumping_iff {c : Point} {point : ResumePoint} :
    c.control.phase = .jumping point ↔ c.control = .back (.resuming point) := by
  cases hc : c.control with
  | run s => simp [Control.phase]
  | back flow => cases flow <;> simp [Control.phase]
  | landed landing exit => simp [Control.phase]

/-- What the cells hold, they have held before. -/
def Point.Inherits (c c' : Point) : Prop := c'.cells ⊆ none :: c.cells

theorem Point.Inherits.vacant {c c' : Point} (h : c.Inherits c') (hc : c.Vacant) : c'.Vacant := by
  intro p hp
  rcases List.mem_cons.1 (h hp) with hnone | hp
  · exact hnone
  · exact hc p hp

theorem inherits_of_eq {c c' : Point} (h : c'.cells = c.cells) : c.Inherits c' := by
  rw [Point.Inherits, h]
  exact List.subset_cons_self ..

theorem pending_of_quietEnd {α : Type} {t : Thread} {r : Flow α × Machine World} (h : QuietEnd t r) :
    r.2.thread.pending = t.pending := by
  rcases r with ⟨_ | payload | point | ending, m⟩
  · obtain ⟨e, h⟩ := h
    simp [h, Thread.record]
  · obtain ⟨e, h, -⟩ := h
    simp [h, Thread.record, Thread.beginUnwind]
  · exact h.elim
  · obtain ⟨e, h⟩ := h
    simp [h, Thread.record]

theorem inherits_of_quietEnd {c : Point} {fs : List Frame} {r : Flow Unit × Machine World}
    (hw : fs.filterMap Frame.waits? = c.waiting) (h : QuietEnd c.machine.thread r) : c.Inherits (.after fs r) := by
  apply inherits_of_eq
  rw [Point.cells, Point.cells, ← hw, ← pending_of_quietEnd h]
  rfl

/-! ## What a step does to the cells -/

theorem inherits_of_begin (s : Statement) (fs : List Frame) (m : Machine World)
    (hj : ¬ (s.begin inline fs m).Jumping) : Point.Inherits ⟨.run s, fs, m⟩ (s.begin inline fs m) := by
  cases s with
  | perform i =>
    rcases i.run_spec m with h | ⟨s, f, point, -, -, -, -, hrun⟩
    · exact inherits_of_quietEnd rfl h
    · refine absurd ⟨point, ?_⟩ hj
      change (Point.after fs (i.run m)).control = _
      rw [hrun]
      rfl
  | nest count => cases count <;> exact inherits_of_eq rfl
  | times count => cases count <;> exact inherits_of_eq rfl
  -- The cell of a new thread is empty.
  | thread => exact List.Subset.refl _
  | skip | seq | sameRegion | protect | tryCatch | tryFinally | tryCatchFinally | runMain | withDestructor =>
    exact inherits_of_eq rfl

theorem inherits_of_land (before : Thread) (exit : Exit) (flow : Flow Unit) (fs : List Frame) (m : Machine World) :
    Point.Inherits ⟨.back flow, .region before exit :: fs, m⟩ (.leaving exit fs (land before (flow, m))) := by
  cases flow with
  | done | unwinding | ended => exact inherits_of_eq rfl
  | resuming point =>
    by_cases hpoint : point = before.nextPoint
    · -- The region empties the cell.
      simp only [land, if_pos hpoint]
      exact List.cons_subset_cons _ (List.subset_cons_self ..)
    · simp only [land, if_neg hpoint]
      exact inherits_of_eq rfl

theorem inherits_of_join (p : Machine World) (flow : Flow Unit) (fs : List Frame) (m : Machine World) :
    Point.Inherits ⟨.back flow, .parent p :: fs, m⟩
      (.after fs (Action.proceed (emitThread inline) (collect p (flow, m)))) := by
  have hcells : (Point.after fs (Action.proceed (emitThread inline) (collect p (flow, m)))).cells =
      p.thread.pending :: (fs.filterMap Frame.waits?).map Thread.pending := by
    cases flow <;> cases inline <;> rfl
  rw [Point.Inherits, hcells]
  exact List.Subset.trans (List.subset_cons_self ..) (List.subset_cons_self ..)

theorem inherits_of_resume (f : Frame) (flow : Flow Unit) (fs : List Frame) (m : Machine World) :
    Point.Inherits ⟨.back flow, f :: fs, m⟩ (f.resume inline fs flow m) := by
  cases f with
  | region before exit => exact inherits_of_land before exit flow fs m
  | reraise landing =>
    cases flow with
    | done => exact inherits_of_quietEnd rfl (modest_raiseAgain landing m).quiet
    | unwinding | resuming | ended => exact inherits_of_eq rfl
  | parent p => exact inherits_of_join p flow fs m
  | next | watch | scope | dropping | main => cases flow <;> exact inherits_of_eq rfl

theorem inherits_of_exit (exit : Exit) (landing : Landing Unit) (fs : List Frame) (m : Machine World) :
    Point.Inherits ⟨.landed landing exit, fs, m⟩ (exit.step landing fs m) := by
  cases exit with
  | report | cleanUp | goOn => exact inherits_of_eq rfl
  | handle | handleAndCleanUp =>
    simp only [Exit.step]
    split <;> exact inherits_of_eq rfl

/-- **A step that does not begin a jump puts no class into a cell.** -/
theorem cells_of_step {c c' : Point} (h : c.step inline = some c') (hj : ¬ c'.Jumping) : c.Inherits c' := by
  rcases c with ⟨s | flow | ⟨landing, exit⟩, fs, m⟩
  · cases h
    exact inherits_of_begin s fs m hj
  · cases fs with
    | nil => cases h
    | cons f fs =>
      cases h
      exact inherits_of_resume f flow fs m
  · cases h
    exact inherits_of_exit exit landing fs m

/-! ## Jumps -/

/-- A fault of the class `f` has struck at `c₀`, where the cell was empty, and at `c` control is on its way. -/
structure Jump (c₀ : Point) (f : Fault) (c : Point) : Prop where
  faults : ∃ s, c₀.Faults s f
  vacant : c₀.Vacant
  control : ∃ point, c₀.machine.thread.current = some point ∧ c.control = .back (.resuming point)
  /-- Only frames have been passed that stop no jump. -/
  passed : ∃ gs, c₀.frames = gs ++ c.frames ∧ Bare gs
  /-- The cell holds the class of the fault, and nothing else has changed. -/
  machine : c.machine = jumping c₀.machine f

theorem Moves.phase_of_jumping {v v' : View} {point : ResumePoint} (hm : Moves v v') (h : v'.phase = .jumping point) :
    v.phase = .calm ∨ v.phase = .jumping point := by
  cases hm with
  | pass => exact .inr h
  | fault => exact .inl rfl
  | jumpPast | skip | lose => exact .inr h
  | _ => cases h

/-- A jump begins with a fault that the cells of the thread let through. -/
theorem jump_of_step {c c' : Point} (hs : c.step inline = some c') (hc : ¬ c.Jumping) (hv : c.Vacant)
    (hj : c'.Jumping) : ∃ f, Jump c f c' := by
  obtain ⟨point, hpoint⟩ := hj
  have hphase := jumping_iff.2 hpoint
  have hcalm : c.control.phase = .calm := by
    rcases (moves_of_step hs).phase_of_jumping hphase with h | h
    · exact h
    · exact absurd ⟨point, jumping_iff.1 h⟩ hc
  obtain ⟨s, f, hf⟩ := faults_of_jump hs hcalm hphase
  rcases hf.step inline with ⟨at', hcur, -, hstep⟩ | ⟨-, hstep⟩
  · rw [hs] at hstep
    cases hstep
    exact ⟨f, ⟨s, hf⟩, hv, ⟨at', hcur, rfl⟩, ⟨[], rfl, fun g hg => absurd hg List.not_mem_nil⟩, rfl⟩
  · rw [hs] at hstep
    cases hstep
    cases hpoint

theorem waiting_of_bare {gs : List Frame} (hb : Bare gs) (fs : List Frame) :
    (gs ++ fs).filterMap Frame.waits? = fs.filterMap Frame.waits? := by
  induction gs with
  | nil => rfl
  | cons g gs ih =>
    obtain ⟨hg, hgs⟩ := List.forall_mem_cons.1 hb
    cases g with
    | region before exit => exact (hg ⟨0⟩).elim
    | parent p => exact (hg ⟨0⟩).elim
    | next | watch | reraise | scope | dropping | main => exact ih hgs

namespace Jump

variable {c₀ c : Point} {f : Fault} (h : Jump c₀ f c)

include h

theorem pending : c.machine.thread.pending = some f := by
  rw [h.machine]
  rfl

/-- The threads that wait have not changed on the way, and their cells are empty. -/
theorem waiting : c.waiting = c₀.waiting ∧ ∀ t ∈ c.waiting, t.pending = none := by
  obtain ⟨gs, hframes, hb⟩ := h.passed
  have heq : c.waiting = c₀.waiting := by
    rw [Point.waiting, Point.waiting, hframes, waiting_of_bare hb]
  exact ⟨heq, heq ▸ (vacant_iff.1 h.vacant).2⟩

/-- A jump passes a frame, or the region to which it goes lands with the class that the fault has stored. -/
theorem step {base : Thread} {c' : Point} (hfits : Fits base c.view) (hs : c.step inline = some c') :
    Jump c₀ f c' ∨ ∃ before exit fs, c.frames = .region before exit :: fs ∧
      c' = ⟨.landed (.fault f) exit, fs, landing before c₀.machine f⟩ := by
  obtain ⟨point, hcur, hcontrol⟩ := h.control
  obtain ⟨gs, hframes, hb⟩ := h.passed
  have hmachine := h.machine
  have hinnermost := hfits.jump point (jumping_iff.2 hcontrol)
  obtain ⟨control, frames, m⟩ := c
  cases hcontrol
  obtain rfl : m = jumping c₀.machine f := hmachine
  have hstacked : Stacked base (frames.filterMap Frame.mark?) (jumping c₀.machine f).thread :=
    hfits.stacked Phase.noConfusion
  have hpassed : ∀ (g : Frame) (fs : List Frame), frames = g :: fs → (∀ at', g.Passes (.resuming at')) →
      Jump c₀ f ⟨.back (.resuming point), fs, jumping c₀.machine f⟩ := by
    intro g fs hfs hg
    refine ⟨h.faults, h.vacant, ⟨point, hcur, rfl⟩, ⟨gs ++ [g], ?_, ?_⟩, rfl⟩
    · rw [hframes, hfs]
      simp
    · exact List.forall_mem_append.2 ⟨hb, List.forall_mem_singleton.2 hg⟩
  cases frames with
  | nil => cases hs
  | cons g fs =>
    cases g with
    | region before exit =>
      -- The region is the innermost one, and a jump goes nowhere else.
      obtain rfl : point = before.nextPoint := Option.some.inj (hinnermost.symm.trans hstacked.1)
      rw [leaves_jumping] at hs
      cases hs
      exact .inr ⟨before, exit, fs, rfl, rfl⟩
    | parent p =>
      -- A thread without regions does not jump.
      have hnone : (jumping c₀.machine f).thread.current = none := hstacked.1.current
      exact nomatch hinnermost.symm.trans hnone
    | next | watch | reraise | scope | dropping | main =>
      cases hs
      exact .inl (hpassed _ fs rfl fun _ => trivial)

end Jump

/-! ## The cells along a run -/

/-- Only the cell of a thread that jumps holds a class, which the fault has stored that has made it jump. -/
structure CellsFit (inline : Bool) (first c : Point) : Prop where
  vacant : ¬ c.Jumping → c.Vacant
  jump : c.Jumping → ∃ c₀ f, Reaches inline first c₀ ∧ Reaches inline c₀ c ∧ Jump c₀ f c

theorem CellsFit.of_vacant {first c : Point} (hc : ¬ c.Jumping) (hv : c.Vacant) : CellsFit inline first c :=
  ⟨fun _ => hv, fun hj => absurd hj hc⟩

/-- The machine on which a region has landed holds no class. -/
theorem Jump.vacant_landing {c₀ c : Point} {f : Fault} (h : Jump c₀ f c) {before : Thread} {exit : Exit}
    {fs : List Frame} (hframes : c.frames = .region before exit :: fs) :
    Point.Vacant ⟨.landed (.fault f) exit, fs, landing before c₀.machine f⟩ := by
  refine vacant_iff.2 ⟨rfl, fun t ht => h.waiting.2 t ?_⟩
  rw [Point.waiting, hframes]
  exact ht

/-- **A step keeps the cells in order.** -/
theorem CellsFit.step {base : Thread} {first c c' : Point} (h : CellsFit inline first c) (hfits : Fits base c.view)
    (hr : Reaches inline first c) (hs : c.step inline = some c') : CellsFit inline first c' := by
  by_cases hc : c.Jumping
  · obtain ⟨c₀, f, hfirst, hway, hjump⟩ := h.jump hc
    rcases hjump.step hfits hs with hnext | ⟨before, exit, fs, hframes, rfl⟩
    · obtain ⟨point, -, hpoint⟩ := hnext.control
      exact ⟨fun hn => absurd ⟨point, hpoint⟩ hn, fun _ => ⟨c₀, f, hfirst, hway.tail hs, hnext⟩⟩
    · exact .of_vacant (fun hj => nomatch hj.choose_spec) (hjump.vacant_landing hframes)
  · have hv := h.vacant hc
    by_cases hc' : c'.Jumping
    · obtain ⟨f, hjump⟩ := jump_of_step hs hc hv hc'
      exact ⟨fun hn => absurd hc' hn, fun _ => ⟨c, f, hr, .single hs, hjump⟩⟩
    · exact .of_vacant hc' ((cells_of_step hs hc').vacant hv)

theorem cellsFit_of_reaches {base : Thread} {first c : Point} (hfits : Fits base first.view) (hc : ¬ first.Jumping)
    (hv : first.Vacant) (hr : Reaches inline first c) : CellsFit inline first c := by
  induction hr with
  | refl => exact .of_vacant hc hv
  | tail hr hs ih => exact ih.step (fits_of_reaches hfits hr) hr hs

/-! ## What is stored and what is taken -/

/-- Every fault that an instruction causes has a class of its own. -/
theorem Instruction.fault_ne_unknown {i : Instruction} {s : Signal} {f : Fault} (h : i.fault? = some (s, f)) :
    f ≠ .unknown := by
  have hsignal : ∀ code, Fault.ofSignal s code ≠ .unknown := by
    intro code
    cases s with
    | fpe =>
      unfold Fault.ofSignal
      dsimp only
      split <;> exact Fault.noConfusion
    | segv | ill | bus => exact Fault.noConfusion
  rcases Instruction.fault?_eq_some h with ⟨t, -, rfl, -⟩ | ⟨code, rfl, -⟩
  · cases t <;> decide
  · exact hsignal code

theorem Jump.ne_unknown {c₀ c : Point} {f : Fault} (h : Jump c₀ f c) : f ≠ .unknown := by
  obtain ⟨s, i, -, hi, -⟩ := h.faults
  exact Instruction.fault_ne_unknown hi

/-- Only jumps make a region land with a fault. -/
theorem jumping_of_landed {c : Point} {f : Fault} {exit : Exit} {fs : List Frame} {m : Machine World}
    (h : c.step inline = some ⟨.landed (.fault f) exit, fs, m⟩) : c.Jumping := by
  rcases c with ⟨s | flow | ⟨landing, exit'⟩, frames, m'⟩
  · cases s with
    | nest count => cases count <;> cases h
    | times count => cases count <;> cases h
    | _ => cases h
  · cases flow with
    | resuming point => exact ⟨point, rfl⟩
    | done | unwinding | ended =>
      cases frames with
      | nil => cases h
      | cons g frames => cases g <;> cases h
  · cases exit' with
    | handle | handleAndCleanUp =>
      simp only [Point.step, Exit.step] at h
      split at h <;> cases h
    | _ => cases h

/-- What a point of a run tells of the faults whose classes are stored and taken. -/
structure Point.KeepsFaults (c : Point) (inline : Bool) (first : Point) : Prop where
  /-- Where control does not jump, the cells of all threads are empty, also where an exception unwinds. -/
  vacant : ¬ c.Jumping → c.Vacant
  /-- Where it jumps, only the cell of the running thread holds one, which the fault has stored that began the jump. -/
  held : c.Jumping → (∀ t ∈ c.waiting, t.pending = none) ∧
    ∃ c₀ f, c.machine.thread.pending = some f ∧ Reaches inline first c₀ ∧ Reaches inline c₀ c ∧ Jump c₀ f c
  /-- A region that lands with a fault has taken it from the cell, where the fault that has led there has stored it. -/
  taken : ∀ f exit fs m, c.step inline = some ⟨.landed (.fault f) exit, fs, m⟩ →
    c.machine.thread.pending = some f ∧ m.thread.pending = none ∧ f ≠ .unknown ∧
      ∃ c₀, Reaches inline first c₀ ∧ Reaches inline c₀ c ∧ Jump c₀ f c
  /-- A fault that the thread lets through is stored at once, and the innermost region lands with it. -/
  delivered : ∀ s f point, c.Faults s f → c.machine.thread.current = some point →
    c.machine.thread.unwindingSinceEntry = false →
      c.step inline = some ⟨.back (.resuming point), c.frames, jumping c.machine f⟩ ∧
      ∃ before exit fs, innermost? c.frames = some (before, exit, fs) ∧
        Reaches inline c ⟨.landed (.fault f) exit, fs, landing before c.machine f⟩
  /-- A fatal fault stores nothing. -/
  fatal : ∀ s f, c.Faults s f → c.machine.thread.current = none ∨ c.machine.thread.unwindingSinceEntry = true →
    c.step inline = some ⟨.back (.ended (.killed s)), c.frames, c.machine⟩

theorem CellsFit.held {first c : Point} (h : CellsFit inline first c) (hj : c.Jumping) :
    (∀ t ∈ c.waiting, t.pending = none) ∧
    ∃ c₀ f, c.machine.thread.pending = some f ∧ Reaches inline first c₀ ∧ Reaches inline c₀ c ∧ Jump c₀ f c := by
  obtain ⟨c₀, f, hfirst, hway, hjump⟩ := h.jump hj
  exact ⟨hjump.waiting.2, c₀, f, hjump.pending, hfirst, hway, hjump⟩

theorem CellsFit.taken {base : Thread} {first c : Point} (h : CellsFit inline first c) (hfits : Fits base c.view)
    {f : Fault} {exit : Exit} {fs : List Frame} {m : Machine World}
    (hs : c.step inline = some ⟨.landed (.fault f) exit, fs, m⟩) :
    c.machine.thread.pending = some f ∧ m.thread.pending = none ∧ f ≠ .unknown ∧
      ∃ c₀, Reaches inline first c₀ ∧ Reaches inline c₀ c ∧ Jump c₀ f c := by
  obtain ⟨c₀, f', hfirst, hway, hjump⟩ := h.jump (jumping_of_landed hs)
  rcases hjump.step hfits hs with hnext | ⟨before, exit', fs', -, heq⟩
  · obtain ⟨point, -, hpoint⟩ := hnext.control
    cases hpoint
  · cases heq
    exact ⟨hjump.pending, rfl, hjump.ne_unknown, c₀, hfirst, hway, hjump⟩

theorem Point.Faults.delivered {c : Point} {s : Signal} {f : Fault} {point : ResumePoint} (h : c.Faults s f)
    (hst : Stacked .fresh c.marks c.machine.thread) (hcur : c.machine.thread.current = some point)
    (hu : c.machine.thread.unwindingSinceEntry = false) :
    c.step inline = some ⟨.back (.resuming point), c.frames, jumping c.machine f⟩ ∧
    ∃ before exit fs, innermost? c.frames = some (before, exit, fs) ∧
      Reaches inline c ⟨.landed (.fault f) exit, fs, landing before c.machine f⟩ := by
  have hregions : c.regions ≠ [] := by
    intro hnil
    have hnone := hst.current_eq
    rw [show regionsOf c.marks = [] from hnil, hcur] at hnone
    cases hnone
  obtain ⟨before, exit, fs, hi, hway⟩ := h.jumps inline hst hregions hu
  refine ⟨?_, before, exit, fs, hi, hway.tail (leaves_jumping before exit fs c.machine f)⟩
  rcases h.step inline with ⟨point', hcur', -, hstep⟩ | ⟨hno, -⟩
  · obtain rfl : point = point' := Option.some.inj (hcur.symm.trans hcur')
    exact hstep
  · rw [hcur, hu] at hno
    rcases hno with hno | hno <;> cases hno

theorem Point.Faults.fatal {c : Point} {s : Signal} {f : Fault} (h : c.Faults s f)
    (hno : c.machine.thread.current = none ∨ c.machine.thread.unwindingSinceEntry = true) :
    c.step inline = some ⟨.back (.ended (.killed s)), c.frames, c.machine⟩ := by
  rcases h.step inline with ⟨point, hcur, hu, -⟩ | ⟨-, hstep⟩
  · rw [hcur, hu] at hno
    rcases hno with hno | hno <;> cases hno
  · exact hstep

/-! ## Regions -/

/-- What a region takes, and what it leaves. -/
structure TakesFault (inline : Bool) (body : Statement) (m : Machine World) : Prop where
  /-- A landing with a fault reports what the cell held when the body was left. -/
  taken : ∀ f m', protect (body.run inline) m = (.done (.fault f), m') → f ≠ .unknown ∧
    ∃ point m₁, body.run inline m.enter = (.resuming point, m₁) ∧ m₁.thread.pending = some f
  /-- A region whose thread had no pending fault leaves none, whichever way it lands. -/
  vacant : m.thread.pending = none → ∀ landing m', protect (body.run inline) m = (.done landing, m') →
    m'.thread.pending = none

/-- A statement that is not left by a jump leaves an empty cell empty. -/
theorem pending_of_run {body : Statement} {m m₁ : Machine World} {flow : Flow Unit} (hv : m.thread.pending = none)
    (hrun : body.run inline m = (flow, m₁)) (hflow : ∀ point, flow ≠ .resuming point) : m₁.thread.pending = none := by
  have hr := reaches_run inline body [] m
  rw [hrun] at hr
  have hfit := cellsFit_of_reaches (fits_run body m) (fun hj => nomatch hj.choose_spec)
    (vacant_iff.2 ⟨hv, fun _ ht => nomatch ht⟩) hr
  have hcalm : ¬ (Point.after [] (flow, m₁)).Jumping := by
    rintro ⟨point, hpoint⟩
    exact hflow point (Control.back.inj hpoint)
  exact (vacant_iff.1 (hfit.vacant hcalm)).1

theorem takesFault (inline : Bool) (body : Statement) (m : Machine World) : TakesFault inline body m where
  taken := by
    intro f m' h
    rcases run_of_protect h with ⟨_, -, hl, -⟩ | ⟨_, _, -, hl, -⟩ | ⟨point, m₁, f', hrun, hpending, hl, -⟩ <;> cases hl
    obtain ⟨c, f', ⟨s, at', -, ⟨i, -, hi, -⟩, -⟩, hpending'⟩ := exists_fault_of_run hrun
    rw [hpending] at hpending'
    cases hpending'
    exact ⟨Instruction.fault_ne_unknown hi, point, m₁, hrun, hpending⟩
  vacant := by
    intro hv landing m' h
    rcases hrun : body.run inline m.enter with ⟨flow, m₁⟩
    rw [protect_of_run hrun] at h
    have henter : m.enter.thread.pending = none := hv
    cases flow with
    | done | unwinding =>
      have hleft : m₁.thread.pending = none := pending_of_run henter hrun (fun _ h => nomatch h)
      cases h
      exact hleft
    | resuming point =>
      -- The region has emptied the cell.
      unfold land at h
      dsimp only at h
      split at h <;> cases h
      rfl
    | ended => cases h

/--
**A pending fault is neither stale nor lost.** At every point of every run the cells for pending faults are empty, but
for that of a thread that jumps: it holds the class that the fault has stored with which the jump began, and the
region that lands takes it. A fatal fault and an exception leave nothing in a cell. So does every region, whatever its
body is, and what it reports is never a fault that has not been stored.
-/
theorem fault_neither_stale_nor_lost (inline : Bool) (program : Statement) (process : Process) (world : World) :
    (∀ c, Reaches inline (program.initial process world) c →
      c.KeepsFaults inline (program.initial process world)) ∧
    ∀ (body : Statement) (m : Machine World), TakesFault inline body m := by
  refine ⟨fun c hr => ?_, fun body m => takesFault inline body m⟩
  have hfirst : Fits .fresh (program.initial process world).view := fits_run program ⟨process, .fresh, world⟩
  have hfits := fits_of_reaches hfirst hr
  have hcells := cellsFit_of_reaches hfirst (fun hj => nomatch hj.choose_spec)
    (vacant_iff.2 ⟨rfl, fun _ ht => nomatch ht⟩) hr
  exact {
    vacant := hcells.vacant
    held := hcells.held
    taken := fun f exit fs m hs => hcells.taken hfits hs
    delivered := fun s f point hf hcur hu => hf.delivered (hfits.stacked_of_calm hf.calm) hcur hu
    fatal := fun s f hf hno => hf.fatal hno }

/-- While an exception unwinds, a destructor enters a region in which a division by zero is caught. -/
def faultInDestructor : Statement :=
  .protect (.withDestructor (.protect (.perform (.trap .division))) (.perform (.raise nothingRaised)))

/-- The machine on which the region in the destructor is entered. -/
def destructorStart : Machine World :=
  let m := start.enter
  { m with thread := (m.thread.record nothingRaised).beginUnwind }

/-- The point at which the division is about to take place. -/
def destructorFaultPoint : Point :=
  ⟨.run (.perform (.trap .division)),
    [.region destructorStart.thread .report, .dropping (.raised nothingRaised), .region start.thread .report],
    destructorStart.enter⟩

/-- The cell is empty while the exception unwinds, and the region in the destructor empties it again. -/
theorem fault_neither_stale_nor_lost_inDestructor :
    Reaches false (faultInDestructor.initial Process.start.init .empty) destructorFaultPoint ∧
    destructorFaultPoint.Vacant ∧ destructorFaultPoint.Faults .fpe .divideByZero ∧
    0 < destructorFaultPoint.machine.thread.unwinds ∧
    (∃ before exit fs, innermost? destructorFaultPoint.frames = some (before, exit, fs) ∧
      Reaches false destructorFaultPoint
        ⟨.landed (.fault .divideByZero) exit, fs, landing before destructorFaultPoint.machine .divideByZero⟩) ∧
    ∃ m', protect ((Statement.perform (.trap .division)).run false) destructorStart =
      (.done (.fault .divideByZero), m') ∧ m'.thread.pending = none := by
  have h := fault_neither_stale_nor_lost false faultInDestructor Process.start.init .empty
  have hreach : Reaches false (faultInDestructor.initial Process.start.init .empty) destructorFaultPoint :=
    .head rfl (.head rfl (.head rfl (.head rfl (.single rfl))))
  have hkeeps := h.1 _ hreach
  have hfaults : destructorFaultPoint.Faults .fpe .divideByZero := ⟨_, rfl, rfl, rfl⟩
  have hprotect : protect ((Statement.perform (.trap .division)).run false) destructorStart =
      (.done (.fault .divideByZero), _) := rfl
  refine ⟨hreach, hkeeps.vacant nofun, hfaults, by decide, ?_, _, hprotect, ?_⟩
  · exact (hkeeps.delivered .fpe .divideByZero _ hfaults rfl rfl).2
  · exact (h.2 (.perform (.trap .division)) destructorStart).vacant rfl _ _ hprotect

end ManagedRuntime.Program
