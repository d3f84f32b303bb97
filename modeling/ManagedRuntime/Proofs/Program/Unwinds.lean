import ManagedRuntime.Proofs.Program.RegionStack

/-!
# Unwinds in flight

A thread counts its unwinds and keeps one flag for each region. From these it decides whether a jump to the
innermost region is sound.

* `unwindsOf`, `unwindsInside`, `unwindsBefore` : the unwinds that wait for a destructor, and those of them that
  began inside the innermost region and before it;
* `Counted` : how the counts of a thread and of its regions stand to these numbers;
* `Point.Sound`, `Point.Balanced` : a fault is delivered exactly when that is sound, and no unwind is lost;
* `sound_unless_nested` : both hold until a fault strikes while an unwind is in flight inside a region that was
  itself entered during an unwind, and fail there.
-/

namespace ManagedRuntime.Program

open Execution

set_option autoImplicit false

variable {inline : Bool}

/-! ## Counting unwinds -/

/-- The unwinds of the running thread that wait for a destructor. -/
def unwindsOf : List Mark → Nat
  | [] => 0
  | .region _ :: ms => unwindsOf ms
  | .unwind :: ms => unwindsOf ms + 1
  | .parent _ :: _ => 0

/-- Those that began in the body of the innermost region. -/
def unwindsInside : List Mark → Nat
  | .unwind :: ms => unwindsInside ms + 1
  | _ => 0

/-- Those that were in flight when the innermost region was entered. -/
def unwindsBefore : List Mark → Nat
  | .region _ :: ms => unwindsOf ms
  | .unwind :: ms => unwindsBefore ms
  | _ => 0

/-- A count that is not less than a number, and is the number itself where it has to be exact. -/
def Fit (exact : Bool) (number count : Nat) : Prop := number ≤ count ∧ (exact = true → number = count)

theorem Fit.refl (exact : Bool) (n : Nat) : Fit exact n n := ⟨Nat.le_refl _, fun _ => rfl⟩

theorem Fit.trans {exact : Bool} {a b c : Nat} (h : Fit exact a b) (h' : Fit exact b c) : Fit exact a c :=
  ⟨Nat.le_trans h.1 h'.1, fun he => (h.2 he).trans (h'.2 he)⟩

theorem Fit.add {exact : Bool} {a b : Nat} (h : Fit exact a b) (k : Nat) : Fit exact (a + k) (b + k) :=
  ⟨Nat.add_le_add_right h.1 k, fun he => by rw [h.2 he]⟩

/-- The count of a thread fits the marks of its frames, and so do the counts with which its regions were entered. -/
def Counted (exact : Bool) : List Mark → Nat → Prop
  | [], n => Fit exact 0 n
  | .region b :: ms, n => Fit exact b.unwinds n ∧ Counted exact ms b.unwinds
  | .unwind :: ms, n => ∃ k, n = k + 1 ∧ Counted exact ms k
  | .parent p :: ms, n => Fit exact 0 n ∧ Counted exact ms p.unwinds

theorem Counted.mono {exact : Bool} {ms : List Mark} {n n' : Nat} (h : Counted exact ms n) (hn : Fit exact n n') :
    Counted exact ms n' := by
  induction ms generalizing n n' with
  | nil => exact Fit.trans h hn
  | cons mark ms ih =>
    cases mark with
    | region b => exact ⟨h.1.trans hn, h.2⟩
    | unwind =>
      obtain ⟨k, rfl, hk⟩ := h
      have hle : k + 1 ≤ n' := hn.1
      refine ⟨n' - 1, by omega, ih hk ⟨by omega, fun he => ?_⟩⟩
      have heq := hn.2 he
      omega
    | parent p => exact ⟨h.1.trans hn, h.2⟩

theorem Counted.total {exact : Bool} {ms : List Mark} {n : Nat} (h : Counted exact ms n) :
    Fit exact (unwindsOf ms) n := by
  induction ms generalizing n with
  | nil => exact h
  | cons mark ms ih =>
    cases mark with
    | region b => exact (ih h.2).trans h.1
    | unwind =>
      obtain ⟨k, rfl, hk⟩ := h
      exact (ih hk).add 1
    | parent p => exact h.1

/-- The count of a thread is that of its innermost region with the unwinds that began inside. -/
theorem Counted.inside {exact : Bool} {ms : List Mark} {n : Nat} {b : Thread} {bs : List Thread}
    (h : Counted exact ms n) (hb : regionsOf ms = b :: bs) :
    Fit exact (b.unwinds + unwindsInside ms) n ∧ Fit exact (unwindsBefore ms) b.unwinds := by
  induction ms generalizing n with
  | nil => cases hb
  | cons mark ms ih =>
    cases mark with
    | region b' =>
      cases hb
      exact ⟨h.1, h.2.total⟩
    | unwind =>
      obtain ⟨k, rfl, hk⟩ := h
      obtain ⟨hinside, hbefore⟩ := ih hk hb
      exact ⟨hinside.add 1, hbefore⟩
    | parent p => cases hb

/-! ## The counts along a run -/

/-- In a view, the unwind that is going on counts as well. -/
def Tallies (exact : Bool) (v : View) : Prop :=
  match v.phase with
  | .calm | .jumping _ => Counted exact v.marks v.thread.unwinds
  | .unwinding => Counted exact (.unwind :: v.marks) v.thread.unwinds
  | .ended => True

/-- A step keeps the counts, unless a jump skips an unwind where they have to be exact. -/
theorem Tallies.of_moves {exact : Bool} {v v' : View} (h : Tallies exact v) (hm : Moves v v')
    (hskip : exact = true → ∀ point, v.phase = .jumping point → unwindsInside v.marks = 0) : Tallies exact v' := by
  cases hm with
  | pass => exact h
  | stop => exact trivial
  | record => exact h
  | raise ms t e => exact ⟨t.unwinds, rfl, h⟩
  | fault => exact h
  | enter ms t => exact ⟨.refl _ _, h⟩
  | leave b ms t => exact h.2.mono h.1
  | catchUnwind b ms t e =>
    obtain ⟨k, hk, hfit, hb⟩ := h
    have hend : t.endUnwind.unwinds = k := Nat.sub_eq_of_eq_add hk
    change Counted exact ms t.endUnwind.unwinds
    rw [hend]
    exact hb.mono hfit
  | catchFault b ms t => exact h.2.mono h.1
  | jumpPast b ms t point hne => exact h.2.mono h.1
  | drop => exact h
  | dropped => exact h
  | skip ms t point =>
    obtain ⟨k, hk, hms⟩ := h
    cases exact with
    | false => exact hms.mono ⟨by rw [hk]; exact Nat.le_succ k, fun he => by cases he⟩
    | true => exact absurd (hskip rfl point rfl) (Nat.succ_ne_zero _)
  | exit ms t e =>
    obtain ⟨k, hk, hms⟩ := h
    have hend : t.endUnwind.unwinds = k := Nat.sub_eq_of_eq_add hk
    change Counted exact ms t.endUnwind.unwinds
    rw [hend]
    exact hms
  | spawn ms t => exact ⟨.refl _ _, h⟩
  | join ms p t phase hphase =>
    rcases hphase with rfl | rfl
    · exact h.2
    · obtain ⟨k, -, hk⟩ := h
      exact hk.2
  | lose ms p t point => exact h.2

/-- What jumps have lost is never made up for, but the counts are not less than they should be. -/
theorem tallies_of_reaches {c c' : Point} (h : Tallies false c.view) (hr : Reaches inline c c') :
    Tallies false c'.view := by
  induction hr with
  | refl => exact h
  | tail _ hs ih => exact ih.of_moves (moves_of_step hs) (fun he => by cases he)

/-! ## Faults -/

/-- The innermost region of the running thread: the thread on which it was entered, its exit, and its surroundings. -/
def innermost? : List Frame → Option (Thread × Exit × List Frame)
  | [] => none
  | .region before exit :: fs => some (before, exit, fs)
  | .parent _ :: _ => none
  | _ :: fs => innermost? fs

/-- An instruction is about to cause a fault on a signal that is intercepted. -/
def Point.Faults (c : Point) (s : Signal) (f : Fault) : Prop :=
  ∃ i, c.control = .run (.perform i) ∧ i.fault? = some (s, f) ∧ c.machine.process.disposition s = .intercept

/-- The innermost region lands with the fault. -/
def Point.Delivers (inline : Bool) (c : Point) (f : Fault) : Prop :=
  ∃ before exit fs m, innermost? c.frames = some (before, exit, fs) ∧
    Reaches inline c ⟨.landed (.fault f) exit, fs, m⟩

/-- The process is killed by the signal. -/
def Point.Dies (inline : Bool) (c : Point) (s : Signal) : Prop :=
  ∃ m, Reaches inline c ⟨.back (.ended (.killed s)), [], m⟩

theorem innermost?_eq_none {fs : List Frame} (h : innermost? fs = none) :
    regionsOf (fs.filterMap Frame.mark?) = [] := by
  induction fs with
  | nil => rfl
  | cons f fs ih =>
    cases f with
    | region before exit => cases h
    | parent p => rfl
    | next | watch | reraise | scope | dropping | main => exact ih h

theorem innermost?_eq_some {fs rest : List Frame} {before : Thread} {exit : Exit}
    (h : innermost? fs = some (before, exit, rest)) :
    regionsOf (fs.filterMap Frame.mark?) = before :: regionsOf (rest.filterMap Frame.mark?) := by
  induction fs with
  | nil => cases h
  | cons f fs ih =>
    cases f with
    | region before exit =>
      cases h
      rfl
    | parent p => cases h
    | next | watch | reraise | scope | dropping | main => exact ih h

/-- A jump passes every frame up to the innermost region. -/
theorem reaches_innermost (inline : Bool) {fs rest : List Frame} {before : Thread} {exit : Exit}
    (h : innermost? fs = some (before, exit, rest)) (point : ResumePoint) (m : Machine World) :
    Reaches inline ⟨.back (.resuming point), fs, m⟩ ⟨.back (.resuming point), .region before exit :: rest, m⟩ := by
  induction fs with
  | nil => cases h
  | cons f fs ih =>
    cases f with
    | region before exit =>
      cases h
      exact .refl
    | parent p => cases h
    | next | watch | reraise | scope | dropping | main => exact .head rfl (ih h)

/-- The machine on which a region lands with a fault. -/
def landing (before : Thread) (m : Machine World) (f : Fault) : Machine World :=
  { m with thread := (before.leave { m.thread with pending := none }).record (.ofFault f) }

theorem leaves_resuming (before : Thread) (exit : Exit) (fs : List Frame) (m : Machine World) :
    Point.step inline ⟨.back (.resuming before.nextPoint), .region before exit :: fs, m⟩ =
      some ⟨.landed (.fault (m.thread.pending.getD .unknown)) exit, fs,
        landing before m (m.thread.pending.getD .unknown)⟩ := by
  simp only [Point.step, Frame.resume, land, if_true, Point.leaving]
  rfl

/-- A jump to a region of the running thread lands there, with its fault. -/
theorem leaves_jumping (before : Thread) (exit : Exit) (fs : List Frame) (m : Machine World) (f : Fault) :
    Point.step inline ⟨.back (.resuming before.nextPoint), .region before exit :: fs, jumping m f⟩ =
      some ⟨.landed (.fault f) exit, fs, landing before m f⟩ :=
  leaves_resuming before exit fs (jumping m f)

/-- The end of the process passes every frame. -/
theorem reaches_ended (inline : Bool) (ending : Ending) (fs : List Frame) (m : Machine World) :
    ∃ m', Reaches inline ⟨.back (.ended ending), fs, m⟩ ⟨.back (.ended ending), [], m'⟩ := by
  induction fs generalizing m with
  | nil => exact ⟨m, .refl⟩
  | cons f fs ih =>
    cases f with
    | parent p =>
      obtain ⟨m', h⟩ := ih { p with process := m.process, world := m.world }
      exact ⟨m', .head rfl h⟩
    | next | watch | region | reraise | scope | dropping | main =>
      obtain ⟨m', h⟩ := ih m
      exact ⟨m', .head rfl h⟩

theorem Moves.ended {v v' : View} (hm : Moves v v') (h : v.phase = .ended) : v'.phase = .ended := by
  cases hm with
  | pass | stop => first | exact h | rfl
  | join ms p t phase hphase => rcases hphase with rfl | rfl <;> cases h
  | _ => cases h

theorem ended_of_reaches {c c' : Point} (h : c.control.phase = .ended) (hr : Reaches inline c c') :
    c'.control.phase = .ended := by
  induction hr with
  | refl => exact h
  | tail _ hs ih => exact (moves_of_step hs).ended ih

/-- The cells of the thread decide whether a fault jumps or kills. -/
theorem Point.Faults.step (inline : Bool) {c : Point} {s : Signal} {f : Fault} (h : c.Faults s f) :
    (∃ point, c.machine.thread.current = some point ∧ c.machine.thread.unwindingSinceEntry = false ∧
      c.step inline = some ⟨.back (.resuming point), c.frames, jumping c.machine f⟩) ∨
    ((c.machine.thread.current = none ∨ c.machine.thread.unwindingSinceEntry = true) ∧
      c.step inline = some ⟨.back (.ended (.killed s)), c.frames, c.machine⟩) := by
  obtain ⟨control, fs, m⟩ := c
  obtain ⟨i, rfl, hi, hd⟩ := h
  have hstep : Point.step inline ⟨.run (.perform i), fs, m⟩ = some (.after fs (intercept s f m)) :=
    congrArg (fun r => some (Point.after fs r)) (i.run_intercepted hi hd)
  rw [hstep]
  unfold intercept
  cases hc : m.thread.current with
  | none => exact .inr ⟨.inl rfl, rfl⟩
  | some point =>
    cases hu : m.thread.unwindingSinceEntry
    · exact .inl ⟨point, rfl, rfl, rfl⟩
    · exact .inr ⟨.inr rfl, rfl⟩

theorem QuietEnd.not_jumping {t : Thread} {fs : List Frame} {r : Flow Unit × Machine World} (h : QuietEnd t r)
    (point : ResumePoint) : (Point.after fs r).control.phase ≠ .jumping point := by
  rcases r with ⟨_ | _ | _ | _, m⟩
  · exact Phase.noConfusion
  · exact Phase.noConfusion
  · exact h.elim
  · exact Phase.noConfusion

/-- Apart from faults nothing makes control jump. -/
theorem faults_of_jump {c c' : Point} {point : ResumePoint} (hs : c.step inline = some c')
    (hc : c.control.phase = .calm) (hj : c'.control.phase = .jumping point) : ∃ s f, c.Faults s f := by
  obtain ⟨control, fs, m⟩ := c
  cases control with
  | run s =>
    cases hs
    cases s with
    | perform i =>
      rcases i.run_spec m with hq | ⟨s, f, _, hi, hd, -⟩
      · exact absurd hj (QuietEnd.not_jumping hq point)
      · exact ⟨s, f, i, rfl, hi, hd⟩
    | nest count => cases count <;> cases hj
    | times count => cases count <;> cases hj
    | _ => cases hj
  | landed landing exit =>
    cases hs
    cases exit with
    | handle | handleAndCleanUp =>
      simp only [Exit.step] at hj
      split at hj <;> cases hj
    | _ => cases hj
  | back flow =>
    cases flow with
    | done =>
      cases fs with
      | nil => cases hs
      | cons f fs =>
        cases hs
        cases f with
        | reraise landing =>
          exact absurd hj (QuietEnd.not_jumping (modest_raiseAgain landing m).quiet point)
        | parent p => cases inline <;> cases hj
        | _ => cases hj
    | _ => cases hc

/-! ## Delivery -/

theorem Stacked.current_eq {ms : List Mark} {t : Thread} (h : Stacked .fresh ms t) :
    t.current = (regionsOf ms).head?.map Thread.nextPoint := by
  have hchain := h.chain
  cases hb : regionsOf ms with
  | nil =>
    rw [hb] at hchain
    exact (List.cons.inj hchain).1
  | cons b bs =>
    rw [hb] at hchain
    exact (List.cons.inj hchain).1

/-- A fault that the cells of the thread let through jumps to the innermost region. -/
theorem Point.Faults.jumps (inline : Bool) {c : Point} {s : Signal} {f : Fault} (h : c.Faults s f)
    (hs : Stacked .fresh c.marks c.machine.thread) (hr : c.regions ≠ [])
    (hu : c.machine.thread.unwindingSinceEntry = false) :
    ∃ before exit fs, innermost? c.frames = some (before, exit, fs) ∧
      Reaches inline c ⟨.back (.resuming before.nextPoint), .region before exit :: fs, jumping c.machine f⟩ := by
  have hcur := hs.current_eq
  cases hi : innermost? c.frames with
  | none => exact absurd (innermost?_eq_none hi) hr
  | some region =>
    obtain ⟨before, exit, fs⟩ := region
    rw [Point.marks, innermost?_eq_some hi] at hcur
    change c.machine.thread.current = some before.nextPoint at hcur
    refine ⟨before, exit, fs, rfl, ?_⟩
    rcases h.step inline with ⟨point, hc, -, hstep⟩ | ⟨hno, -⟩
    · obtain rfl : point = before.nextPoint := Option.some.inj (hc.symm.trans hcur)
      exact .head hstep (reaches_innermost inline hi _ _)
    · rw [hcur, hu] at hno
      rcases hno with hno | hno <;> cases hno

/-- A fault is delivered where there is a region and the thread does not count as unwinding since its entry. -/
theorem Point.Faults.delivers_iff (inline : Bool) {c : Point} {s : Signal} {f : Fault} (h : c.Faults s f)
    (hs : Stacked .fresh c.marks c.machine.thread) :
    (c.Delivers inline f ↔ c.regions ≠ [] ∧ c.machine.thread.unwindingSinceEntry = false) ∧
      (¬ c.Delivers inline f → c.Dies inline s) := by
  have hdelivers : c.regions ≠ [] ∧ c.machine.thread.unwindingSinceEntry = false → c.Delivers inline f := by
    rintro ⟨hr, hu⟩
    obtain ⟨before, exit, fs, hi, hjump⟩ := h.jumps inline hs hr hu
    exact ⟨before, exit, fs, _, hi, hjump.tail (leaves_jumping before exit fs c.machine f)⟩
  rcases h.step inline with ⟨point, hc, hu, -⟩ | ⟨hno, hstep⟩
  · have hr : c.regions ≠ [] := by
      intro hnil
      have hcur := hs.current_eq
      rw [show regionsOf c.marks = [] from hnil, hc] at hcur
      cases hcur
    exact ⟨⟨fun _ => ⟨hr, hu⟩, hdelivers⟩, fun hnd => absurd (hdelivers ⟨hr, hu⟩) hnd⟩
  · have hnd : ¬ c.Delivers inline f := by
      rintro ⟨before, exit, fs, m, -, hr⟩
      rcases hr.of_step hstep with rfl | hr
      · obtain ⟨i, hi, -⟩ := h
        cases hi
      · exact Phase.noConfusion (ended_of_reaches rfl hr)
    refine ⟨⟨fun hd => absurd hd hnd, hdelivers⟩, fun _ => ?_⟩
    obtain ⟨m', hr⟩ := reaches_ended inline (.killed s) c.frames c.machine
    exact ⟨m', .head hstep hr⟩

/-! ## Sound delivery -/

/--
A fault on an intercepted signal goes to the innermost region exactly when there is one and no unwind that began
in its body is in flight; otherwise the process dies.
-/
def Point.Sound (inline : Bool) (c : Point) : Prop :=
  ∀ s f, c.Faults s f →
    (c.Delivers inline f ↔ c.regions ≠ [] ∧ unwindsInside c.marks = 0) ∧ (¬ c.Delivers inline f → c.Dies inline s)

/-- The unwinds of the thread that are in flight. -/
def Point.inFlight (c : Point) : Nat :=
  match c.control.phase with
  | .unwinding => unwindsOf c.marks + 1
  | _ => unwindsOf c.marks

/-- The thread counts the unwinds in flight, and as many of them when a region has been left as when it was entered. -/
structure Point.Balanced (inline : Bool) (c : Point) : Prop where
  counts : c.control.phase ≠ .ended → c.machine.thread.unwinds = c.inFlight
  returns : ∀ flow before exit fs, c.control = .back flow → c.frames = .region before exit :: fs →
    c.control.phase ≠ .ended → ∃ landing m', c.step inline = some ⟨.landed landing exit, fs, m'⟩ ∧
      m'.thread.unwinds = before.unwinds

/--
A fault strikes while an unwind that began in the innermost region is in flight, and the region itself was
entered during another one.
-/
def Point.Nested (c : Point) : Prop :=
  (∃ s f, c.Faults s f) ∧ 0 < unwindsInside c.marks ∧ 0 < unwindsBefore c.marks

/-- What holds as long as no fault has been nested. -/
structure Clean (v : View) : Prop where
  fits : Fits .fresh v
  tallies : Tallies true v
  jump : ∀ point, v.phase = .jumping point → unwindsInside v.marks = 0

/-- A jump goes on, or begins with a fault that the cells of the thread let through. -/
theorem Moves.jumping {v v' : View} {point : ResumePoint} (hm : Moves v v') (hf : Fits .fresh v)
    (hj : v'.phase = .jumping point) :
    (v.phase = .jumping point ∧ (unwindsInside v.marks = 0 → unwindsInside v'.marks = 0)) ∨
    (v.phase = .calm ∧ v'.marks = v.marks ∧ v.thread.unwindingSinceEntry = false ∧
      v.thread.current = some point) := by
  cases hm with
  | pass => exact .inl ⟨hj, id⟩
  | fault ms t point f hc hu =>
    cases hj
    exact .inr ⟨rfl, rfl, hu, hc⟩
  | jumpPast b ms t point hne =>
    have hcur := hf.jump point rfl
    rw [(hf.stacked Phase.noConfusion).1] at hcur
    exact absurd (Option.some.inj hcur).symm hne
  | skip => exact .inl ⟨hj, fun h => absurd h (Nat.succ_ne_zero _)⟩
  | lose ms p t point =>
    have hcur := hf.jump point rfl
    rw [(hf.stacked Phase.noConfusion).1.current] at hcur
    cases hcur
  | _ => cases hj

theorem regionsOf_of_before {ms : List Mark} (h : 0 < unwindsBefore ms) : regionsOf ms ≠ [] := by
  induction ms with
  | nil => exact absurd h (Nat.lt_irrefl 0)
  | cons mark ms ih =>
    cases mark with
    | region b => exact List.cons_ne_nil _ _
    | unwind => exact ih h
    | parent p => exact absurd h (Nat.lt_irrefl 0)

/-- A region that was entered during an unwind lets every fault through. -/
theorem letsThrough_of_before {exact : Bool} {ms : List Mark} {t : Thread} (hs : Stacked .fresh ms t)
    (hc : Counted exact ms t.unwinds) (h : 0 < unwindsBefore ms) : t.unwindingSinceEntry = false := by
  have hflag := hs.enteredUnwinding
  cases hb : regionsOf ms with
  | nil => exact absurd hb (regionsOf_of_before h)
  | cons b bs =>
    rw [hb] at hflag
    have hle : unwindsBefore ms ≤ b.unwinds := (hc.inside hb).2.1
    have hb' : b.isUnwinding = true := decide_eq_true (by omega)
    change t.enteredUnwinding = b.isUnwinding at hflag
    simp only [Thread.unwindingSinceEntry, hflag, hb', Bool.not_true, Bool.and_false]

/-- With exact counts, a region lets a fault through where no unwind began inside, or one before. -/
theorem letsThrough_iff {ms : List Mark} {t : Thread} (hs : Stacked .fresh ms t) (hc : Counted true ms t.unwinds)
    (hr : regionsOf ms ≠ []) :
    t.unwindingSinceEntry = false ↔ unwindsInside ms = 0 ∨ 0 < unwindsBefore ms := by
  have hflag := hs.enteredUnwinding
  cases hb : regionsOf ms with
  | nil => exact absurd hb hr
  | cons b bs =>
    rw [hb] at hflag
    change t.enteredUnwinding = b.isUnwinding at hflag
    obtain ⟨hinside, hbefore⟩ := hc.inside hb
    have hn : b.unwinds + unwindsInside ms = t.unwinds := hinside.2 rfl
    have hm : unwindsBefore ms = b.unwinds := hbefore.2 rfl
    simp only [Thread.unwindingSinceEntry, hflag, Thread.isUnwinding, Bool.and_eq_false_iff,
      Bool.not_eq_false', decide_eq_false_iff_not, decide_eq_true_eq]
    omega

/-- A step from a point where no nested fault strikes keeps the counts exact. -/
theorem clean_of_step {c c' : Point} (h : Clean c.view) (hn : ¬ c.Nested) (hs : c.step inline = some c') :
    Clean c'.view := by
  have hm := moves_of_step hs
  refine ⟨h.fits.of_moves hm, h.tallies.of_moves hm fun _ => h.jump, fun point hj => ?_⟩
  rcases hm.jumping h.fits hj with ⟨hp, hkeep⟩ | ⟨hp, hmarks, hu, hc⟩
  · exact hkeep (h.jump point hp)
  · -- The jump begins here, with a fault.
    have hst := h.fits.stacked (by rw [hp]; exact Phase.noConfusion)
    have hcounted : Counted true c.marks c.machine.thread.unwinds := by
      have ht := h.tallies
      unfold Tallies at ht
      rw [hp] at ht
      exact ht
    have hregions : regionsOf c.marks ≠ [] := by
      intro hnil
      have hcur := hst.current_eq
      rw [show regionsOf c.view.marks = [] from hnil, hc] at hcur
      cases hcur
    have hfault := faults_of_jump hs hp hj
    rw [hmarks]
    rcases (letsThrough_iff hst hcounted hregions).1 hu with hzero | hbefore
    · exact hzero
    · by_contra hne
      exact hn ⟨hfault, Nat.pos_of_ne_zero hne, hbefore⟩

/-- No nested fault has struck on the way from one point to another one. -/
def Unspoilt (inline : Bool) (first c : Point) : Prop :=
  ∀ d, Reaches inline first d → Reaches inline d c → ¬ d.Nested

theorem clean_of_reaches {first c : Point} (h : Clean first.view) (hr : Reaches inline first c)
    (hn : Unspoilt inline first c) : Clean c.view := by
  induction hr with
  | refl => exact h
  | tail hb hs ih =>
    have hclean := ih fun d hd hdb => hn d hd (hdb.tail hs)
    exact clean_of_step hclean (hn _ hb (.single hs)) hs

theorem Point.Faults.calm {c : Point} {s : Signal} {f : Fault} (h : c.Faults s f) : c.control.phase = .calm := by
  obtain ⟨i, hi, -⟩ := h
  rw [hi]
  rfl

theorem Fits.stacked_of_calm {base : Thread} {c : Point} (h : Fits base c.view) (hc : c.control.phase = .calm) :
    Stacked base c.marks c.machine.thread :=
  h.stacked (by rw [show c.view.phase = .calm from hc]; exact Phase.noConfusion)

theorem Tallies.of_calm {exact : Bool} {c : Point} (h : Tallies exact c.view) (hc : c.control.phase = .calm) :
    Counted exact c.marks c.machine.thread.unwinds := by
  have ht : Tallies exact ⟨c.control.phase, c.marks, c.machine.thread⟩ := h
  rw [hc] at ht
  exact ht

theorem Clean.sound {c : Point} (h : Clean c.view) (hn : ¬ c.Nested) : c.Sound inline := by
  intro s f hf
  have hst := h.fits.stacked_of_calm hf.calm
  obtain ⟨hiff, hdies⟩ := hf.delivers_iff inline hst
  refine ⟨hiff.trans (and_congr_right fun hr => ?_), hdies⟩
  rw [letsThrough_iff hst (h.tallies.of_calm hf.calm) hr]
  refine ⟨fun hor => ?_, .inl⟩
  rcases hor with hzero | hbefore
  · exact hzero
  · by_contra hne
    exact hn ⟨⟨s, f, hf⟩, Nat.pos_of_ne_zero hne, hbefore⟩

theorem Clean.counts {c : Point} (h : Clean c.view) (hc : c.control.phase ≠ .ended) :
    c.machine.thread.unwinds = c.inFlight := by
  have ht : Tallies true ⟨c.control.phase, c.marks, c.machine.thread⟩ := h.tallies
  unfold Point.inFlight
  cases hp : c.control.phase with
  | calm | jumping point =>
    rw [hp] at ht
    exact ((Counted.total ht).2 rfl).symm
  | unwinding =>
    rw [hp] at ht
    exact ((Counted.total ht).2 rfl).symm
  | ended => exact absurd hp hc

/-- Whichever way a body ends, its region is left with the unwinds that were in flight before it. -/
theorem Clean.returns {flow : Flow Unit} {before : Thread} {exit : Exit} {fs : List Frame} {m : Machine World}
    (h : Clean (Point.view ⟨.back flow, .region before exit :: fs, m⟩)) (hc : (Control.back flow).phase ≠ .ended) :
    ∃ landing m', Point.step inline ⟨.back flow, .region before exit :: fs, m⟩ =
      some ⟨.landed landing exit, fs, m'⟩ ∧ m'.thread.unwinds = before.unwinds := by
  have ht := h.tallies
  cases flow with
  | done =>
    have hfit : Fit true before.unwinds m.thread.unwinds := ht.1
    exact ⟨_, _, rfl, (hfit.2 rfl).symm⟩
  | unwinding payload =>
    obtain ⟨k, hk, hfit, -⟩ := ht
    have hend : m.thread.endUnwind.unwinds = k := Nat.sub_eq_of_eq_add hk
    exact ⟨_, _, rfl, hend.trans (hfit.2 rfl).symm⟩
  | resuming point =>
    have hfit : Fit true before.unwinds m.thread.unwinds := ht.1
    have hcur := (h.fits.jump point rfl).symm.trans (h.fits.stacked hc).1
    obtain rfl : point = before.nextPoint := Option.some.inj hcur
    exact ⟨_, _, leaves_resuming before exit fs m, (hfit.2 rfl).symm⟩
  | ended ending => exact absurd rfl hc

theorem Clean.balanced {c : Point} (h : Clean c.view) : c.Balanced inline := by
  refine ⟨h.counts, ?_⟩
  rintro flow before exit fs hflow hfs hc
  obtain ⟨control, frames, m⟩ := c
  cases hflow
  cases hfs
  exact h.returns hc

theorem Point.Nested.not_sound {c : Point} (h : c.Nested) (hs : Stacked .fresh c.marks c.machine.thread)
    (hc : Tallies false c.view) : ¬ c.Sound inline := by
  obtain ⟨⟨s, f, hf⟩, hinside, hbefore⟩ := h
  intro hsound
  have hu := letsThrough_of_before hs (hc.of_calm hf.calm) hbefore
  have hd := (hf.delivers_iff inline hs).1.2 ⟨regionsOf_of_before hbefore, hu⟩
  have hzero := ((hsound s f hf).1.1 hd).2
  omega

/-- The region at which a nested fault lands keeps the unwinds that the jump has skipped. -/
theorem Point.Nested.unbalances {c : Point} (h : c.Nested) (hs : Stacked .fresh c.marks c.machine.thread)
    (hc : Tallies false c.view) : ∃ d, Reaches inline c d ∧ ¬ d.Balanced inline := by
  obtain ⟨⟨s, f, hf⟩, hinside, hbefore⟩ := h
  have hcounted := hc.of_calm hf.calm
  have hr := regionsOf_of_before hbefore
  obtain ⟨before, exit, fs, hi, hjump⟩ := hf.jumps inline hs hr (letsThrough_of_before hs hcounted hbefore)
  refine ⟨_, hjump, fun hb => ?_⟩
  obtain ⟨l, m', hstep, heq⟩ := hb.returns _ before exit fs rfl rfl Phase.noConfusion
  rw [leaves_jumping] at hstep
  cases hstep
  have hfit := (hcounted.inside (innermost?_eq_some hi)).1.1
  change c.machine.thread.unwinds = before.unwinds at heq
  change before.unwinds + unwindsInside c.marks ≤ _ at hfit
  omega

theorem clean_initial (program : Statement) (process : Process) (world : World) :
    Clean (program.initial process world).view :=
  ⟨fits_run program ⟨process, .fresh, world⟩, Fit.refl true 0, fun _ hp => by cases hp⟩

/--
**Sound delivery of faults.** As long as no nested fault strikes, every fault is delivered exactly when that is
sound, and no unwind is lost; a nested fault is delivered although it should kill the process, and the region at
which it lands loses unwinds.
-/
theorem sound_unless_nested (inline : Bool) (program : Statement) (process : Process) (world : World) (c : Point)
    (hr : Reaches inline (program.initial process world) c) :
    (Unspoilt inline (program.initial process world) c → c.Sound inline ∧ c.Balanced inline) ∧
    (c.Nested → ¬ c.Sound inline ∧ ∃ d, Reaches inline c d ∧ ¬ d.Balanced inline) := by
  have hinitial := clean_initial program process world
  refine ⟨fun hn => ?_, fun hn => ?_⟩
  · have hclean := clean_of_reaches hinitial hr hn
    exact ⟨hclean.sound (hn c hr .refl), hclean.balanced⟩
  · have hfits := fits_of_reaches hinitial.fits hr
    obtain ⟨s, f, hf⟩ := hn.1
    have hst := hfits.stacked_of_calm hf.calm
    have hstart : Tallies false (program.initial process world).view := Fit.refl false 0
    have htallies := tallies_of_reaches hstart hr
    exact ⟨hn.not_sound hst htallies, hn.unbalances hst htallies⟩

/-! ## A nested fault -/

/-- A region in the destructor of a scope that unwinds; there another unwind begins and a destructor divides by zero. -/
def nestedFault : Statement :=
  .protect (.withDestructor
    (.protect (.withDestructor (.perform (.trap .division)) (.perform (.raise nothingRaised))))
    (.perform (.raise nothingRaised)))

/-- The point at which the division is about to take place. -/
def nestedFaultPoint : Point :=
  let outer := start.enter
  let inner : Machine World := { outer with thread := (outer.thread.record nothingRaised).beginUnwind }
  ⟨.run (.perform (.trap .division)),
    [.dropping (.raised nothingRaised), .region inner.thread .report, .dropping (.raised nothingRaised),
      .region start.thread .report],
    { inner.enter with thread := (inner.enter.thread.record nothingRaised).beginUnwind }⟩

theorem reaches_nestedFaultPoint :
    Reaches false (nestedFault.initial Process.start.init .empty) nestedFaultPoint := by
  refine .head rfl (.head rfl (.head rfl (.head rfl (.head rfl (.head rfl (.head rfl (.single ?_)))))))
  rfl

/-- The division in a region on its own. -/
def regionFaultPoint : Point := ⟨.run (.perform (.trap .division)), [.region start.thread .report], start.enter⟩

theorem reaches_regionFaultPoint :
    Reaches false ((Statement.protect (.perform (.trap .division))).initial Process.start.init .empty)
      regionFaultPoint :=
  .single rfl

/-- No unwind begins in the run of this program. -/
theorem unspoilt_regionFaultPoint :
    Unspoilt false ((Statement.protect (.perform (.trap .division))).initial Process.start.init .empty)
      regionFaultPoint := by
  intro d hd _ hn
  have hinside : unwindsInside d.marks = 0 := by
    rcases hd.of_step rfl with rfl | hd
    · rfl
    rcases hd.of_step rfl with rfl | hd
    · rfl
    rcases hd.of_step rfl with rfl | hd
    · rfl
    rcases hd.of_step rfl with rfl | hd
    · rfl
    rw [hd.of_final rfl]
    rfl
  exact absurd hn.2.1 (by omega)

/-- The fault of the region on its own is delivered soundly, and the nested one is not. -/
theorem sound_unless_nested_division :
    regionFaultPoint.Delivers false Trap.division.fault ∧ ¬ nestedFaultPoint.Sound false := by
  refine ⟨?_, ?_⟩
  · have h := (sound_unless_nested false _ _ _ regionFaultPoint reaches_regionFaultPoint).1 unspoilt_regionFaultPoint
    exact (h.1 .fpe Trap.division.fault ⟨_, rfl, rfl, rfl⟩).1.2 ⟨List.cons_ne_nil _ _, rfl⟩
  · have h := (sound_unless_nested false _ _ _ nestedFaultPoint reaches_nestedFaultPoint).2
    exact (h ⟨⟨.fpe, Trap.division.fault, _, rfl, rfl, rfl⟩, by decide, by decide⟩).1

/--
The region catches the fault in the middle of its unwind. Both regions land, nothing unwinds any more, and the thread
goes on counting an unwind.
-/
theorem delivered_during_unwind :
    (∃ c, Reaches false (nestedFault.initial Process.start.init .empty) c ∧ c.Faults .fpe Trap.division.fault ∧
      0 < unwindsInside c.marks ∧ c.Delivers false Trap.division.fault) ∧
    ∃ m, runAlone nestedFault = (.done (), m) ∧ m.thread.depth = 0 ∧ m.thread.unwinds = 1 := by
  refine ⟨⟨nestedFaultPoint, reaches_nestedFaultPoint, ⟨_, rfl, rfl, rfl⟩, by decide, ?_⟩, _, rfl, rfl, rfl⟩
  exact ⟨_, _, _, _, rfl, .head rfl (.head rfl (.single rfl))⟩

end ManagedRuntime.Program
