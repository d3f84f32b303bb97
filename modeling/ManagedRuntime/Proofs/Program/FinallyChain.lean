import Mathlib.Data.List.Basic
import ManagedRuntime.Proofs.Program.CatchFinally

/-!
# Chains of cleanups

Cleanups around a body are a nest of blocks. It runs like a loop: one part after the other, each in a region that was
entered before the body.

* `chain` : the nest; `play` : the loop, with the turns that the parts have taken;
* `run_eq_play` : the nest ends as the loop does;
* `lastFailure?` : the exception of the last part that has failed;
* `chain_plays` : each part has its turn once and in order, and what leaves the nest is the last failure. A fault of a
  part is a failure unless the thread has lost an unwind.
-/

namespace ManagedRuntime.Program

open Execution

set_option autoImplicit false

variable {inline : Bool}

/-! ## Nests and turns -/

/-- Cleanups around a body; the first one is the innermost. -/
def chain (body : Statement) (cleanups : List Statement) : Statement := cleanups.foldl .tryFinally body

/-- Cleanups around a body; the first one is the outermost. -/
def around (body : Statement) (cleanups : List Statement) : Statement :=
  cleanups.foldr (fun cleanup inner => .tryFinally inner cleanup) body

theorem chain_eq_around (body : Statement) (cleanups : List Statement) :
    chain body cleanups = around body cleanups.reverse := by
  rw [chain, around, List.foldr_reverse]

/-- A part of a nest, with the machine on which its turn begins. -/
structure Turn where
  part : Statement
  start : Machine World

/-- How a turn ends. -/
def Turn.result (inline : Bool) (t : Turn) : Flow Unit × Machine World := t.part.run inline t.start

/-- The exception with which a part has failed; a fault counts as its fixed exception. -/
def failure? : Flow Unit × Machine World → Option Exception
  | (.unwinding payload, _) => some payload.exception
  | (.resuming _, m) => some (.ofFault (m.thread.pending.getD .unknown))
  | (.done _, _) | (.ended _, _) => none

/-- The exception of the last part that has failed. -/
def lastFailure? (inline : Bool) (ts : List Turn) : Option Exception :=
  ts.reverse.findSome? fun t => failure? (t.result inline)

/-- After a turn, the last failure becomes the exception of the thread again. -/
def remember (last : Option Exception) (landing : Landing Unit) : Action World (Option Exception) := do
  let last := landing.exception?.or last
  Action.onThread fun t => t.record (last.getD t.exception)
  return last

/-- The end of a turn, with the last failure; the region that was entered on the thread `before` is left. -/
def endTurn (before : Thread) (last : Option Exception) (r : Flow Unit × Machine World) :
    Flow (Option Exception) × Machine World :=
  Action.proceed (remember last) (land before r)

/--
The turns of a nest, whose first cleanup is the outermost one, and the last failure. The region of a cleanup is
entered, what is inside of it has its turns, and then the cleanup has its own, unless the process has ended.
-/
def play (inline : Bool) (body : Statement) : (cleanups : List Statement) → Machine World →
    List Turn × (Flow (Option Exception) × Machine World)
  | [], m => ([⟨body, m.enter⟩], endTurn m.thread none (body.run inline m.enter))
  | cleanup :: inner, m =>
    match play inline body inner m.enter with
    | (ts, (.done last, m₁)) => (ts ++ [⟨cleanup, m₁⟩], endTurn m.thread last (cleanup.run inline m₁))
    | stopped => stopped

section Play

variable {body cleanup : Statement} {inner : List Statement} {m m₁ : Machine World}

theorem play_cons_of_done {last : Option Exception} (h : (play inline body inner m.enter).2 = (.done last, m₁)) :
    play inline body (cleanup :: inner) m = ((play inline body inner m.enter).1 ++ [⟨cleanup, m₁⟩],
      endTurn m.thread last (cleanup.run inline m₁)) := by
  rw [play]
  rcases hplay : play inline body inner m.enter with ⟨ts, r⟩
  rw [hplay] at h
  cases h
  rfl

theorem play_cons_of_ended {ending : Ending} (h : (play inline body inner m.enter).2 = (.ended ending, m₁)) :
    play inline body (cleanup :: inner) m = play inline body inner m.enter := by
  rw [play]
  rcases hplay : play inline body inner m.enter with ⟨ts, r⟩
  rw [hplay] at h
  cases h
  rfl

end Play

/-! ## The nest and the loop -/

/-- The exception of a landing, as an action. -/
def failureOf (landing : Landing Unit) : Action World (Option Exception) := pure landing.exception?

/-- What is raised again lands in the region around it, or the failure of the cleanup does. -/
theorem land_raiseAgain (before : Thread) (landing : Landing Unit) (r : Flow Unit × Machine World) :
    Action.proceed failureOf (land before (Action.proceed (fun _ => raiseAgain landing) r)) =
      endTurn before landing.exception? r := by
  rcases r with ⟨_ | payload | point | ending, m⟩
  · cases landing <;> rfl
  · rfl
  · by_cases h : point = before.nextPoint
    · simp only [Action.proceed, endTurn, land, if_pos h]
      rfl
    · simp only [Action.proceed, endTurn, land, if_neg h]
  · rfl

theorem protect_tryFinally (inline : Bool) (inner cleanup : Statement) (m : Machine World) :
    protect ((Statement.tryFinally inner cleanup).run inline) m = land m.thread
      (Action.proceed (finishing (cleanup.run inline)) (protect (inner.run inline) m.enter)) := rfl

/-- **A nest of cleanups ends as the loop does.** -/
theorem run_eq_play (body : Statement) (cleanups : List Statement) (m : Machine World) :
    Action.proceed failureOf (protect ((around body cleanups).run inline) m) = (play inline body cleanups m).2 := by
  induction cleanups generalizing m with
  | nil =>
    -- Before the body there is nothing to be raised again.
    have h := land_raiseAgain m.thread (.normal ()) (body.run inline m.enter)
    have hpure : Action.proceed (fun _ => raiseAgain (.normal ())) (body.run inline m.enter) =
        body.run inline m.enter := congrFun (Action.bind_pure (body.run inline)) m.enter
    rw [hpure] at h
    exact h
  | cons cleanup inner ih =>
    have hinner := ih m.enter
    rcases protect_ends inline (around body inner) m.enter with ⟨landing, m₁, hp⟩ | ⟨ending, m₁, hp⟩
    · rw [hp] at hinner
      rw [play_cons_of_done hinner.symm]
      change Action.proceed failureOf (protect ((Statement.tryFinally (around body inner) cleanup).run inline) m) = _
      rw [protect_tryFinally, hp]
      exact land_raiseAgain m.thread landing (cleanup.run inline m₁)
    · rw [hp] at hinner
      rw [play_cons_of_ended hinner.symm, ← hinner]
      change Action.proceed failureOf (protect ((Statement.tryFinally (around body inner) cleanup).run inline) m) = _
      rw [protect_tryFinally, hp]
      rfl

/-- The loop ends with a landing of the nest, or the process has ended in both. -/
theorem play_cases (inline : Bool) (body : Statement) (cleanups : List Statement) (m : Machine World) :
    (∃ landing m', protect ((around body cleanups).run inline) m = (.done landing, m') ∧
      (play inline body cleanups m).2 = (.done landing.exception?, m')) ∨
    ∃ ending m', protect ((around body cleanups).run inline) m = (.ended ending, m') ∧
      (play inline body cleanups m).2 = (.ended ending, m') := by
  rw [← run_eq_play]
  rcases protect_ends inline (around body cleanups) m with ⟨landing, m', hp⟩ | ⟨ending, m', hp⟩ <;> rw [hp]
  · exact .inl ⟨landing, m', rfl, rfl⟩
  · exact .inr ⟨ending, m', rfl, rfl⟩

/-! ## Turns -/

/-- A turn that leaves the process alive. -/
def Turn.Lives (inline : Bool) (t : Turn) : Prop := (Control.back (t.result inline).1).phase ≠ .ended

theorem lastFailure?_append (inline : Bool) (ts : List Turn) (t : Turn) :
    lastFailure? inline (ts ++ [t]) = (failure? (t.result inline)).or (lastFailure? inline ts) := by
  rw [lastFailure?, List.reverse_append, List.reverse_singleton, List.singleton_append, List.findSome?_cons]
  cases failure? (t.result inline) <;> rfl

/-- Where a turn ends with its region, the failure of its part counts before an older one. -/
theorem endTurn_done {before : Thread} {last last' : Option Exception} {r : Flow Unit × Machine World}
    {m' : Machine World} (h : endTurn before last r = (.done last', m')) :
    last' = (failure? r).or last ∧ m'.thread.exception = last'.getD r.2.thread.exception ∧
      (Control.back r.1).phase ≠ .ended := by
  rcases r with ⟨_ | payload | point | ending, m⟩
  · cases h
    exact ⟨rfl, rfl, Phase.noConfusion⟩
  · cases h
    exact ⟨rfl, rfl, Phase.noConfusion⟩
  · by_cases hpoint : point = before.nextPoint
    · simp only [endTurn, land, if_pos hpoint] at h
      cases h
      exact ⟨rfl, rfl, Phase.noConfusion⟩
    · simp only [endTurn, land, if_neg hpoint] at h
      cases h
  · cases h

theorem endTurn_ended {before : Thread} {last : Option Exception} {r : Flow Unit × Machine World} {ending : Ending}
    {m' : Machine World} (h : endTurn before last r = (.ended ending, m')) : r = (.ended ending, m') := by
  rcases r with ⟨_ | payload | point | ending, m⟩
  · cases h
  · cases h
  · by_cases hpoint : point = before.nextPoint
    · simp only [endTurn, land, if_pos hpoint] at h
      cases h
    · simp only [endTurn, land, if_neg hpoint] at h
      cases h
  · cases h
    rfl

/-- All parts have had their turns, and this is what they have left. -/
structure Complete (inline : Bool) (parts : List Statement) (ts : List Turn) (last : Option Exception)
    (m' : Machine World) : Prop where
  parts : ts.map Turn.part = parts
  failure : last = lastFailure? inline ts
  exception : ∀ t, ts.getLast? = some t → m'.thread.exception = last.getD (t.result inline).2.thread.exception
  lives : ∀ t ∈ ts, t.Lives inline

theorem complete_of_play {body : Statement} {cleanups : List Statement} {m m' : Machine World}
    {last : Option Exception} (h : (play inline body cleanups m).2 = (.done last, m')) :
    Complete inline (body :: cleanups.reverse) (play inline body cleanups m).1 last m' := by
  induction cleanups generalizing m m' last with
  | nil =>
    obtain ⟨hlast, hexception, hlives⟩ := endTurn_done h
    refine ⟨rfl, ?_, ?_, ?_⟩
    · rw [hlast]
      exact (lastFailure?_append inline [] ⟨body, m.enter⟩).symm
    · rintro t ht
      cases ht
      exact hexception
    · rintro t ht
      cases List.mem_singleton.1 ht
      exact hlives
  | cons cleanup inner ih =>
    rcases play_cases inline body inner m.enter with ⟨landing, m₁, -, hp⟩ | ⟨ending, m₁, -, hp⟩
    · -- The last turn is that of the cleanup, and its own failure counts before those of the inner nest.
      have hinner := ih hp
      rw [play_cons_of_done hp] at h ⊢
      obtain ⟨hlast, hexception, hlives⟩ := endTurn_done h
      refine ⟨?_, ?_, fun t ht => ?_, fun t ht => ?_⟩
      · rw [List.map_append, hinner.parts, List.reverse_cons]
        rfl
      · rw [hlast, lastFailure?_append, ← hinner.failure]
        rfl
      · rw [List.getLast?_concat] at ht
        cases ht
        exact hexception
      · rcases List.mem_append.1 ht with ht | ht
        · exact hinner.lives t ht
        · cases List.mem_singleton.1 ht
          exact hlives
    · rw [play_cons_of_ended hp, hp] at h
      cases h

/-- The turns of a nest in which the process has ended: the last of them has ended it. -/
structure Stopped (inline : Bool) (parts : List Statement) (ts : List Turn) (ending : Ending) (m' : Machine World) :
    Prop where
  parts : ts.map Turn.part <+: parts
  stop : ∃ older t, ts = older ++ [t] ∧ t.result inline = (.ended ending, m') ∧ ∀ t' ∈ older, t'.Lives inline

theorem stopped_of_play {body : Statement} {cleanups : List Statement} {m m' : Machine World} {ending : Ending}
    (h : (play inline body cleanups m).2 = (.ended ending, m')) :
    Stopped inline (body :: cleanups.reverse) (play inline body cleanups m).1 ending m' := by
  induction cleanups generalizing m m' with
  | nil => exact ⟨List.prefix_rfl, [], ⟨body, m.enter⟩, rfl, endTurn_ended h, fun _ ht => nomatch ht⟩
  | cons cleanup inner ih =>
    rcases play_cases inline body inner m.enter with ⟨landing, m₁, -, hp⟩ | ⟨ending', m₁, -, hp⟩
    · have hinner := complete_of_play hp
      rw [play_cons_of_done hp] at h ⊢
      refine ⟨?_, (play inline body inner m.enter).1, ⟨cleanup, m₁⟩, rfl, endTurn_ended h, hinner.lives⟩
      rw [List.map_append, hinner.parts, List.reverse_cons]
      exact List.prefix_rfl
    · rw [play_cons_of_ended hp] at h ⊢
      have hinner := ih h
      refine ⟨hinner.parts.trans ?_, hinner.stop⟩
      rw [List.reverse_cons]
      exact ⟨[cleanup], rfl⟩

/-! ## Faults -/

/-- A part begins inside a region, which was entered when the nest was. -/
theorem start_of_play {body : Statement} {cleanups : List Statement} {m : Machine World} {t : Turn}
    (ht : t ∈ (play inline body cleanups m).1) :
    t.start.thread.current.isSome ∧ t.start.thread.enteredUnwinding = m.thread.isUnwinding := by
  induction cleanups generalizing m with
  | nil =>
    cases List.mem_singleton.1 ht
    exact ⟨rfl, rfl⟩
  | cons cleanup inner ih =>
    rcases play_cases inline body inner m.enter with ⟨landing, m₁, hprotect, hp⟩ | ⟨ending, m₁, -, hp⟩
    · rw [play_cons_of_done hp] at ht
      rcases List.mem_append.1 ht with ht | ht
      · exact ih (m := m.enter) ht
      · cases List.mem_singleton.1 ht
        have hcells := sameCells_of_protect hprotect
        refine ⟨?_, hcells.enteredUnwinding⟩
        rw [hcells.current]
        rfl
    · rw [play_cons_of_ended hp] at ht
      exact ih (m := m.enter) ht

/-- A fault of a part is its failure, or kills the process if the thread unwinds and did not when the nest began. -/
structure FaultCounts (inline : Bool) (m : Machine World) (t : Turn) : Prop where
  failure : ∀ c s f, Reaches inline ⟨.run t.part, [], t.start⟩ c → c.Faults s f → Bare c.frames →
    (c.machine.thread.isUnwinding = true → m.thread.isUnwinding = true) →
    failure? (t.result inline) = some (.ofFault f)
  killed : ∀ c s f, Reaches inline ⟨.run t.part, [], t.start⟩ c → c.Faults s f → Bare c.frames →
    c.machine.thread.isUnwinding = true → m.thread.isUnwinding = false →
    ∃ m', t.result inline = (.ended (.killed s), m')

theorem faultCounts_of_start {m : Machine World} {t : Turn} (hcurrent : t.start.thread.current.isSome)
    (hflag : t.start.thread.enteredUnwinding = m.thread.isUnwinding) : FaultCounts inline m t := by
  -- No region was entered since the part began, so that its cells decide about the fault.
  have hcells : ∀ {c s f}, Reaches inline ⟨.run t.part, [], t.start⟩ c → c.Faults s f → Bare c.frames →
      SameCells t.start.thread c.machine.thread := fun hr hf hb =>
    ((fits_of_reaches (fits_run t.part t.start) hr).stacked_of_calm hf.calm).sameCells_of_bare hb
  refine ⟨fun c s f hr hf hb hu => ?_, fun c s f hr hf hb hu hm => ?_⟩
  · have hc := hcells hr hf hb
    obtain ⟨point, hpoint⟩ := Option.isSome_iff_exists.1 hcurrent
    have hentry : c.machine.thread.unwindingSinceEntry = false := by
      rw [Thread.unwindingSinceEntry, hc.enteredUnwinding, hflag]
      cases hcount : c.machine.thread.isUnwinding
      · rfl
      · rw [hu hcount]
        rfl
    obtain ⟨point', m', hrun, hpending⟩ := run_of_fault
      ⟨s, point, hr, hf, hc.current.trans hpoint, hentry, fun g hg => hb g hg point⟩
    rw [Turn.result, hrun, failure?, hpending]
    rfl
  · have hc := hcells hr hf hb
    have hentry : c.machine.thread.unwindingSinceEntry = true := by
      rw [Thread.unwindingSinceEntry, hc.enteredUnwinding, hflag, hu, hm]
      rfl
    rcases hf.step inline with ⟨point, -, hno, -⟩ | ⟨-, hstep⟩
    · rw [hentry] at hno
      cases hno
    · obtain ⟨m', hend⟩ := reaches_ended inline (.killed s) c.frames c.machine
      have heq := Reaches.final_unique rfl rfl (reaches_run inline t.part [] t.start) (hr.trans (.head hstep hend))
      refine ⟨m', ?_⟩
      rw [Turn.result]
      cases hrun : t.part.run inline t.start
      rw [hrun] at heq
      cases heq
      rfl

/-! ## Chains -/

/-- The turns of a nest of cleanups, the first of which is the innermost one. -/
def turns (inline : Bool) (body : Statement) (cleanups : List Statement) (m : Machine World) : List Turn :=
  (play inline body cleanups.reverse m).1

/-- What a nest of cleanups does with its parts. -/
structure ChainPlays (inline : Bool) (body : Statement) (cleanups : List Statement) (m : Machine World) : Prop where
  /-- The nest ends as the loop through its parts does. -/
  loop : Action.proceed failureOf (protect ((chain body cleanups).run inline) m) =
    (play inline body cleanups.reverse m).2
  /-- Every part has at most one turn, in this order. -/
  order : (turns inline body cleanups m).map Turn.part <+: body :: cleanups
  /-- If no part ends the process, all have had their turns, and what leaves the nest is the last failure. -/
  lands : (∀ t ∈ turns inline body cleanups m, t.Lives inline) →
    ∃ landing m', protect ((chain body cleanups).run inline) m = (.done landing, m') ∧
      Complete inline (body :: cleanups) (turns inline body cleanups m) landing.exception? m'
  ended : ∀ t ∈ turns inline body cleanups m, ∀ ending m', t.result inline = (.ended ending, m') →
    protect ((chain body cleanups).run inline) m = (.ended ending, m')
  faults : ∀ t ∈ turns inline body cleanups m, FaultCounts inline m t

theorem not_lives_of_ended {t : Turn} {ending : Ending} {m : Machine World} (h : t.result inline = (.ended ending, m)) :
    ¬ t.Lives inline := by
  intro hlives
  rw [Turn.Lives, h] at hlives
  exact hlives rfl

/--
**Chains of cleanups.** The body and the cleanups have their turns once and in order, and the exception that leaves
the nest is that of the last part that has failed, whatever later parts did to the exception of the thread; if none
has failed, the exception of the thread is what the last part has left.
-/
theorem chain_plays (inline : Bool) (body : Statement) (cleanups : List Statement) (m : Machine World) :
    ChainPlays inline body cleanups m := by
  have hloop : Action.proceed failureOf (protect ((chain body cleanups).run inline) m) =
      (play inline body cleanups.reverse m).2 := by
    rw [chain_eq_around]
    exact run_eq_play body cleanups.reverse m
  have hfaults : ∀ t ∈ turns inline body cleanups m, FaultCounts inline m t := fun t ht =>
    faultCounts_of_start (start_of_play ht).1 (start_of_play ht).2
  rcases play_cases inline body cleanups.reverse m with ⟨landing, m', hprotect, hp⟩ | ⟨ending, m', hprotect, hp⟩ <;>
    rw [← chain_eq_around] at hprotect
  · have hcomplete := complete_of_play hp
    rw [List.reverse_reverse] at hcomplete
    refine ⟨hloop, ?_, fun _ => ⟨landing, m', hprotect, hcomplete⟩, fun t ht ending m₁ h => ?_, hfaults⟩
    · exact hcomplete.parts ▸ List.prefix_rfl
    · exact absurd (hcomplete.lives t ht) (not_lives_of_ended h)
  · have hstopped := stopped_of_play hp
    rw [List.reverse_reverse] at hstopped
    obtain ⟨older, t, hts, hstop, holder⟩ := hstopped.stop
    refine ⟨hloop, hstopped.parts, fun hlives => ?_, fun t' ht' ending' m₁ h => ?_, hfaults⟩
    · have ht : t ∈ turns inline body cleanups m := by
        rw [turns, hts]
        exact List.mem_append_right older (List.mem_singleton_self t)
      exact absurd (hlives t ht) (not_lives_of_ended hstop)
    · rw [turns, hts] at ht'
      rcases List.mem_append.1 ht' with ht' | ht'
      · exact absurd (holder t' ht') (not_lives_of_ended h)
      · cases List.mem_singleton.1 ht'
        rw [hstop] at h
        cases h
        exact hprotect

/-- A cleanup that clears the exception of the thread does not change what leaves the nest. -/
example : lastFailure? false (turns false (.perform (.raise nothingRaised)) [.perform .clear, .perform .state] start) =
    some nothingRaised := rfl

/-- A cleanup that faults after the body has lost an unwind kills the process, and the next cleanup has no turn. -/
theorem chain_killed :
    ∃ m, runAlone (.protect (chain losingBody [.perform (.trap .division), .perform (.log (.name "last"))])) =
        (.ended (.killed .fpe), m) ∧
      m.world.events = [.protect (.fault .divideByZero)] :=
  ⟨_, rfl, rfl⟩

end ManagedRuntime.Program
