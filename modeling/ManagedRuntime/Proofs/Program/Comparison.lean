import ManagedRuntime.Proofs.Program.RegionStack

/-!
# Runs that look alike

Two runs are compared by what a program can observe of them.

* `Comparison` : what matters about an event, and whether depths matter;
* `Alike` : machines on which a program observes the same; `Akin` : the same, apart from the innermost region;
* `Ends` : ends that look alike, where a fault may stand against the raise of its exception;
* `Ends.lands` : regions whose bodies end alike land alike;
* `Instruction.matches_self` : an instruction ends alike on machines that look alike.
-/

namespace ManagedRuntime.Program

open Execution

set_option autoImplicit false

/-! ## Events -/

mutual

/-- Change an event that is none of a thread; the events of threads are changed one by one. -/
def Event.through (f : Event → Event) : Event → Event
  | .thread events escaped => .thread (Event.throughAll f events) escaped
  | e => f e

def Event.throughAll (f : Event → Event) : List Event → List Event
  | [] => []
  | e :: events => e.through f :: Event.throughAll f events

end

theorem Event.throughAll_eq_map (f : Event → Event) (events : List Event) :
    Event.throughAll f events = events.map (Event.through f) := by
  induction events with
  | nil => rfl
  | cons e events ih => rw [Event.throughAll, ih, List.map_cons]

/-- What two runs are compared by. -/
structure Comparison where
  /-- What matters about an event. -/
  look : Event → Event
  /-- Whether the number of active regions matters. -/
  deep : Bool
  thread : ∀ events events' escaped, events.map look = events'.map look →
    look (.thread events escaped) = look (.thread events' escaped)

/-- A comparison that does not look at events of threads as a whole. -/
def Comparison.through (f : Event → Event) (deep : Bool) : Comparison where
  look := Event.through f
  deep := deep
  thread events events' escaped h := by
    rw [Event.through, Event.through, Event.throughAll_eq_map, Event.throughAll_eq_map, h]

/-- All of an event matters, but no depths of threads. -/
def Comparison.exact : Comparison where
  look := id
  deep := false
  thread events events' escaped h := by
    rw [List.map_id, List.map_id] at h
    rw [h]

/-- Where depths do not matter, nor do those that events report. -/
def Comparison.ReportsState (k : Comparison) : Prop :=
  ∀ e d d', (k.deep = true → d = d') → k.look (.state ⟨e, d⟩) = k.look (.state ⟨e, d'⟩)

/-! ## Machines -/

variable {k : Comparison}

/-- The same between regions, as far as a program can tell. -/
structure CellsAlike (deep : Bool) (t t' : Thread) : Prop where
  current : t.current.isSome = t'.current.isSome
  depth : deep = true → t.depth = t'.depth
  enteredUnwinding : t.enteredUnwinding = t'.enteredUnwinding

/-- The same of a program itself. -/
structure WorldsAlike (look : Event → Event) (w w' : World) : Prop where
  counter : w.counter = w'.counter
  arrays : w.arrays = w'.arrays
  texts : w.texts = w'.texts
  events : w.events.map look = w'.events.map look

/-- Machines with which a program goes on in the same way once their regions are the same. -/
structure Akin (k : Comparison) (m m' : Machine World) : Prop where
  process : m.process = m'.process
  exception : m.thread.exception = m'.thread.exception
  unwinds : m.thread.unwinds = m'.thread.unwinds
  world : WorldsAlike k.look m.world m'.world

/-- Machines on which a program observes the same. -/
structure Alike (k : Comparison) (m m' : Machine World) : Prop extends Akin k m m' where
  cells : CellsAlike k.deep m.thread m'.thread

theorem WorldsAlike.refl (look : Event → Event) (w : World) : WorldsAlike look w w := ⟨rfl, rfl, rfl, rfl⟩

theorem WorldsAlike.emit {look : Event → Event} {w w' : World} {e e' : Event} (h : WorldsAlike look w w')
    (he : look e = look e') :
    WorldsAlike look { w with events := w.events ++ [e] } { w' with events := w'.events ++ [e'] } := by
  refine ⟨h.counter, h.arrays, h.texts, ?_⟩
  simp only [List.map_append, List.map_cons, List.map_nil, h.events, he]

theorem CellsAlike.refl (deep : Bool) (t : Thread) : CellsAlike deep t t := ⟨rfl, fun _ => rfl, rfl⟩

/-- Where depths do not matter. -/
theorem CellsAlike.of_not_deep {t t' : Thread} (hk : k.deep = false) (hcurrent : t.current.isSome = t'.current.isSome)
    (hflag : t.enteredUnwinding = t'.enteredUnwinding) : CellsAlike k.deep t t' := by
  refine ⟨hcurrent, fun hd => ?_, hflag⟩
  rw [hk] at hd
  cases hd

theorem CellsAlike.of_sameCells {deep : Bool} {b b' t t' : Thread} (h : CellsAlike deep b b') (ht : SameCells b t)
    (ht' : SameCells b' t') : CellsAlike deep t t' := by
  refine ⟨?_, fun hd => ?_, ?_⟩
  · rw [ht.current, ht'.current, h.current]
  · rw [ht.depth, ht'.depth, h.depth hd]
  · rw [ht.enteredUnwinding, ht'.enteredUnwinding, h.enteredUnwinding]

theorem Alike.refl (k : Comparison) (m : Machine World) : Alike k m m :=
  ⟨⟨rfl, rfl, rfl, .refl k.look m.world⟩, .refl k.deep m.thread⟩

namespace Alike

variable {m m' : Machine World}

theorem unwindingSinceEntry (h : Alike k m m') : m.thread.unwindingSinceEntry = m'.thread.unwindingSinceEntry := by
  simp only [Thread.unwindingSinceEntry, Thread.isUnwinding, h.unwinds, h.cells.enteredUnwinding]

theorem enter (h : Alike k m m') : Alike k m.enter m'.enter := by
  refine ⟨⟨congrArg Process.init h.process, h.exception, h.unwinds, h.world⟩, rfl, fun hd => ?_, ?_⟩
  · change m.thread.depth + 1 = m'.thread.depth + 1
    rw [h.cells.depth hd]
  · change m.thread.isUnwinding = m'.thread.isUnwinding
    rw [Thread.isUnwinding, h.unwinds, Thread.isUnwinding]

theorem onProcess (h : Alike k m m') (f : Process → Process) :
    Alike k { m with process := f m.process } { m' with process := f m'.process } :=
  ⟨⟨congrArg f h.process, h.exception, h.unwinds, h.world⟩, h.cells⟩

theorem record (h : Alike k m m') (e : Exception) :
    Alike k { m with thread := m.thread.record e } { m' with thread := m'.thread.record e } :=
  ⟨⟨h.process, rfl, h.unwinds, h.world⟩, h.cells.current, h.cells.depth, h.cells.enteredUnwinding⟩

theorem beginUnwind (h : Alike k m m') :
    Alike k { m with thread := m.thread.beginUnwind } { m' with thread := m'.thread.beginUnwind } :=
  ⟨⟨h.process, h.exception, congrArg (· + 1) h.unwinds, h.world⟩, h.cells.current, h.cells.depth,
    h.cells.enteredUnwinding⟩

theorem endUnwind (h : Alike k m m') :
    Alike k { m with thread := m.thread.endUnwind } { m' with thread := m'.thread.endUnwind } :=
  ⟨⟨h.process, h.exception, congrArg (· - 1) h.unwinds, h.world⟩, h.cells.current, h.cells.depth,
    h.cells.enteredUnwinding⟩

theorem withPending (h : Alike k m m') (f f' : Option Fault) :
    Alike k { m with thread := { m.thread with pending := f } } { m' with thread := { m'.thread with pending := f' } } :=
  ⟨⟨h.process, h.exception, h.unwinds, h.world⟩, h.cells.current, h.cells.depth, h.cells.enteredUnwinding⟩

theorem onWorld (h : Alike k m m') {w w' : World} (hw : WorldsAlike k.look w w') :
    Alike k { m with world := w } { m' with world := w' } :=
  ⟨⟨h.process, h.exception, h.unwinds, hw⟩, h.cells⟩

end Alike

/-! ## Ends -/

/-- Nothing waits between a point and its innermost region but what does not notice how it is left. -/
def Direct : List Frame → Prop
  | .region _ _ :: _ => True
  | .next _ :: fs | .watch _ :: fs | .reraise _ :: fs => Direct fs
  | _ => False

/-- The machine on which a raise unwinds. -/
def raising (m : Machine World) (e : Exception) : Machine World :=
  { m with thread := (m.thread.record e).beginUnwind }

section Ends

variable {α β : Type}

/--
Ends of actions inside the frames `fs` that look alike. A fault may stand against the raise of its exception if the
way to the region is direct.
-/
inductive Ends (k : Comparison) (fs : List Frame) (same : α → α → Prop) :
    Flow α × Machine World → Flow α × Machine World → Prop where
  | done {a a' : α} {m m' : Machine World} (ha : same a a') (h : Alike k m m') :
    Ends k fs same (.done a, m) (.done a', m')
  | unwinding (payload : Payload) {m m' : Machine World} (h : Alike k m m') :
    Ends k fs same (.unwinding payload, m) (.unwinding payload, m')
  | resuming (point point' : ResumePoint) {m m' : Machine World} (hp : m.thread.pending = m'.thread.pending)
    (h : Alike k m m') : Ends k fs same (.resuming point, m) (.resuming point', m')
  | ended (ending : Ending) {m m' : Machine World} (h : Alike k m m') :
    Ends k fs same (.ended ending, m) (.ended ending, m')
  | raising (point : ResumePoint) {f : Fault} {m m' : Machine World} (hd : Direct fs)
    (hp : m.thread.pending = some f)
    (hl : k.look (.protect (.fault f)) = k.look (.protect (.raised (.ofFault f))))
    (h : Alike k (raising m (.ofFault f)) m') :
    Ends k fs same (.resuming point, m) (.unwinding (.raised (.ofFault f)), m')

namespace Ends

variable {fs gs : List Frame} {same : α → α → Prop} {r r' : Flow α × Machine World}

theorem inside (h : Ends k fs same r r') (hd : Direct fs → Direct gs) : Ends k gs same r r' := by
  cases h with
  | done ha h => exact .done ha h
  | unwinding payload h => exact .unwinding payload h
  | resuming point point' hp h => exact .resuming point point' hp h
  | ended ending h => exact .ended ending h
  | raising point hfs hp hl h => exact .raising point (hd hfs) hp hl h

/-- What ends alike goes on alike. -/
theorem proceed {also : β → β → Prop} {next next' : α → Action World β} (h : Ends k fs same r r')
    (hnext : ∀ a a' m m', r = (.done a, m) → r' = (.done a', m') → same a a' → Alike k m m' →
      Ends k fs also (next a m) (next' a' m')) :
    Ends k fs also (Action.proceed next r) (Action.proceed next' r') := by
  cases h with
  | done ha h => exact hnext _ _ _ _ rfl rfl ha h
  | unwinding payload h => exact .unwinding payload h
  | resuming point point' hp h => exact .resuming point point' hp h
  | ended ending h => exact .ended ending h
  | raising point hfs hp hl h => exact .raising point hfs hp hl h

end Ends

end Ends

/-! ## Landings -/

/-- Landings that look alike: a fault and the raise of its exception may do so. -/
structure LandingsAlike (k : Comparison) (l l' : Landing Unit) : Prop where
  look : k.look (.protect l) = k.look (.protect l')
  exception : l.exception? = l'.exception?

theorem LandingsAlike.refl (k : Comparison) (l : Landing Unit) : LandingsAlike k l l := ⟨rfl, rfl⟩

theorem Landing.isNormal_eq_isNone {α : Type} (l : Landing α) : l.isNormal = l.exception?.isNone := by
  cases l <;> rfl

theorem LandingsAlike.isNormal {l l' : Landing Unit} (h : LandingsAlike k l l') : l.isNormal = l'.isNormal := by
  rw [Landing.isNormal_eq_isNone, Landing.isNormal_eq_isNone, h.exception]

/-- Two regions have been left alike, or the process has ended in both runs. -/
inductive LeftAlike (k : Comparison) :
    Flow (Landing Unit) × Machine World → Flow (Landing Unit) × Machine World → Prop where
  | landed {l l' : Landing Unit} {m m' : Machine World} (hl : LandingsAlike k l l') (h : Akin k m m') :
    LeftAlike k (.done l, m) (.done l', m')
  | ended (ending : Ending) {m m' : Machine World} (h : Alike k m m') :
    LeftAlike k (.ended ending, m) (.ended ending, m')

/-- Regions whose bodies end alike are left alike, whatever surrounds them. -/
theorem Ends.land {fs : List Frame} {before before' : Thread} {r r' : Flow Unit × Machine World}
    (h : Ends k fs Eq r r') (hr : ∀ point m, r = (.resuming point, m) → point = before.nextPoint)
    (hr' : ∀ point m, r' = (.resuming point, m) → point = before'.nextPoint) :
    LeftAlike k (land before r) (land before' r') := by
  cases h with
  | done _ h => exact .landed (.refl k _) ⟨h.process, h.exception, h.unwinds, h.world⟩
  | unwinding payload h =>
    have hend := h.endUnwind
    exact .landed (.refl k _) ⟨h.process, rfl, hend.unwinds, h.world⟩
  | resuming point point' hp h =>
    simp only [Execution.land, hr point _ rfl, hr' point' _ rfl, if_true, hp]
    exact .landed (.refl k _) ⟨h.process, rfl, h.unwinds, h.world⟩
  | ended ending h => exact .ended ending h
  | @raising point f m m' _ hp hl h =>
    have hend := h.endUnwind
    simp only [Execution.land, hr point _ rfl, if_true, hp, Option.getD_some]
    exact .landed ⟨hl, rfl⟩ ⟨h.process, rfl, hend.unwinds, h.world⟩

/-! ## Actions -/

section Actions

variable {α β : Type}

/-- Two actions end alike on machines that look alike, whatever waits for them. -/
def Matches (k : Comparison) (first second : Action World α) : Prop :=
  ∀ fs m m', Alike k m m' → Ends k fs Eq (first m) (second m')

theorem matches_pure (a : α) : Matches k (pure a) (pure a) := fun _ _ _ h => .done rfl h

theorem Matches.bind {first second : Action World α} {next next' : α → Action World β} (h : Matches k first second)
    (hn : ∀ a, Matches k (next a) (next' a)) : Matches k (first >>= next) (second >>= next') := by
  intro fs m m' hm
  refine (h fs m m' hm).proceed ?_
  rintro a _ m₁ m₁' - - rfl h₁
  exact hn a fs m₁ m₁' h₁

theorem matches_getProcess : Matches k Action.getProcess Action.getProcess := by
  intro fs m m' h
  exact .done h.process h

theorem matches_getThread {next next' : Thread → Action World α}
    (hn : ∀ t t', t.exception = t'.exception → CellsAlike k.deep t t' → Matches k (next t) (next' t')) :
    Matches k (Action.getThread >>= next) (Action.getThread >>= next') := by
  intro fs m m' h
  exact hn m.thread m'.thread h.exception h.cells fs m m' h

theorem matches_getWorld {next next' : World → Action World α}
    (hn : ∀ w w', WorldsAlike k.look w w' → Matches k (next w) (next' w')) :
    Matches k (Action.getWorld >>= next) (Action.getWorld >>= next') := by
  intro fs m m' h
  exact hn m.world m'.world h.world fs m m' h

theorem matches_onProcess (f : Process → Process) : Matches k (Action.onProcess f) (Action.onProcess f) :=
  fun _ _ _ h => .done rfl (h.onProcess f)

theorem matches_record (e : Exception) :
    Matches k (Action.onThread (Thread.record e)) (Action.onThread (Thread.record e)) :=
  fun _ _ _ h => .done rfl (h.record e)

theorem matches_onWorld {f f' : World → World}
    (hf : ∀ w w', WorldsAlike k.look w w' → WorldsAlike k.look (f w) (f' w')) :
    Matches k (Action.onWorld f) (Action.onWorld f') :=
  fun _ m m' h => .done rfl (h.onWorld (hf m.world m'.world h.world))

theorem matches_finish (ending : Ending) :
    Matches k (Action.finish ending : Action World α) (Action.finish ending) :=
  fun _ _ _ h => .ended ending h

theorem matches_raise (e : Exception) : Matches k (raise e : Action World α) (raise e) :=
  fun _ _ _ h => .unwinding (.raised e) (h.record e).beginUnwind

theorem matches_raiseForeign (text : Option String) :
    Matches k (raiseForeign text : Action World α) (raiseForeign text) :=
  fun _ _ _ h => .unwinding (.foreign text) h.beginUnwind

theorem matches_reraise : Matches k (reraise : Action World α) reraise := by
  refine matches_getThread fun t t' he _ => ?_
  rw [he]
  exact matches_raise _

theorem matches_orRaise (r : Except Failure α) : Matches k (orRaise r) (orRaise r) := by
  cases r with
  | ok a => exact matches_pure a
  | error f => exact matches_raise _

theorem matches_emit {e e' : Event} (he : k.look e = k.look e') : Matches k (emit e) (emit e') :=
  matches_onWorld fun _ _ h => h.emit he

theorem matches_settle (raising : Bool) (result : Except Failure α) :
    Matches k (settle raising result) (settle raising result) := by
  cases raising
  · exact matches_pure _
  · exact (matches_orRaise result).bind fun _ => matches_pure _

/-- A fault is delivered in both runs or in none of them. -/
theorem matches_intercept (s : Signal) (f : Fault) :
    Matches k (intercept s f : Action World α) (intercept s f) := by
  intro fs m m' h
  have hcur := h.cells.current
  unfold intercept
  rw [← h.unwindingSinceEntry]
  cases hc : m.thread.current with
  | none =>
    have hc' : m'.thread.current = none := by simpa [hc] using hcur
    rw [hc']
    exact .ended _ h
  | some point =>
    obtain ⟨point', hc'⟩ : ∃ point', m'.thread.current = some point' := by
      apply Option.isSome_iff_exists.1
      rw [← hcur, hc]
      rfl
    rw [hc']
    dsimp only
    split
    · exact .ended _ h
    · exact .resuming point point' rfl (h.withPending _ _)

theorem matches_trap (t : Trap) : Matches k (Execution.trap t : Action World α) (Execution.trap t) := by
  intro fs m m' h
  unfold Execution.trap
  rw [← h.process]
  cases m.process.disposition t.signal with
  | intercept => exact matches_intercept t.signal t.fault fs m m' h
  | fatal | watch => exact .ended _ h

theorem matches_send (s : Signal) (code : Int32) : Matches k (Execution.send s code) (Execution.send s code) := by
  intro fs m m' h
  unfold Execution.send
  rw [← h.process]
  cases m.process.disposition s with
  | intercept => exact matches_intercept s (.ofSignal s code) fs m m' h
  | fatal => exact .ended _ h
  | watch =>
    refine .done rfl ?_
    rw [h.process]
    exact ⟨⟨rfl, h.exception, h.unwinds, h.world⟩, h.cells⟩

end Actions

/-! ## Instructions -/

theorem matches_answer {α : Type} (raising : Bool) (value : α → Value) (result : Except Failure α) :
    Matches k (answer raising value result) (answer raising value result) := by
  cases result with
  | ok a => exact matches_pure _
  | error f =>
    cases raising
    · exact matches_pure _
    · exact matches_raise _

theorem matches_layOut (result : Except Layout.Refusal Text) : Matches k (layOut result) (layOut result) := by
  cases result with
  | ok t => exact matches_pure _
  | error refusal => exact matches_raiseForeign _

theorem matches_dividing (part : Int32 × Int32 → Int32) (a b : Int32) :
    Matches k (dividing part a b) (dividing part a b) := by
  unfold dividing
  cases Word.divide? a b with
  | some result => exact matches_pure _
  | none => exact matches_trap _

theorem matches_routine (routine : Routine) : Matches k (routine.run : Action World Value) routine.run := by
  cases routine with
  | divide | modulo => exact matches_dividing _ _ _
  | textToWord | textToNumber => exact matches_answer _ _ _
  | wordInField | numberInField => exact matches_layOut _
  | _ => exact matches_pure _

theorem matches_runArray (raising : Bool) (command : SharedArray.Command Int32) :
    Matches k (runArray raising command) (runArray raising command) := by
  rw [runArray_eq]
  refine matches_getWorld fun w w' hw => ?_
  rw [hw.arrays]
  refine Matches.bind (matches_onWorld ?_) fun _ => (matches_settle _ _).bind fun _ => matches_emit rfl
  exact fun _ _ h => ⟨h.counter, rfl, h.texts, h.events⟩

theorem matches_runText (raising : Bool) (command : Text.Command) :
    Matches k (runText raising command) (runText raising command) := by
  rw [runText_eq]
  refine matches_getWorld fun w w' hw => ?_
  rw [hw.texts]
  refine (matches_settle _ _).bind fun r => ?_
  cases r with
  | ok r =>
    refine Matches.bind (matches_onWorld ?_) fun _ => matches_emit rfl
    exact fun _ _ h => ⟨h.counter, h.arrays, rfl, h.events⟩
  | error f => exact matches_emit rfl

theorem matches_exceptionCode : Matches k Foreign.exceptionCode Foreign.exceptionCode := by
  refine matches_getThread fun t t' he _ => ?_
  rw [he]
  exact matches_pure _

theorem matches_copyMessage (buffer : Foreign.Buffer) (capacity : Nat) :
    Matches k (Foreign.copyMessage buffer capacity) (Foreign.copyMessage buffer capacity) := by
  refine matches_getThread fun t t' he _ => ?_
  rw [he]
  exact matches_pure _

theorem matches_emitConfiguration : Matches k emitConfiguration emitConfiguration :=
  matches_getProcess.bind fun _ => matches_emit rfl

/-- **An instruction ends alike on machines that look alike**, if it reports nothing that does not matter. -/
theorem Instruction.matches_self (i : Instruction) (h : i = .state → k.ReportsState) : Matches k i.run i.run := by
  cases i with
  | log label => exact matches_emit rfl
  | state =>
    refine matches_getThread fun t t' he hc => matches_emit ?_
    rw [snapshot, snapshot, he]
    exact h rfl _ _ _ hc.depth
  | bump =>
    intro fs m m' h
    have hcounter : m.world.counter + 1 = m'.world.counter + 1 := by rw [h.world.counter]
    exact .done rfl (h.onWorld ⟨hcounter, h.world.arrays, h.world.texts, h.world.events⟩)
  | counter =>
    refine matches_getWorld fun w w' hw => matches_emit ?_
    rw [hw.counter]
  | inRegion =>
    refine matches_getThread fun t t' _ hc => matches_emit ?_
    rw [hc.current]
  | intercepted => exact matches_getProcess.bind fun _ => matches_emit rfl
  | init | initWith => exact (matches_onProcess _).bind fun _ => matches_emitConfiguration
  | clear | foreignShutdown => exact matches_record _
  | raise | raiseFailure | foreignRaise => exact matches_raise _
  | reraise => exact matches_reraise
  | raiseForeign => exact matches_raiseForeign _
  | trap => exact matches_trap _
  | send => exact matches_send _ _
  | call routine => exact (matches_routine routine).bind fun _ => matches_emit rfl
  | array raising command => exact matches_runArray raising command
  | text raising command => exact matches_runText raising command
  | foreignInit => exact matches_onProcess _
  | foreignCode => exact matches_exceptionCode.bind fun _ => matches_emit rfl
  | foreignMessage buffer => exact (matches_copyMessage buffer _).bind fun _ => matches_emit rfl
  | halt | abort => exact matches_finish _
  | runError => exact (matches_onProcess _).bind fun _ => matches_finish _

end ManagedRuntime.Program
