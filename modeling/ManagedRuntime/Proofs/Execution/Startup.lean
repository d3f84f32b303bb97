import ManagedRuntime.Execution.System
import ManagedRuntime.Proofs.Program.Processes
import ManagedRuntime.Proofs.Program.RegionStack

/-!
# One configuration and one installation

However the threads of a process take turns, the first call decides the configuration, and its signals are the
ones that are intercepted.

* `Configured` : a process with its calls and installations so far; every change of a process keeps it.
* `Consistent` : the same for a whole system, whose threads have their open regions registered.
* `consistent_step`, `consistent_run` : every step of a thread and every run keep it.
* `System.StartsOnce` : what calls observe, what is intercepted, and which faults end the process.
-/

namespace ManagedRuntime.Execution

set_option autoImplicit false

/-! ## The process -/

/-- The configuration of the first of some calls, if there is one. -/
def proposed? (calls : List Call) : Option Configuration := calls.head?.map fun call => call.entry.proposal

/-- The first call has decided the configuration, and an installation has been one of that configuration. -/
structure Configured (p : Process) (calls : List Call) (installations : List Configuration) : Prop where
  active : p.active = proposed? calls
  observed : ∀ call ∈ calls, p.active = some call.observed
  called : p.installed = true → p.active.isSome
  installations : installations = if p.installed then [p.configuration] else []
  disposition : ∀ signal, p.disposition signal = .intercept ↔
    p.installed = true ∧ p.configuration.intercept = true ∧ ⟨signal.name⟩ ∈ p.configuration.signals
  intercepting : p.intercepting = true ↔ p.installed = true ∧ p.configuration.intercept = true
  watch : ∀ signal, p.disposition signal = .watch → signal = .segv ∨ signal = .bus

variable {p : Process} {calls : List Call} {installations : List Configuration}

theorem configured_start : Configured .start [] [] where
  active := rfl
  observed call h := absurd h List.not_mem_nil
  called h := absurd h Bool.false_ne_true
  installations := rfl
  disposition signal := by cases signal <;> decide
  intercepting := by decide
  watch signal := by cases signal <;> decide

theorem configuration_of_active {c : Configuration} (h : p.active = some c) : p.configuration = c := by
  rw [Process.configuration, h, Option.getD_some]

theorem proposed?_append (h : calls ≠ []) (later : List Call) : proposed? (calls ++ later) = proposed? calls := by
  obtain ⟨call, rest, rfl⟩ := List.exists_cons_of_ne_nil h
  rfl

theorem Configured.isSome_of_ne_nil (h : Configured p calls installations) (hcalls : calls ≠ []) :
    p.active.isSome := by
  obtain ⟨call, rest, rfl⟩ := List.exists_cons_of_ne_nil hcalls
  rw [h.active]
  rfl

theorem Configured.not_installed (h : Configured p calls installations) (hactive : p.active = none) :
    p.installed = false := by
  by_contra hp
  have := h.called (by simpa using hp)
  rw [hactive] at this
  exact Bool.false_ne_true this

/-- Only the first call activates a configuration, and every call is told that one. -/
theorem Configured.activate (h : Configured p calls installations) (entry : Entry) :
    Configured (p.activate entry.proposal) (calls ++ [⟨entry, (p.activate entry.proposal).configuration⟩])
      installations := by
  by_cases hcalls : calls = []
  · subst hcalls
    have hactive : p.active = none := h.active
    have hinstalled : p.installed = false := h.not_installed hactive
    have hactivate : p.activate entry.proposal = { p with active := some entry.proposal } := by
      rw [Process.activate, hactive, Option.getD_none]
    rw [hactivate]
    constructor
    · rfl
    · intro call hcall
      rw [List.nil_append, List.mem_singleton] at hcall
      rw [hcall]
      rfl
    · exact fun _ => rfl
    · have := h.installations
      rwa [hinstalled] at this ⊢
    · intro signal
      simpa [hinstalled] using h.disposition signal
    · simpa [hinstalled] using h.intercepting
    · exact h.watch
  · have hsome := h.isSome_of_ne_nil hcalls
    rw [Program.activate_of_isSome hsome]
    refine { h with active := ?_, observed := ?_ }
    · rw [proposed?_append hcalls]
      exact h.active
    · intro call hcall
      rcases List.mem_append.1 hcall with hcall | hcall
      · exact h.observed call hcall
      · obtain ⟨c, hc⟩ := Option.isSome_iff_exists.1 hsome
        rw [List.mem_singleton.1 hcall, configuration_of_active hc, hc]

theorem disposition_install (hp : p.installed = false) (c : Configuration) (signal : Signal) :
    (p.install c).disposition signal =
      if c.intercept = true ∧ ⟨signal.name⟩ ∈ c.signals then .intercept else p.disposition signal := by
  unfold Process.install
  rw [if_neg (by simp [hp])]
  by_cases hc : c.intercept = true <;> simp [hc, Configuration.mem_listed_iff]

theorem intercepting_install (hp : p.installed = false) (c : Configuration) :
    (p.install c).intercepting = (c.intercept || p.intercepting) := by
  unfold Process.install
  rw [if_neg (by simp [hp])]
  by_cases hc : c.intercept = true <;> simp [hc]

/-- Only the first installation has an effect, and the configuration it is told is the one in use. -/
theorem Configured.install (h : Configured p calls installations) {c : Configuration} (hc : p.active = some c) :
    Configured (p.install c) calls (if p.installed then installations else installations ++ [c]) := by
  cases hp : p.installed with
  | true =>
    rw [Process.install, if_pos hp]
    exact h
  | false =>
    have hactive : (p.install c).active = some c := by rw [Program.active_install, hc]
    have hconfiguration := configuration_of_active hactive
    have hinstalled := Program.installed_install c p
    have hnone : installations = [] := by simpa [hp] using h.installations
    have hfree : ∀ signal, p.disposition signal ≠ .intercept := by
      intro signal hs
      simpa [hp] using (h.disposition signal).1 hs
    constructor
    · rw [Program.active_install]
      exact h.active
    · rw [Program.active_install]
      exact h.observed
    · intro _
      rw [hactive]
      rfl
    · rw [hinstalled, hconfiguration, hnone]
      rfl
    · intro signal
      rw [disposition_install hp, hinstalled, hconfiguration]
      split
      next hlisted => exact iff_of_true rfl ⟨rfl, hlisted⟩
      next hlisted => exact iff_of_false (hfree signal) fun hall => hlisted hall.2
    · rw [intercepting_install hp, hinstalled, hconfiguration]
      have hidle : p.intercepting ≠ true := fun hi => by simpa [hp] using h.intercepting.1 hi
      simp [hidle]
    · intro signal
      rw [disposition_install hp]
      split
      · intro hwatch
        cases hwatch
      · exact h.watch signal

theorem Configured.disarm (h : Configured p calls installations) {signal : Signal}
    (hs : p.disposition signal = .watch) : Configured (p.disarm signal) calls installations := by
  have hother : ∀ s, (p.disarm signal).disposition s = if s = signal then .fatal else p.disposition s := fun _ => rfl
  refine { h with disposition := fun s => ?_, watch := fun s => ?_ }
  · rw [hother]
    split
    next heq =>
      rw [heq]
      refine iff_of_false (by decide) fun hlisted => ?_
      have hintercept := (h.disposition signal).2 hlisted
      rw [hs] at hintercept
      cases hintercept
    next => exact h.disposition s
  · rw [hother]
    split
    · intro hwatch
      cases hwatch
    · exact h.watch s

/-! ## Faults -/

variable {m : Machine Unit}

theorem Strike.deliver_of_intercept {strike : Strike} (h : m.process.disposition strike.signal = .intercept) :
    strike.deliver m = intercept strike.signal strike.fault m := by
  cases strike with
  | trap t =>
    change m.process.disposition t.signal = .intercept at h
    rw [deliver, Execution.trap, h]
    rfl
  | send signal code =>
    change m.process.disposition signal = .intercept at h
    rw [deliver, Execution.send, h]
    rfl

theorem Strike.deliver_of_fatal {strike : Strike} (h : m.process.disposition strike.signal = .fatal) :
    strike.deliver m = (.ended (.killed strike.signal), m) := by
  cases strike with
  | trap t =>
    change m.process.disposition t.signal = .fatal at h
    rw [deliver, Execution.trap, h]
    rfl
  | send signal code =>
    change m.process.disposition signal = .fatal at h
    rw [deliver, Execution.send, h]
    rfl

/-- What a strike can do. -/
theorem Strike.deliver_cases (strike : Strike) (m : Machine Unit) :
    (∃ point, m.process.disposition strike.signal = .intercept ∧ m.thread.current = some point ∧
      strike.deliver m = (.resuming point, { m with thread := { m.thread with pending := some strike.fault } })) ∨
    (∃ ending, strike.deliver m = (.ended ending, m)) ∨
    (∃ signal code, strike = .send signal code ∧ m.process.disposition signal = .watch ∧
      strike.deliver m = (.done (), { m with process := m.process.disarm signal })) := by
  cases h : m.process.disposition strike.signal with
  | fatal => exact .inr (.inl ⟨_, deliver_of_fatal h⟩)
  | watch =>
    cases strike with
    | trap t =>
      change m.process.disposition t.signal = .watch at h
      refine .inr (.inl ⟨if t = .stackOverflow then .aborted else .killed t.signal, ?_⟩)
      rw [deliver, Execution.trap, h]
    | send signal code =>
      change m.process.disposition signal = .watch at h
      refine .inr (.inr ⟨signal, code, rfl, h, ?_⟩)
      rw [deliver, Execution.send, h]
  | intercept =>
    rw [deliver_of_intercept h]
    cases hc : m.thread.current with
    | none =>
      refine .inr (.inl ⟨.killed strike.signal, ?_⟩)
      rw [intercept, hc]
    | some point =>
      cases hu : m.thread.unwindingSinceEntry with
      | true =>
        refine .inr (.inl ⟨.killed strike.signal, ?_⟩)
        rw [intercept, hc]
        exact if_pos hu
      | false => exact .inl ⟨point, rfl, rfl, Program.intercept_of_current hc hu⟩

/-- A region is left with the exception of the fault that it is handed. -/
theorem Runner.resume_cons (before : Thread) (rest : List Thread) (m : Machine Unit) :
    Runner.resume before.nextPoint m (before :: rest) =
      ⟨(before.leave { m.thread with pending := none }).record (.ofFault (m.thread.pending.getD .unknown)), rest,
        none⟩ := by
  rw [resume, land, if_pos rfl]

/-! ## The threads -/

/-- The open regions of a thread are the ones that its cells register. -/
def Runner.Registered (r : Runner) : Prop := Program.Stacked .fresh (r.regions.map .region) r.thread

theorem Runner.Registered.finishCall {r : Runner} (h : r.Registered) (entry : Entry) :
    (r.finishCall entry).Registered := by
  unfold Runner.finishCall
  split
  · exact Program.Stacked.enter h
  · exact h

/-- The resume point that a thread finds is that of its innermost region. -/
theorem Runner.Registered.innermost {r : Runner} (h : r.Registered) {point : ResumePoint}
    (hp : r.thread.current = some point) : ∃ before rest, r.regions = before :: rest ∧ point = before.nextPoint := by
  unfold Registered at h
  cases hr : r.regions with
  | nil =>
    rw [hr] at h
    have hnone := h.1.current
    rw [hp] at hnone
    cases hnone
  | cons before rest =>
    rw [hr] at h
    have hcurrent := h.1
    rw [hp] at hcurrent
    exact ⟨before, rest, rfl, Option.some.inj hcurrent⟩

/-- Leaving the innermost region registers the one around it. -/
theorem Runner.Registered.leave {r : Runner} {before : Thread} {rest : List Thread} (h : r.Registered)
    (hr : r.regions = before :: rest) (t : Thread) (hd : t.depth = r.thread.depth)
    (he : t.entered = r.thread.entered) : Runner.Registered ⟨before.leave t, rest, none⟩ := by
  unfold Registered at h
  rw [hr, List.map_cons] at h
  exact Program.Stacked.leave h hd he

/-- The exception of a thread says nothing about its regions. -/
theorem Runner.Registered.record {t : Thread} {regions : List Thread} {call : Option Call}
    (h : Runner.Registered ⟨t, regions, call⟩) (e : Exception) : Runner.Registered ⟨t.record e, regions, call⟩ :=
  Program.Stacked.congr h ⟨rfl, rfl, rfl⟩ (Nat.le_refl _)

/-- A process that is configured, and threads with their regions registered, which are open after an installation. -/
structure Consistent (s : System) : Prop where
  configured : Configured s.process s.calls s.installations
  called : ∀ n call, (s.runners n).call = some call → call ∈ s.calls
  installed : ∀ n, (s.runners n).regions ≠ [] → s.process.installed = true
  registered : ∀ n, (s.runners n).Registered

theorem consistent_start : Consistent .start where
  configured := configured_start
  called n call h := by cases h
  installed n h := absurd rfl h
  registered n := ⟨Program.SameCells.refl _, Nat.le_refl _⟩

variable {s : System} {n : Nat}

theorem runners_setRunner (s : System) (n k : Nat) (r : Runner) :
    (s.setRunner n r).runners k = if k = n then r else s.runners k := rfl

theorem Consistent.setRunner (h : Consistent s) {r : Runner} (hcall : ∀ call, r.call = some call → call ∈ s.calls)
    (hinstalled : r.regions ≠ [] → s.process.installed = true) (hregistered : r.Registered) :
    Consistent (s.setRunner n r) where
  configured := h.configured
  called k call hk := by
    rw [runners_setRunner] at hk
    split at hk
    · exact hcall call hk
    · exact h.called k call hk
  installed k hk := by
    rw [runners_setRunner] at hk
    split at hk
    · exact hinstalled hk
    · exact h.installed k hk
  registered k := by
    rw [runners_setRunner]
    split
    · exact hregistered
    · exact h.registered k

theorem Consistent.beginCall (h : Consistent s) (n : Nat) (entry : Entry) : Consistent (s.beginCall n entry) := by
  let call : Call := ⟨entry, (s.process.activate entry.proposal).configuration⟩
  have hbegun : Consistent { s with process := s.process.activate entry.proposal, calls := s.calls ++ [call] } :=
    { configured := h.configured.activate entry
      called := fun k call hk => List.mem_append_left _ (h.called k call hk)
      installed := h.installed
      registered := h.registered }
  refine hbegun.setRunner (fun call hcall => ?_) (h.installed n) (h.registered n)
  cases hi : entry.installs with
  | true =>
    simp only [hi, if_true, Option.some.injEq] at hcall
    rw [← hcall]
    exact List.mem_append_right _ (List.mem_singleton_self _)
  | false => simp [hi] at hcall

theorem Consistent.install (h : Consistent s) {call : Call} (hcall : call ∈ s.calls) (n : Nat) :
    Consistent (s.install n call) := by
  have hinstalled := Program.installed_install call.observed s.process
  have hdone : Consistent
      { s with
        process := s.process.install call.observed
        installations := if s.process.installed then s.installations else s.installations ++ [call.observed] } :=
    { configured := h.configured.install (h.configured.observed call hcall)
      called := h.called
      installed := fun _ _ => hinstalled
      registered := h.registered }
  refine hdone.setRunner (fun call hc => ?_) (fun _ => hinstalled) ((h.registered n).finishCall call.entry)
  unfold Runner.finishCall at hc
  split at hc <;> cases hc

theorem Consistent.leave (h : Consistent s) (n : Nat) (payload : Option Payload) : Consistent (s.leave n payload) := by
  unfold System.leave
  cases hr : (s.runners n).regions with
  | nil => exact h
  | cons before rest =>
    refine h.setRunner (fun call hc => by cases hc) (fun _ => h.installed n (by simp [hr])) ?_
    cases payload with
    | none => exact (h.registered n).leave hr (s.runners n).thread rfl rfl
    | some payload => exact ((h.registered n).leave hr (s.runners n).thread.endUnwind rfl rfl).record _

theorem Consistent.disarm (h : Consistent s) {signal : Signal} (hs : s.process.disposition signal = .watch) :
    Consistent { s with process := s.process.disarm signal } where
  configured := h.configured.disarm hs
  called := h.called
  installed := h.installed
  registered := h.registered

/-- The system after a fault has been handed to the innermost region of a thread, entered in the state `before`. -/
def System.afterFault (s : System) (n : Nat) (before : Thread) (rest : List Thread) (fault : Fault) : System :=
  s.setRunner n
    ⟨(before.leave { (s.runners n).thread with pending := none }).record (.ofFault fault), rest, none⟩

/-- A fault that is intercepted is handed to the innermost region of its thread. -/
theorem Consistent.strike_of_resuming (h : Consistent s) {strike : Strike} {point : ResumePoint}
    (hp : (s.runners n).thread.current = some point)
    (hd : strike.deliver (s.machine n) = (.resuming point,
      { s.machine n with thread := { (s.runners n).thread with pending := some strike.fault } })) :
    ∃ before rest, (s.runners n).regions = before :: rest ∧
      s.strike n strike = s.afterFault n before rest strike.fault := by
  obtain ⟨before, rest, hr, rfl⟩ := (h.registered n).innermost hp
  refine ⟨before, rest, hr, ?_⟩
  rw [System.strike, hd]
  show s.setRunner n (Runner.resume _ _ (s.runners n).regions) = _
  rw [hr, Runner.resume_cons]
  rfl

theorem Consistent.strike (h : Consistent s) (n : Nat) (strike : Strike) : Consistent (s.strike n strike) := by
  rcases strike.deliver_cases (s.machine n) with ⟨point, -, hp, hd⟩ | ⟨ending, hd⟩ | ⟨signal, code, rfl, hs, hd⟩
  · obtain ⟨before, rest, hr, heq⟩ := h.strike_of_resuming hp hd
    rw [heq]
    refine h.setRunner (fun call hc => by cases hc) (fun _ => h.installed n (by simp [hr])) ?_
    exact ((h.registered n).leave hr { (s.runners n).thread with pending := none } rfl rfl).record _
  · rw [System.strike, hd]
    exact { h with }
  · rw [System.strike, hd]
    exact (h.disarm hs).setRunner (h.called n) (h.installed n) (h.registered n)

/-- **Every step keeps a system consistent.** -/
theorem consistent_step (h : Consistent s) (n : Nat) (move : Move) : Consistent (s.step n move) := by
  unfold System.step
  split
  · exact h
  · dsimp only
    cases hcall : (s.runners n).call with
    | none =>
      cases move with
      | call entry => exact h.beginCall n entry
      | install => exact h
      | work e unwinds =>
        refine h.setRunner (fun call hc => by cases hc) (h.installed n) ?_
        exact (h.registered n).congr ⟨rfl, rfl, rfl⟩ (Nat.le_refl _)
      | leave payload => exact h.leave n payload
      | strike strike => exact h.strike n strike
    | some call =>
      cases move with
      | install => exact h.install (h.called n call hcall) n
      | strike strike => exact h.strike n strike
      | call | work | leave => exact h

/-- **Every run keeps a system consistent.** -/
theorem consistent_run (h : Consistent s) (moves : List (Nat × Move)) : Consistent (s.run moves) := by
  induction moves generalizing s with
  | nil => exact h
  | cons move rest ih => exact ih (consistent_step h move.1 move.2)

/-! ## What all threads can rely on -/

/-- The watch of the host is still set on a signal that a thread sends to itself. -/
def System.Watches (s : System) : Strike → Prop
  | .trap _ => False
  | .send signal _ => s.process.disposition signal = .watch

/--
The body of a region of thread `n` runs that was entered in the state `before` in the regions `rest`, and the thread
has no other unwinds in flight than at that time.
-/
structure System.RunsBody (s : System) (n : Nat) (before : Thread) (rest : List Thread) : Prop where
  running : s.ending = none
  regions : (s.runners n).regions = before :: rest
  calm : (s.runners n).thread.unwinds = before.unwinds

/-- One configuration and one installation, and faults as that configuration has them. -/
structure System.StartsOnce (s : System) : Prop where
  observes : ∀ call ∈ s.calls, call.observed = s.first
  installs : s.installations = [] ∨ s.installations = [s.first]
  intercepts : ∀ signal, s.process.disposition signal = .intercept ↔
    s.installations = [s.first] ∧ s.first.intercept = true ∧ ⟨signal.name⟩ ∈ s.first.signals
  intercepting : s.process.intercepting = true ↔ s.installations = [s.first] ∧ s.first.intercept = true
  complete : ∀ n, (s.runners n).regions ≠ [] → s.installations = [s.first]
  /-- A fault is handed to the region, which changes nothing else, exactly if its signal is to be intercepted. -/
  intercepted_iff : ∀ n before rest, s.RunsBody n before rest → ∀ strike : Strike,
    s.step n (.strike strike) = s.afterFault n before rest strike.fault ↔
      s.first.intercept = true ∧ ⟨strike.signal.name⟩ ∈ s.first.signals
  fatal : ∀ n before rest, s.RunsBody n before rest → ∀ strike : Strike,
    ¬(s.first.intercept = true ∧ ⟨strike.signal.name⟩ ∈ s.first.signals) → ¬s.Watches strike →
      (s.step n (.strike strike)).ending.isSome
  /-- A watch takes one signal, on which the process lives on, and is then no longer set. -/
  watched : ∀ n strike, s.ending = none → s.Watches strike →
    (strike.signal = .segv ∨ strike.signal = .bus) ∧
      s.step n (.strike strike) = { s with process := s.process.disarm strike.signal }

theorem Consistent.first_eq (h : Consistent s) {c : Configuration} (hc : s.process.active = some c) : s.first = c := by
  have hactive : s.process.active = s.calls.head?.map fun call => call.entry.proposal := h.configured.active
  rw [System.first, ← hactive, hc]
  rfl

theorem Consistent.configuration_eq (h : Consistent s) (hi : s.process.installed = true) :
    s.process.configuration = s.first := by
  obtain ⟨c, hc⟩ := Option.isSome_iff_exists.1 (h.configured.called hi)
  rw [h.first_eq hc, configuration_of_active hc]

theorem Consistent.installed_iff (h : Consistent s) :
    s.process.installed = true ↔ s.installations = [s.first] := by
  have hinstallations := h.configured.installations
  constructor
  · intro hi
    rw [hinstallations, if_pos hi, h.configuration_eq hi]
  · intro hi
    by_contra hn
    rw [hinstallations, if_neg hn] at hi
    cases hi

theorem Consistent.disposition_iff (h : Consistent s) (signal : Signal) :
    s.process.disposition signal = .intercept ↔
      s.installations = [s.first] ∧ s.first.intercept = true ∧ ⟨signal.name⟩ ∈ s.first.signals := by
  rw [h.configured.disposition, ← h.installed_iff]
  refine and_congr_right fun hi => ?_
  rw [h.configuration_eq hi]

theorem System.step_strike (hs : s.ending = none) (n : Nat) (strike : Strike) :
    s.step n (.strike strike) = s.strike n strike := by
  unfold System.step
  rw [hs]
  rfl

/-- In a region whose body has no unwind in flight, a fault on a listed signal is handed to the region. -/
theorem Consistent.step_of_listed (h : Consistent s) {before : Thread} {rest : List Thread}
    (hb : s.RunsBody n before rest) {strike : Strike}
    (hlisted : s.first.intercept = true ∧ ⟨strike.signal.name⟩ ∈ s.first.signals) :
    s.step n (.strike strike) = s.afterFault n before rest strike.fault := by
  have hinstalled := h.installed_iff.1 (h.installed n (by simp [hb.regions]))
  have hdisposition := (h.disposition_iff strike.signal).2 ⟨hinstalled, hlisted⟩
  have hregistered := h.registered n
  unfold Runner.Registered at hregistered
  rw [hb.regions, List.map_cons] at hregistered
  obtain ⟨hcurrent, -, hentered, -⟩ := hregistered
  have hcalm : (s.runners n).thread.unwindingSinceEntry = false := by
    unfold Thread.unwindingSinceEntry Thread.isUnwinding at *
    rw [hentered, hb.calm]
    exact Bool.and_not_self _
  have hdeliver := Strike.deliver_of_intercept (m := s.machine n) hdisposition
  rw [Program.intercept_of_current (m := s.machine n) hcurrent hcalm] at hdeliver
  obtain ⟨before', rest', hr, heq⟩ := h.strike_of_resuming hcurrent hdeliver
  rw [hb.regions] at hr
  cases hr
  rw [System.step_strike hb.running, heq]

theorem System.step_of_watch (hs : s.ending = none) {strike : Strike}
    (hw : s.Watches strike) : s.step n (.strike strike) = { s with process := s.process.disarm strike.signal } := by
  cases strike with
  | trap t => exact hw.elim
  | send signal code =>
    change s.process.disposition signal = .watch at hw
    have hdeliver : (Strike.send signal code).deliver (s.machine n) =
        (.done (), { s.machine n with process := s.process.disarm signal }) := by
      show Execution.send signal code (s.machine n) = _
      rw [Execution.send, System.machine]
      dsimp only
      rw [hw]
    rw [System.step_strike hs, System.strike, hdeliver]
    show ({ s with process := _, runners := _ } : System) = _
    congr
    funext k
    split
    next hk => rw [hk]; rfl
    next => rfl

theorem Consistent.step_of_unlisted (h : Consistent s) {before : Thread} {rest : List Thread}
    (hb : s.RunsBody n before rest) {strike : Strike}
    (hlisted : ¬(s.first.intercept = true ∧ ⟨strike.signal.name⟩ ∈ s.first.signals)) (hw : ¬s.Watches strike) :
    (s.step n (.strike strike)).ending.isSome := by
  rw [System.step_strike hb.running, System.strike]
  rcases strike.deliver_cases (s.machine n) with ⟨point, hd, -⟩ | ⟨ending, hd⟩ | ⟨signal, code, rfl, hd, -⟩
  · exact absurd ((h.disposition_iff strike.signal).1 hd).2 hlisted
  · rw [hd]
    rfl
  · exact absurd hd hw

theorem Consistent.startsOnce (h : Consistent s) : s.StartsOnce where
  observes call hcall := (h.first_eq (h.configured.observed call hcall)).symm
  installs := by
    cases hi : s.process.installed with
    | true => exact .inr (h.installed_iff.1 hi)
    | false => exact .inl (by rw [h.configured.installations, hi]; rfl)
  intercepts := h.disposition_iff
  intercepting := by
    rw [h.configured.intercepting, ← h.installed_iff]
    refine and_congr_right fun hi => ?_
    rw [h.configuration_eq hi]
  complete n hn := h.installed_iff.1 (h.installed n hn)
  intercepted_iff n before rest hb strike := by
    refine ⟨fun heq => ?_, h.step_of_listed hb⟩
    by_contra hlisted
    by_cases hw : s.Watches strike
    · -- the thread is still in the region
      rw [System.step_of_watch hb.running hw] at heq
      have hregions : (s.runners n).regions = ((s.afterFault n before rest strike.fault).runners n).regions :=
        congrArg (fun s => (s.runners n).regions) heq
      rw [System.afterFault, runners_setRunner, if_pos rfl, hb.regions] at hregions
      exact List.cons_ne_self _ _ hregions
    · -- the process has ended
      have hended := h.step_of_unlisted hb hlisted hw
      have hrunning : (s.afterFault n before rest strike.fault).ending = none := hb.running
      rw [heq, hrunning] at hended
      exact Bool.false_ne_true hended
  fatal n before rest hb strike := h.step_of_unlisted hb
  watched n strike hs hw := by
    refine ⟨h.configured.watch _ ?_, System.step_of_watch hs hw⟩
    cases strike with
    | trap t => exact hw.elim
    | send signal code => exact hw

/-- **However threads take turns, the first call decides, once and for all.** -/
theorem starts_once (moves : List (Nat × Move)) : (System.start.run moves).StartsOnce :=
  (consistent_run consistent_start moves).startsOnce

/-- A call with no other step in between is the initialization that a thread makes by itself. -/
example (s : System) (n : Nat) (entry : Entry) :
    ((s.beginCall n entry).install n ⟨entry, (s.process.activate entry.proposal).configuration⟩).process =
      s.process.initWith entry.proposal := rfl

/-! ## A signal that is lost -/

/-- Nothing is to be intercepted. -/
def nothingIntercepted : Configuration := { Configuration.default with intercept := false }

/-- Thread 0 initializes with this configuration and enters a region. -/
def enteringRegion : List (Nat × Move) :=
  [(0, .call (.initWith nothingIntercepted)), (0, .install), (0, .call .protect), (0, .install)]

/-- The code that comes with a signal that a thread sends to itself. -/
def sentToItself : Int32 := -6

/-- A program that sends itself a signal in a region, and goes on. -/
def sendingProgram : Program.Statement :=
  .seq (.protect (.perform (.send .bus sentToItself))) (.perform (.log (.name "alive")))

/--
The watch of the host takes a signal that nothing intercepts, in a region whose body has no unwind in flight. The
process lives on, and so the program reports a normal end of the region and exits with the status 0.
-/
theorem sent_signal_lost :
    ((System.start.run enteringRegion).RunsBody 0 .fresh [] ∧
      (System.start.run enteringRegion).first.intercept = false ∧
      ((System.start.run enteringRegion).step 0 (.strike (.send .bus sentToItself))).ending = none) ∧
    ∃ m, Program.runProcess nothingIntercepted sendingProgram = (.ended (.exited 0), m) ∧
      m.world.events = [.protect (.normal ()), .log (.name "alive"), .exit 0 ⟨.none, 0⟩] :=
  ⟨⟨⟨rfl, rfl, rfl⟩, rfl, rfl⟩, _, rfl, rfl⟩

end ManagedRuntime.Execution
