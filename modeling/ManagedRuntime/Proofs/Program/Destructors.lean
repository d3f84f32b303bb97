import ManagedRuntime.Proofs.Program.Scopes

/-!
# Destructors on the two ways out

An unwind runs the destructors of the scopes that it leaves, and a jump skips them.

* `Ledger.Since` : what has become of the scopes of a ledger, and of those that were opened since;
* `recorded_run` : a statement is about the scopes that it opens itself;
* `recorded_carries` : an unwind runs the destructors on its way, the innermost one first;
* `recorded_fault` : a fault that is intercepted skips those inside the innermost region and no others;
* `destructors_run_once` : in every run each scope has one fate, and a jump decides it for no scope further out.
-/

namespace ManagedRuntime.Program

open Execution

set_option autoImplicit false

variable {inline : Bool}

/-! ## What has happened since -/

/--
Of the scopes that `l₀` knows the `count` innermost ones that were pending have been left, and their destructors have
run in this order; no other one has been touched. Of the scopes that were opened since, those in `inner` are pending.
-/
structure Ledger.Since (l₀ : Ledger) (count : Nat) (inner : List Nat) (l : Ledger) : Prop where
  opened : l₀.opened.length ≤ l.opened.length
  later : ∀ n ∈ inner, l₀.opened.length ≤ n
  pending : l.pending = inner ++ l₀.pending.drop count
  ran : ∃ ns, l.ran = l₀.ran ++ ns ∧ ns.filter (· < l₀.opened.length) = l₀.pending.take count
  skipped : ∃ ns, l.skipped = l₀.skipped ++ ns ∧ ∀ n ∈ ns, l₀.opened.length ≤ n

namespace Ledger.Since

variable {l₀ l : Ledger} {count n : Nat} {inner : List Nat}

theorem refl (l : Ledger) : l.Since 0 [] l :=
  ⟨Nat.le_refl _, nofun, rfl, ⟨[], (List.append_nil _).symm, rfl⟩, ⟨[], (List.append_nil _).symm, nofun⟩⟩

theorem enter (h : l₀.Since count inner l) (d : Statement) :
    l₀.Since count (l.opened.length :: inner) (l.enter d) where
  opened := by
    have hlength : (l.enter d).opened.length = l.opened.length + 1 := List.length_append
    exact hlength ▸ Nat.le_succ_of_le h.opened
  later := List.forall_mem_cons.2 ⟨h.opened, h.later⟩
  pending := congrArg (l.opened.length :: ·) h.pending
  ran := h.ran
  skipped := h.skipped

/-- A scope that was opened since is left. -/
theorem leave (h : l₀.Since count (n :: inner) l) (flow : Flow Unit) : l₀.Since count inner (l.leave flow) := by
  obtain ⟨hn, hinner⟩ := List.forall_mem_cons.1 h.later
  have hpending : l.pending = n :: (inner ++ l₀.pending.drop count) := h.pending
  have hran : ∃ ns, l.ran ++ [n] = l₀.ran ++ ns ∧ ns.filter (· < l₀.opened.length) = l₀.pending.take count := by
    obtain ⟨ns, hns, hfilter⟩ := h.ran
    refine ⟨ns ++ [n], by rw [hns, List.append_assoc], ?_⟩
    rw [List.filter_append, hfilter, List.filter_singleton, decide_eq_false (Nat.not_lt.2 hn)]
    exact List.append_nil _
  have hskipped : ∃ ns, l.skipped ++ [n] = l₀.skipped ++ ns ∧ ∀ k ∈ ns, l₀.opened.length ≤ k := by
    obtain ⟨ns, hns, hlater⟩ := h.skipped
    refine ⟨ns ++ [n], by rw [hns, List.append_assoc], fun k hk => ?_⟩
    rcases List.mem_append.1 hk with hk | hk
    · exact hlater k hk
    · exact List.mem_singleton.1 hk ▸ hn
  cases flow with
  | done =>
    rw [leave_done hpending]
    exact ⟨h.opened, hinner, rfl, hran, h.skipped⟩
  | unwinding =>
    rw [leave_unwinding hpending]
    exact ⟨h.opened, hinner, rfl, hran, h.skipped⟩
  | resuming =>
    rw [leave_resuming hpending]
    exact ⟨h.opened, hinner, rfl, h.ran, hskipped⟩
  | ended =>
    rw [leave_ended hpending]
    exact ⟨h.opened, hinner, rfl, h.ran, h.skipped⟩

/-- An unwind leaves the innermost scope that was pending before. -/
theorem unwind (h : l₀.Since count [] l) (hlt : ∀ n ∈ l₀.pending, n < l₀.opened.length)
    (hcount : count < l₀.pending.length) (payload : Payload) :
    l₀.Since (count + 1) [] (l.leave (.unwinding payload)) := by
  have hpending : l.pending = l₀.pending[count] :: l₀.pending.drop (count + 1) := by
    rw [h.pending, List.nil_append, List.drop_eq_getElem_cons hcount]
  rw [leave_unwinding hpending]
  refine ⟨h.opened, nofun, rfl, ?_, h.skipped⟩
  obtain ⟨ns, hns, hfilter⟩ := h.ran
  refine ⟨ns ++ [l₀.pending[count]], by rw [hns, List.append_assoc], ?_⟩
  rw [List.filter_append, hfilter, List.filter_singleton, decide_eq_true (hlt _ (List.getElem_mem hcount)),
    List.take_succ_eq_append_getElem hcount]
  rfl

end Ledger.Since

/-- A run above other frames touches no scope that was there before it. -/
theorem since_of_recorded {l₀ : Ledger} {count : Nat} {inner : List Nat} {p q : Point × Ledger}
    (h : l₀.Since count inner p.2) (hinner : inner.length = (scopesOf p.1.frames).length)
    (hr : Recorded inline p q) :
    ∃ inner', l₀.Since count inner' q.2 ∧ inner'.length = (scopesOf q.1.frames).length := by
  induction hr with
  | refl => exact ⟨inner, h, hinner⟩
  | tail _ hs ih =>
    obtain ⟨inner', hsince, hlength⟩ := ih
    rw [hs.2]
    rcases record_cases hs.1 with ⟨d, hscopes, hrecord⟩ | ⟨flow, d, fs, m, hmid, hscopes, hrecord⟩ | ⟨hscopes, hrecord⟩
    · rw [hrecord, hscopes]
      exact ⟨_, hsince.enter d, congrArg (· + 1) hlength⟩
    · rw [hrecord, hscopes]
      rw [hmid] at hlength
      obtain ⟨n, ns, rfl⟩ := List.exists_cons_of_length_eq_add_one hlength
      exact ⟨ns, hsince.leave flow, Nat.succ.inj hlength⟩
    · rw [hrecord, hscopes]
      exact ⟨inner', hsince, hlength⟩

/-- **A statement leaves all scopes that were open before it as they are.** -/
theorem recorded_run (inline : Bool) (s : Statement) (fs : List Frame) (m : Machine World) {l₀ l : Ledger}
    {count : Nat} (h : l₀.Since count [] l) :
    ∃ l', Recorded inline (⟨.run s, fs, m⟩, l) (.after fs (s.run inline m), l') ∧ l₀.Since count [] l' := by
  obtain ⟨l', hr⟩ := exists_recorded (reaches_run inline s [] m) l
  obtain ⟨inner, hsince, hlength⟩ := since_of_recorded h rfl hr
  obtain rfl : inner = [] := List.eq_nil_of_length_eq_zero hlength
  exact ⟨l', recorded_above hr fs, hsince⟩

/-! ## Jumps -/

/-- A jump leaves the `count` innermost scopes. -/
def Ledger.skip (l : Ledger) (count : Nat) : Ledger :=
  { l with pending := l.pending.drop count, skipped := l.skipped ++ l.pending.take count }

theorem Ledger.skip_zero (l : Ledger) : l.skip 0 = l := by
  simp only [skip, List.drop_zero, List.take_zero, List.append_nil]

theorem Ledger.skip_leave {l : Ledger} {n : Nat} {ns : List Nat} (h : l.pending = n :: ns) (point : ResumePoint)
    (count : Nat) : (l.leave (.resuming point)).skip count = l.skip (count + 1) := by
  rw [leave_resuming h]
  simp only [skip, h, List.drop_succ_cons, List.take_succ_cons, List.append_assoc, List.singleton_append]

theorem recorded_jump (inline : Bool) {gs : List Frame} (hb : Bare gs) (fs : List Frame) (point : ResumePoint)
    (m : Machine World) (l : Ledger) (hl : (scopesOf gs).length ≤ l.pending.length) :
    Recorded inline (⟨.back (.resuming point), gs ++ fs, m⟩, l)
      (⟨.back (.resuming point), fs, m⟩, l.skip (scopesOf gs).length) := by
  induction gs generalizing l with
  | nil =>
    rw [show (scopesOf []).length = 0 from rfl, l.skip_zero]
    exact .refl
  | cons g gs ih =>
    have hgs : Bare gs := fun f hf => hb f (.tail g hf)
    cases g with
    | scope d =>
      obtain ⟨n, ns, hpending⟩ := List.exists_cons_of_length_pos (Nat.lt_of_lt_of_le (Nat.succ_pos _) hl)
      have hlength : (scopesOf gs).length + 1 ≤ l.pending.length := hl
      have hjump := ih hgs (l.leave (.resuming point)) (by
        rw [Ledger.pending_leave hpending]
        rw [hpending] at hlength
        exact Nat.le_of_succ_le_succ hlength)
      rw [Ledger.skip_leave hpending] at hjump
      exact Recorded.head rfl hjump
    | region before exit => exact (hb _ (.head gs) point).elim
    | parent p => exact (hb _ (.head gs) point).elim
    | next | watch | reraise | dropping | main => exact Recorded.head rfl (ih hgs l hl)

/-- The innermost region is the first frame that stops a jump. -/
theorem split_innermost {fs rest : List Frame} {before : Thread} {exit : Exit}
    (h : innermost? fs = some (before, exit, rest)) : ∃ gs, fs = gs ++ .region before exit :: rest ∧ Bare gs := by
  induction fs with
  | nil => cases h
  | cons f fs ih =>
    cases f with
    | region before exit =>
      cases h
      exact ⟨[], rfl, fun g hg => absurd hg List.not_mem_nil⟩
    | parent p => cases h
    | next | watch | reraise | scope | dropping | main =>
      obtain ⟨gs, rfl, hb⟩ := ih h
      exact ⟨_ :: gs, rfl, List.forall_mem_cons.2 ⟨fun _ => trivial, hb⟩⟩

/-- **A fault that is intercepted skips the scopes inside the innermost region and runs no destructor.** -/
theorem recorded_fault {c : Point} {l : Ledger} {s : Signal} {f : Fault} (hf : c.Faults s f)
    (hd : c.Delivers inline f) (hst : Stacked .fresh c.marks c.machine.thread) (hl : l.Accounts c) :
    ∃ gs before exit fs m, c.frames = gs ++ .region before exit :: fs ∧ Bare gs ∧
      Recorded inline (c, l) (⟨.landed (.fault f) exit, fs, m⟩, l.skip (scopesOf gs).length) := by
  obtain ⟨hregions, hu⟩ := (hf.delivers_iff inline hst).1.1 hd
  obtain ⟨before, exit, fs, hi, -⟩ := hf.jumps inline hst hregions hu
  have hcur := hst.current_eq
  rw [Point.marks, innermost?_eq_some hi] at hcur
  change c.machine.thread.current = some before.nextPoint at hcur
  obtain ⟨gs, hgs, hb⟩ := split_innermost hi
  refine ⟨gs, before, exit, fs, landing before c.machine f, hgs, hb, ?_⟩
  rcases hf.step inline with ⟨point, hc, -, hstep⟩ | ⟨hno, -⟩
  · obtain rfl : point = before.nextPoint := Option.some.inj (hc.symm.trans hcur)
    have hrecord : c.record l = l := by
      obtain ⟨i, hi, -⟩ := hf
      obtain ⟨control, frames, m⟩ := c
      cases hi
      rfl
    have hlength : (scopesOf gs).length ≤ l.pending.length := by
      rw [hl.length_pending, hgs, scopesOf_append, List.length_append]
      exact Nat.le_add_right _ _
    have hjump := recorded_jump inline hb (.region before exit :: fs) before.nextPoint
      (jumping c.machine f) l hlength
    rw [← hgs] at hjump
    have hfirst := Recorded.single hstep l
    rw [hrecord] at hfirst
    exact hfirst.trans (hjump.trans (Recorded.single (leaves_jumping before exit fs c.machine f) _))
  · rw [hcur, hu] at hno
    rcases hno with hno | hno <;> cases hno

/-! ## Unwinds -/

/-- Frames that stop no unwind. -/
def Yielding (fs : List Frame) : Prop := ∀ g ∈ fs, ∀ payload, g.Passes (.unwinding payload) ∨ ∃ d, g = .scope d

/-- An unwind passes such frames, or a destructor on its way is not done. -/
theorem carries_or_stops (inline : Bool) {fs : List Frame} (hy : Yielding fs) (payload : Payload) (m : Machine World) :
    (∃ m', Carries inline (.unwinding payload) fs m m') ∨
    ∃ gs d rest m', fs = gs ++ .scope d :: rest ∧ Carries inline (.unwinding payload) gs m m' ∧
      (d.run inline m').1 ≠ .done () := by
  induction fs generalizing m with
  | nil => exact .inl ⟨m, .arrived _ m⟩
  | cons f fs ih =>
    obtain ⟨hf, hfs⟩ := List.forall_mem_cons.1 hy
    rcases hf payload with hpass | ⟨d, rfl⟩
    · rcases ih hfs m with ⟨m', hcarry⟩ | ⟨gs, d, rest, m', rfl, hcarry, hd⟩
      · exact .inl ⟨m', .pass hpass hcarry⟩
      · exact .inr ⟨f :: gs, d, rest, m', rfl, .pass hpass hcarry, hd⟩
    · rcases hrun : d.run inline m with ⟨flow, m₁⟩
      by_cases hdone : flow = .done ()
      · subst hdone
        rcases ih hfs m₁ with ⟨m', hcarry⟩ | ⟨gs, d', rest, m', rfl, hcarry, hd⟩
        · exact .inl ⟨m', .drop hrun hcarry⟩
        · exact .inr ⟨.scope d :: gs, d', rest, m', rfl, .drop hrun hcarry, hd⟩
      · exact .inr ⟨[], d, fs, m, rfl, .arrived _ m, by rwa [hrun]⟩

/-- Where a destructor is not done, the unwind that it runs for does not go on. -/
theorem exists_resume_dropping (inline : Bool) (payload : Payload) (fs : List Frame) {r : Flow Unit × Machine World}
    (h : r.1 ≠ .done ()) : ∃ flow m, (Point.after (.dropping payload :: fs) r).step inline = some ⟨.back flow, fs, m⟩ ∧
      ¬ Closes flow := by
  rcases r with ⟨_ | _ | point | ending, m⟩
  · exact absurd rfl h
  · exact ⟨.ended .aborted, m, rfl, id⟩
  · exact ⟨.resuming point, m, rfl, id⟩
  · exact ⟨.ended ending, m, rfl, id⟩

/-- **An unwind runs the destructors on its way, each once and the innermost one first.** -/
theorem recorded_carries {payload : Payload} {gs : List Frame} {m m' : Machine World}
    (hc : Carries inline (.unwinding payload) gs m m') (fs : List Frame) {l₀ l : Ledger} {count : Nat}
    (h : l₀.Since count [] l) (hlt : ∀ n ∈ l₀.pending, n < l₀.opened.length)
    (hcount : count + (scopesOf gs).length ≤ l₀.pending.length) :
    ∃ l', Recorded inline (⟨.back (.unwinding payload), gs ++ fs, m⟩, l) (⟨.back (.unwinding payload), fs, m'⟩, l') ∧
      l₀.Since (count + (scopesOf gs).length) [] l' := by
  generalize hflow : Flow.unwinding payload = flow at hc
  induction hc generalizing l count with
  | arrived => exact ⟨l, .refl, h⟩
  | @pass flow g gs m m' hg _ ih =>
    subst hflow
    cases g with
    | next | watch | reraise =>
      obtain ⟨l', hr, hsince⟩ := ih h hcount rfl
      exact ⟨l', Recorded.head rfl hr, hsince⟩
    | region | scope | dropping | main | parent => exact hg.elim
  | @drop payload' d gs m m₁ m' hd _ ih =>
    cases hflow
    rw [scopesOf_scope, List.length_cons] at hcount ⊢
    -- The scope is left, its destructor runs, and the unwind goes on.
    have hleft := h.unwind hlt (by omega) payload
    obtain ⟨l₁, hrun, hdone⟩ := recorded_run inline d (.dropping payload :: (gs ++ fs)) m hleft
    rw [hd] at hrun
    obtain ⟨l', hr, hsince⟩ := ih hdone (by omega) rfl
    refine ⟨l', Recorded.head rfl (hrun.trans (Recorded.head rfl hr)), ?_⟩
    rwa [Nat.add_right_comm] at hsince

/-! ## Runs -/

/--
The innermost open scope is left. Its destructor is what runs next if the body is done or unwinds, and it does not run
if control jumps or the process ends.
-/
def Point.LeavesScope (inline : Bool) (c : Point) (l : Ledger) : Prop :=
  ∀ flow d fs m, c = ⟨.back flow, .scope d :: fs, m⟩ →
    ∃ n ns, l.pending = n :: ns ∧ l.opened[n]? = some d ∧
      match flow with
      | .done _ =>
        c.step inline = some ⟨.run d, fs, m⟩ ∧ c.record l = { l with pending := ns, ran := l.ran ++ [n] }
      | .unwinding payload =>
        c.step inline = some ⟨.run d, .dropping payload :: fs, m⟩ ∧
          c.record l = { l with pending := ns, ran := l.ran ++ [n] }
      | .resuming _ =>
        c.step inline = some ⟨.back flow, fs, m⟩ ∧
          c.record l = { l with pending := ns, skipped := l.skipped ++ [n] }
      | .ended _ =>
        c.step inline = some ⟨.back flow, fs, m⟩ ∧
          c.record l = { l with pending := ns, abandoned := l.abandoned ++ [n] }

/--
An unwind runs the destructors of all scopes on its way to what stops it, and a region that catches it goes on after
that; otherwise a jump or the end of the process takes its place in one of these destructors.
-/
def Point.RunsDestructors (inline : Bool) (c : Point) (l : Ledger) : Prop :=
  ∀ payload gs fs m, c = ⟨.back (.unwinding payload), gs ++ fs, m⟩ → Yielding gs →
    (∃ m' l', Recorded inline (c, l) (⟨.back (.unwinding payload), fs, m'⟩, l') ∧
      l.Since (scopesOf gs).length [] l' ∧
      ∀ before exit rest, fs = .region before exit :: rest →
        ∃ m₁, Recorded inline (c, l) (⟨.landed (.raised payload.exception) exit, rest, m₁⟩, l')) ∨
    ∃ inner d outer flow m' l', gs = inner ++ .scope d :: outer ∧
      Recorded inline (c, l) (⟨.back flow, outer ++ fs, m'⟩, l') ∧
      l.Since ((scopesOf inner).length + 1) [] l' ∧ ¬ Closes flow

/-- A fault that is intercepted skips the destructors of the scopes inside the innermost region. -/
def Point.SkipsDestructors (inline : Bool) (c : Point) (l : Ledger) : Prop :=
  ∀ s f, c.Faults s f → c.Delivers inline f →
    ∃ gs before exit fs m, c.frames = gs ++ .region before exit :: fs ∧ Bare gs ∧
      Recorded inline (c, l) (⟨.landed (.fault f) exit, fs, m⟩, l.skip (scopesOf gs).length)

/-- What a region has caught unwinds again after a cleanup, with the same scopes still open, whatever it was. -/
def Point.UnwindsAgain (inline : Bool) (c : Point) (l : Ledger) : Prop :=
  ∀ landing e cleanup fs m m₁, c = ⟨.landed landing (.cleanUp cleanup), fs, m⟩ → landing.exception? = some e →
    cleanup.run inline m = (.done (), m₁) →
      ∃ m' l', Recorded inline (c, l) (⟨.back (.unwinding (.raised e)), fs, m'⟩, l') ∧ l.Since 0 [] l'

/-- What holds at a point of a run with its ledger. -/
structure Point.Orderly (inline : Bool) (c : Point) (l : Ledger) : Prop where
  accounts : l.Accounts c
  /-- No destructor runs twice. -/
  nodup : l.ran.Nodup
  /-- At any later point a scope that is pending now is so still, or its destructor has run if and only if it should. -/
  fates : ∀ q, Recorded inline (c, l) q → ∀ n ∈ l.pending, n ∈ q.2.pending ∨ LeftBetween inline n (c, l) q
  leaves : c.LeavesScope inline l
  unwinds : c.RunsDestructors inline l
  jumps : c.SkipsDestructors inline l
  again : c.UnwindsAgain inline l

section Orderly

variable {c : Point} {l : Ledger}

theorem Ledger.Accounts.leavesScope (h : l.Accounts c) : c.LeavesScope inline l := by
  rintro flow d fs m rfl
  obtain ⟨n, ns, hpending, hn, -⟩ := h.pending_eq_cons (scopesOf_scope d fs)
  refine ⟨n, ns, hpending, hn, ?_⟩
  cases flow with
  | done => exact ⟨rfl, leave_done hpending⟩
  | unwinding payload => exact ⟨rfl, leave_unwinding hpending payload⟩
  | resuming point => exact ⟨rfl, leave_resuming hpending point⟩
  | ended ending => exact ⟨rfl, leave_ended hpending ending⟩

theorem Ledger.Accounts.runsDestructors (h : l.Accounts c) : c.RunsDestructors inline l := by
  rintro payload gs fs m rfl hy
  have hlength : (scopesOf gs).length ≤ l.pending.length := by
    rw [h.length_pending, scopesOf_append, List.length_append]
    exact Nat.le_add_right _ _
  rcases carries_or_stops inline hy payload m with ⟨m', hcarry⟩ | ⟨inner, d, outer, m', rfl, hcarry, hd⟩
  · obtain ⟨l', hr, hsince⟩ := recorded_carries hcarry fs (.refl l) (fun _ => h.lt) (by omega)
    rw [Nat.zero_add] at hsince
    refine .inl ⟨m', l', hr, hsince, ?_⟩
    rintro before exit rest rfl
    exact ⟨_, hr.tail ⟨rfl, rfl⟩⟩
  · rw [scopesOf_append, List.length_append, scopesOf_scope, List.length_cons] at hlength
    rw [List.append_assoc]
    obtain ⟨l', hr, hsince⟩ := recorded_carries hcarry (.scope d :: outer ++ fs) (.refl l) (fun _ => h.lt) (by omega)
    have hleft := hsince.unwind (fun _ => h.lt) (by omega) payload
    rw [Nat.zero_add] at hleft
    obtain ⟨l₂, hrun, hsince₂⟩ := recorded_run inline d (.dropping payload :: (outer ++ fs)) m' hleft
    obtain ⟨flow, m₂, hstep, hflow⟩ := exists_resume_dropping inline payload (outer ++ fs) hd
    have hdrop : Recorded inline (⟨.back (.unwinding payload), .scope d :: outer ++ fs, m'⟩, l')
        (⟨.back flow, outer ++ fs, m₂⟩, l₂) := Recorded.head rfl (hrun.trans (Recorded.head hstep .refl))
    exact .inr ⟨inner, d, outer, flow, m₂, l₂, rfl, hr.trans hdrop, hsince₂, hflow⟩

theorem unwindsAgain (c : Point) (l : Ledger) : c.UnwindsAgain inline l := by
  rintro landing e cleanup fs m m₁ rfl he hrun
  obtain ⟨l', hr, hsince⟩ := recorded_run inline cleanup (.reraise landing :: fs) m (.refl l)
  rw [hrun] at hr
  exact ⟨_, l', Recorded.head rfl (hr.trans (Recorded.single (Originates.again fs m₁ he).step l')), hsince⟩

end Orderly

/--
**Destructors run once, or a fault has skipped them.** In every run each scope that was opened is pending, has had its
destructor run once, or was left without it, by a jump or by the end of the process. A scope that is left normally or by
an unwind runs its destructor then, and an unwind runs all those on its way, the innermost one first, before the region
that catches it goes on. A fault that is intercepted skips those inside the innermost region; the others are still
pending, also when a cleanup has run and the fault unwinds from there, and each of them has its fate when it is left.
-/
theorem destructors_run_once (inline : Bool) (program : Statement) (process : Process) (world : World) :
    (∃ l, Recorded inline (program.initial process world, .empty)
        (.after [] (program.run inline ⟨process, .fresh, world⟩), l) ∧
      (l.ran ++ l.skipped ++ l.abandoned).Perm (List.range l.opened.length)) ∧
    ∀ c l, Recorded inline (program.initial process world, .empty) (c, l) → c.Orderly inline l := by
  have haccounts : ∀ {c l}, Recorded inline (program.initial process world, .empty) (c, l) → l.Accounts c :=
    fun hr => accounts_of_recorded (accounts_empty program process world) hr
  refine ⟨?_, fun c l hr => ?_⟩
  · obtain ⟨l, hr⟩ := exists_recorded (reaches_run inline program [] ⟨process, .fresh, world⟩) .empty
    have h := haccounts hr
    have hpending : l.pending = [] := List.eq_nil_of_length_eq_zero h.length_pending
    have honce := h.once
    rw [Ledger.all, hpending] at honce
    exact ⟨l, hr, honce⟩
  · have h := haccounts hr
    have hfits := fits_of_reaches (fits_run program ⟨process, .fresh, world⟩) hr.reaches
    exact {
      accounts := h
      nodup := h.nodup_ran
      fates := fun q hq n hn => (pending_or_left h hq hn).imp_right And.right
      leaves := h.leavesScope
      unwinds := h.runsDestructors
      jumps := fun s f hf hd => recorded_fault hf hd (hfits.stacked_of_calm hf.calm) h
      again := unwindsAgain c l }

/-- A division faults in the inner one of two scopes, and there is a cleanup between them. -/
def faultInScopes : Statement :=
  .protect (.withDestructor (.perform (.log (.name "outer")))
    (.tryFinally (.withDestructor (.perform (.log (.name "inner"))) (.perform (.trap .division)))
      (.perform (.log (.name "cleanup")))))

/-- The fault skips the inner scope, and the destructor of the outer one runs when it is raised again. -/
theorem destructors_run_once_faultInScopes :
    (∃ c l, Recorded false (faultInScopes.initial Process.start.init .empty, .empty) (c, l) ∧
      c.Faults .fpe Trap.division.fault ∧ l.pending = [1, 0] ∧ c.Orderly false l) ∧
    ∃ c l, Recorded false (faultInScopes.initial Process.start.init .empty, .empty) (c, l) ∧
      c.step false = none ∧ l.ran = [0] ∧ l.skipped = [1] ∧ c.Orderly false l := by
  have h := (destructors_run_once false faultInScopes Process.start.init .empty).2
  have hfault : Recorded false (faultInScopes.initial Process.start.init .empty, .empty)
      (⟨.run (.perform (.trap .division)), _, _⟩, _) :=
    Recorded.head rfl (Recorded.head rfl (Recorded.head rfl (Recorded.single rfl _)))
  have hend : Recorded false (faultInScopes.initial Process.start.init .empty, .empty) (⟨.back (.done ()), [], _⟩, _) :=
    hfault.trans (Recorded.head rfl (Recorded.head rfl (Recorded.head rfl (Recorded.head rfl (Recorded.head rfl
      (Recorded.head rfl (Recorded.head rfl (Recorded.head rfl (Recorded.head rfl (Recorded.head rfl
        (Recorded.single rfl _)))))))))))
  exact ⟨⟨_, _, hfault, ⟨_, rfl, rfl, rfl⟩, rfl, h _ _ hfault⟩, _, _, hend, rfl, rfl, rfl, h _ _ hend⟩

end ManagedRuntime.Program
