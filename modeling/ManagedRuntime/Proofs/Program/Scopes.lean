import Mathlib.Data.List.Perm.Basic
import ManagedRuntime.Proofs.Program.Origins

/-!
# The scopes of a run

The scopes with a destructor are numbered in the order in which they are opened, and a ledger keeps what becomes of
each of them.

* `Ledger` : what has become of the scopes of a run; `Point.record` : what a step adds to it;
* `Recorded` : the steps of a run with its ledger;
* `record_cases` : a step opens a scope, leaves the innermost one, or is about something else;
* `Ledger.Accounts` : a ledger has every scope once, and the pending ones are those that are open;
* `accounts_of_recorded` : the ledger of a run is of this kind;
* `pending_or_left` : a scope is pending until it is left, and then it is decided whether its destructor runs.
-/

namespace ManagedRuntime.Program

open Execution

set_option autoImplicit false

variable {inline : Bool}

/-! ## Ledgers -/

structure Ledger where
  /-- The destructors of all scopes, the first scope being the one that was opened first. -/
  opened : List Statement
  /-- The scopes that are open, the innermost one first. -/
  pending : List Nat
  /-- The scopes whose destructor has begun to run, in this order. -/
  ran : List Nat
  /-- The scopes that a jump has left. -/
  skipped : List Nat
  /-- The scopes that were open when the process ended. -/
  abandoned : List Nat

namespace Ledger

def empty : Ledger := ⟨[], [], [], [], []⟩

/-- A scope is opened. -/
def enter (l : Ledger) (destructor : Statement) : Ledger :=
  { l with opened := l.opened ++ [destructor], pending := l.opened.length :: l.pending }

/-- The innermost scope is left; what it is left by decides whether its destructor runs. -/
def leave (l : Ledger) (flow : Flow Unit) : Ledger :=
  match l.pending with
  | [] => l
  | n :: ns =>
    match flow with
    | .done _ | .unwinding _ => { l with pending := ns, ran := l.ran ++ [n] }
    | .resuming _ => { l with pending := ns, skipped := l.skipped ++ [n] }
    | .ended _ => { l with pending := ns, abandoned := l.abandoned ++ [n] }

/-- All scopes that the ledger knows of. -/
def all (l : Ledger) : List Nat := l.pending ++ l.ran ++ l.skipped ++ l.abandoned

section Leave

variable {l : Ledger} {n : Nat} {ns : List Nat}

theorem leave_done (h : l.pending = n :: ns) : l.leave (.done ()) = { l with pending := ns, ran := l.ran ++ [n] } := by
  simp only [leave, h]

theorem leave_unwinding (h : l.pending = n :: ns) (payload : Payload) :
    l.leave (.unwinding payload) = { l with pending := ns, ran := l.ran ++ [n] } := by
  simp only [leave, h]

theorem leave_resuming (h : l.pending = n :: ns) (point : ResumePoint) :
    l.leave (.resuming point) = { l with pending := ns, skipped := l.skipped ++ [n] } := by
  simp only [leave, h]

theorem leave_ended (h : l.pending = n :: ns) (ending : Ending) :
    l.leave (.ended ending) = { l with pending := ns, abandoned := l.abandoned ++ [n] } := by
  simp only [leave, h]

theorem pending_leave (h : l.pending = n :: ns) (flow : Flow Unit) : (l.leave flow).pending = ns := by
  cases flow <;> simp only [leave, h]

theorem opened_leave (l : Ledger) (flow : Flow Unit) : (l.leave flow).opened = l.opened := by
  unfold leave
  cases l.pending <;> cases flow <;> rfl

/-- A scope that is left is not lost. -/
theorem all_leave (l : Ledger) (flow : Flow Unit) : (l.leave flow).all.Perm l.all := by
  cases h : l.pending with
  | nil => simp only [leave, h, List.Perm.refl]
  | cons n ns =>
    rw [List.perm_iff_count]
    intro k
    cases flow <;> simp only [leave, all, h, List.count_append, List.count_cons, List.count_nil] <;> omega

end Leave

end Ledger

/-- What a step does to the scopes. -/
def Point.record : Point → Ledger → Ledger
  | ⟨.run (.withDestructor destructor _), _, _⟩, l => l.enter destructor
  | ⟨.back flow, .scope _ :: _, _⟩, l => l.leave flow
  | _, l => l

/-- A run from a point and a ledger to others. -/
abbrev Recorded (inline : Bool) : Point × Ledger → Point × Ledger → Prop :=
  Relation.ReflTransGen fun p q => p.1.step inline = some q.1 ∧ q.2 = p.1.record p.2

theorem Recorded.single {c c' : Point} (h : c.step inline = some c') (l : Ledger) :
    Recorded inline (c, l) (c', c.record l) := Relation.ReflTransGen.single ⟨h, rfl⟩

theorem Recorded.head {c c' : Point} {l : Ledger} {q : Point × Ledger} (h : c.step inline = some c')
    (hr : Recorded inline (c', c.record l) q) : Recorded inline (c, l) q := Relation.ReflTransGen.head ⟨h, rfl⟩ hr

theorem Recorded.reaches {p q : Point × Ledger} (h : Recorded inline p q) : Reaches inline p.1 q.1 := by
  induction h with
  | refl => exact .refl
  | tail _ hs ih => exact ih.tail hs.1

/-- Every run has a ledger. -/
theorem exists_recorded {c c' : Point} (h : Reaches inline c c') (l : Ledger) :
    ∃ l', Recorded inline (c, l) (c', l') := by
  induction h with
  | refl => exact ⟨l, .refl⟩
  | tail _ hs ih =>
    obtain ⟨l', hr⟩ := ih
    exact ⟨_, hr.tail ⟨hs, rfl⟩⟩

/-! ## What a step does to the scopes -/

def Frame.destructor? : Frame → Option Statement
  | .scope destructor => some destructor
  | _ => none

/-- The destructors of the scopes that are open, the innermost one first. -/
def scopesOf (fs : List Frame) : List Statement := fs.filterMap Frame.destructor?

theorem scopesOf_scope (d : Statement) (fs : List Frame) : scopesOf (.scope d :: fs) = d :: scopesOf fs := rfl

theorem scopesOf_append (fs gs : List Frame) : scopesOf (fs ++ gs) = scopesOf fs ++ scopesOf gs :=
  List.filterMap_append

theorem frames_leaving (exit : Exit) (fs : List Frame) (r : Flow (Landing Unit) × Machine World) :
    (Point.leaving exit fs r).frames = fs := by
  rcases r with ⟨_ | _ | _ | _, m⟩ <;> rfl

/-- A step opens a scope, leaves the innermost one, or does nothing to scopes. -/
theorem record_cases {c c' : Point} (h : c.step inline = some c') :
    (∃ d, scopesOf c'.frames = d :: scopesOf c.frames ∧ ∀ l, c.record l = l.enter d) ∨
    (∃ flow d fs m, c = ⟨.back flow, .scope d :: fs, m⟩ ∧ scopesOf c'.frames = scopesOf fs ∧
      ∀ l, c.record l = l.leave flow) ∨
    (scopesOf c'.frames = scopesOf c.frames ∧ ∀ l, c.record l = l) := by
  rcases c with ⟨s | flow | ⟨landing, exit⟩, fs, m⟩
  · cases h
    cases s with
    | withDestructor d body => exact .inl ⟨d, rfl, fun _ => rfl⟩
    | nest count => cases count <;> exact .inr (.inr ⟨rfl, fun _ => rfl⟩)
    | times count => cases count <;> exact .inr (.inr ⟨rfl, fun _ => rfl⟩)
    | _ => exact .inr (.inr ⟨rfl, fun _ => rfl⟩)
  · cases fs with
    | nil => cases h
    | cons f fs =>
      cases h
      cases f with
      | scope d => exact .inr (.inl ⟨flow, d, fs, m, rfl, by cases flow <;> rfl, fun _ => rfl⟩)
      | region before exit =>
        have hframes := frames_leaving exit fs (land before (flow, m))
        exact .inr (.inr ⟨show scopesOf (Point.leaving exit fs _).frames = scopesOf fs by rw [hframes], fun _ => rfl⟩)
      | next | dropping => exact .inr (.inr ⟨by cases flow <;> rfl, fun _ => rfl⟩)
      | watch | reraise | main | parent => exact .inr (.inr ⟨rfl, fun _ => rfl⟩)
  · cases h
    refine .inr (.inr ⟨?_, fun _ => rfl⟩)
    cases exit with
    | handle | handleAndCleanUp =>
      simp only [Exit.step]
      split <;> rfl
    | report | cleanUp | goOn => rfl

/-- What a step does to the scopes does not depend on the frames below. -/
theorem record_above {c c' : Point} (h : c.step inline = some c') (fs : List Frame) (l : Ledger) :
    (c.above fs).record l = c.record l := by
  rcases c with ⟨s | flow | _, gs, m⟩
  · cases s <;> rfl
  · cases gs with
    | nil => cases h
    | cons g gs => cases g <;> rfl
  · rfl

theorem recorded_above {p q : Point × Ledger} (h : Recorded inline p q) (fs : List Frame) :
    Recorded inline (p.1.above fs, p.2) (q.1.above fs, q.2) := by
  induction h with
  | refl => exact .refl
  | tail _ hs ih => exact ih.tail ⟨step_above hs.1 fs, hs.2.trans (record_above hs.1 fs _).symm⟩

/-! ## Accounts -/

/-- A ledger knows what has become of all scopes when a run is at a point. -/
structure Ledger.Accounts (l : Ledger) (c : Point) : Prop where
  /-- Every scope is pending, has run, was skipped or abandoned, and only one of these once. -/
  once : l.all.Perm (List.range l.opened.length)
  /-- The pending scopes are those that are open. -/
  waiting : l.pending.map (fun n => l.opened[n]?) = (scopesOf c.frames).map some
  /-- A scope that is further in was opened later. -/
  innermost : l.pending.Pairwise (· > ·)
  alive : c.control.phase ≠ .ended → l.abandoned = []

namespace Ledger.Accounts

variable {l : Ledger} {c c' : Point}

theorem lt (h : l.Accounts c) {n : Nat} (hn : n ∈ l.pending) : n < l.opened.length := by
  have hall : n ∈ l.all := by simp only [all, List.mem_append, hn, true_or]
  exact List.mem_range.1 (h.once.mem_iff.1 hall)

theorem nodup_all (h : l.Accounts c) : l.all.Nodup := h.once.nodup_iff.2 List.nodup_range

theorem nodup_ran (h : l.Accounts c) : l.ran.Nodup := h.nodup_all.of_append_left.of_append_left.of_append_right

theorem length_pending (h : l.Accounts c) : l.pending.length = (scopesOf c.frames).length := by
  have hlength := congrArg List.length h.waiting
  rwa [List.length_map, List.length_map] at hlength

/-- The innermost open scope is the first one that is pending. -/
theorem pending_eq_cons (h : l.Accounts c) {d : Statement} {ds : List Statement} (hd : scopesOf c.frames = d :: ds) :
    ∃ n ns, l.pending = n :: ns ∧ l.opened[n]? = some d ∧ ns.map (fun n => l.opened[n]?) = ds.map some := by
  have hwaiting := h.waiting
  rw [hd, List.map_cons] at hwaiting
  obtain ⟨n, ns, hpending, hn, hns⟩ := List.map_eq_cons_iff.1 hwaiting
  exact ⟨n, ns, hpending, hn, hns⟩

theorem enter (h : l.Accounts c) {d : Statement} (hscopes : scopesOf c'.frames = d :: scopesOf c.frames)
    (halive : c'.control.phase ≠ .ended → c.control.phase ≠ .ended) : (l.enter d).Accounts c' where
  once := by
    have hrange : (l.opened.length :: l.all).Perm (List.range (l.opened.length + 1)) := by
      rw [List.range_succ]
      exact (h.once.cons _).trans (List.perm_append_singleton _ _).symm
    simpa [Ledger.enter, all] using hrange
  waiting := by
    rw [hscopes, List.map_cons, ← h.waiting]
    refine congrArg₂ List.cons (by simp [Ledger.enter]) (List.map_congr_left fun n hn => ?_)
    exact List.getElem?_append_left (h.lt hn)
  innermost := List.pairwise_cons.2 ⟨fun _ hn => h.lt hn, h.innermost⟩
  alive := fun hc => h.alive (halive hc)

theorem leave {flow : Flow Unit} {d : Statement} {fs : List Frame} {m : Machine World}
    (h : l.Accounts ⟨.back flow, .scope d :: fs, m⟩) (hscopes : scopesOf c'.frames = scopesOf fs)
    (halive : c'.control.phase ≠ .ended → (Control.back flow).phase ≠ .ended) : (l.leave flow).Accounts c' := by
  obtain ⟨n, ns, hpending, -, hns⟩ := h.pending_eq_cons (scopesOf_scope d fs)
  refine ⟨?_, ?_, ?_, fun hc => ?_⟩
  · rw [opened_leave]
    exact (all_leave l flow).trans h.once
  · rwa [pending_leave hpending, opened_leave, hscopes]
  · rw [pending_leave hpending]
    exact (List.pairwise_cons.1 (hpending ▸ h.innermost)).2
  · rw [← h.alive (halive hc)]
    cases flow with
    | done => rw [leave_done hpending]
    | unwinding => rw [leave_unwinding hpending]
    | resuming => rw [leave_resuming hpending]
    | ended => exact absurd rfl (halive hc)

theorem step (h : l.Accounts c) (hs : c.step inline = some c') : (c.record l).Accounts c' := by
  have halive : c'.control.phase ≠ .ended → c.control.phase ≠ .ended :=
    fun hc' hc => hc' ((moves_of_step hs).ended hc)
  rcases record_cases hs with ⟨d, hscopes, hrecord⟩ | ⟨flow, d, fs, m, rfl, hscopes, hrecord⟩ | ⟨hscopes, hrecord⟩
  · rw [hrecord]
    exact h.enter hscopes halive
  · rw [hrecord]
    exact h.leave hscopes halive
  · rw [hrecord]
    exact ⟨h.once, hscopes ▸ h.waiting, h.innermost, fun hc => h.alive (halive hc)⟩

end Ledger.Accounts

theorem accounts_of_recorded {p q : Point × Ledger} (h : p.2.Accounts p.1) (hr : Recorded inline p q) :
    q.2.Accounts q.1 := by
  induction hr with
  | refl => exact h
  | tail _ hs ih =>
    rw [hs.2]
    exact ih.step hs.1

theorem accounts_empty (program : Statement) (process : Process) (world : World) :
    Ledger.empty.Accounts (program.initial process world) where
  once := .refl _
  waiting := rfl
  innermost := .nil
  alive := fun _ => rfl

/-! ## Fates -/

/-- A scope that is left normally or by an unwind runs its destructor. -/
def Closes : Flow Unit → Prop
  | .done _ | .unwinding _ => True
  | .resuming _ | .ended _ => False

/-- The scope is no longer open. -/
structure Ledger.Settled (l : Ledger) (n : Nat) : Prop where
  known : n < l.opened.length
  left : n ∉ l.pending

section Settled

variable {l : Ledger} {n : Nat}

theorem Ledger.Settled.enter (h : l.Settled n) (d : Statement) : (l.enter d).Settled n where
  known := by
    have hlength : (l.enter d).opened.length = l.opened.length + 1 := List.length_append
    exact hlength ▸ Nat.lt_succ_of_lt h.known
  left := by
    intro hn
    rcases List.mem_cons.1 hn with rfl | hn
    · exact absurd h.known (Nat.lt_irrefl _)
    · exact h.left hn

/-- Another scope is left. -/
theorem Ledger.Settled.leave (h : l.Settled n) (flow : Flow Unit) :
    (l.leave flow).Settled n ∧ (n ∈ (l.leave flow).ran ↔ n ∈ l.ran) := by
  cases hpending : l.pending with
  | nil =>
    have hsame : l.leave flow = l := by simp only [Ledger.leave, hpending]
    rw [hsame]
    exact ⟨h, Iff.rfl⟩
  | cons k ns =>
    have hleft := h.left
    rw [hpending, List.mem_cons, not_or] at hleft
    refine ⟨⟨by rw [opened_leave]; exact h.known, by rw [pending_leave hpending]; exact hleft.2⟩, ?_⟩
    have hran : n ∈ l.ran ++ [k] ↔ n ∈ l.ran := by
      rw [List.mem_append, List.mem_singleton, or_iff_left hleft.1]
    cases flow with
    | done => rwa [leave_done hpending]
    | unwinding => rwa [leave_unwinding hpending]
    | resuming => rw [leave_resuming hpending]
    | ended => rw [leave_ended hpending]

/-- What has become of a scope does not change any more. -/
theorem Ledger.Settled.record {c c' : Point} (h : l.Settled n) (hs : c.step inline = some c') :
    (c.record l).Settled n ∧ (n ∈ (c.record l).ran ↔ n ∈ l.ran) := by
  rcases record_cases hs with ⟨d, -, hrecord⟩ | ⟨flow, -, -, -, -, -, hrecord⟩ | ⟨-, hrecord⟩
  · rw [hrecord]
    exact ⟨h.enter d, Iff.rfl⟩
  · rw [hrecord]
    exact h.leave flow
  · rw [hrecord]
    exact ⟨h, Iff.rfl⟩

/-- The innermost open scope is left, and its destructor runs or not. -/
theorem Ledger.Accounts.settled {c : Point} {ns : List Nat} (h : l.Accounts c) (hpending : l.pending = n :: ns)
    (flow : Flow Unit) : (l.leave flow).Settled n ∧ (n ∈ (l.leave flow).ran ↔ Closes flow) := by
  have hlt : n < l.opened.length := h.lt (hpending ▸ List.mem_cons_self)
  have hinner := h.innermost
  rw [hpending, List.pairwise_cons] at hinner
  have hns : n ∉ ns := fun hn => Nat.lt_irrefl n (hinner.1 n hn)
  refine ⟨⟨by rwa [opened_leave], by rwa [pending_leave hpending]⟩, ?_⟩
  have hran : n ∉ l.ran := by
    intro hn
    have happend := h.nodup_all.of_append_left.of_append_left
    exact (List.nodup_append.1 happend).2.2 n (hpending ▸ List.mem_cons_self) n hn rfl
  cases flow with
  | done =>
    rw [leave_done hpending]
    exact iff_of_true (List.mem_append_right _ (List.mem_singleton_self n)) trivial
  | unwinding =>
    rw [leave_unwinding hpending]
    exact iff_of_true (List.mem_append_right _ (List.mem_singleton_self n)) trivial
  | resuming =>
    rw [leave_resuming hpending]
    exact iff_of_false hran id
  | ended =>
    rw [leave_ended hpending]
    exact iff_of_false hran id

end Settled

/-- The scope is left on the way, and it depends on what it is left by whether its destructor has run in the end. -/
def LeftBetween (inline : Bool) (n : Nat) (p q : Point × Ledger) : Prop :=
  ∃ flow d fs m l, Recorded inline p (⟨.back flow, .scope d :: fs, m⟩, l) ∧ l.pending.head? = some n ∧
    Recorded inline (⟨.back flow, .scope d :: fs, m⟩, l) q ∧ (n ∈ q.2.ran ↔ Closes flow)

/-- **A scope is pending until it is left, and how it is left decides its fate.** -/
theorem pending_or_left {p q : Point × Ledger} (hp : p.2.Accounts p.1) (hr : Recorded inline p q) {n : Nat}
    (hn : n ∈ p.2.pending) : n ∈ q.2.pending ∨ q.2.Settled n ∧ LeftBetween inline n p q := by
  induction hr with
  | refl => exact .inl hn
  | @tail mid q hmid hs ih =>
    obtain ⟨c, l⟩ := mid
    obtain ⟨c', l'⟩ := q
    have haccounts : l.Accounts c := accounts_of_recorded hp hmid
    obtain ⟨hstep, rfl⟩ : c.step inline = some c' ∧ l' = c.record l := hs
    rcases ih with hpending | ⟨hsettled, flow, d, fs, m, l₁, h₁, hhead, h₂, hran⟩
    · rcases record_cases hstep with ⟨d, -, hrecord⟩ | ⟨flow, d, fs, m, rfl, -, hrecord⟩ | ⟨-, hrecord⟩
      · rw [hrecord]
        exact .inl (List.mem_cons_of_mem _ hpending)
      · obtain ⟨k, ns, hk, -⟩ := haccounts.pending_eq_cons (scopesOf_scope d fs)
        have hlast := Recorded.single hstep l
        rw [hrecord] at hlast ⊢
        rcases List.mem_cons.1 (hk ▸ hpending) with rfl | hns
        · obtain ⟨hsettled, hran⟩ := haccounts.settled hk flow
          exact .inr ⟨hsettled, flow, d, fs, m, l, hmid, congrArg List.head? hk, hlast, hran⟩
        · exact .inl (by rwa [Ledger.pending_leave hk])
      · rw [hrecord]
        exact .inl hpending
    · obtain ⟨hsettled', hran'⟩ := hsettled.record hstep
      exact .inr ⟨hsettled', flow, d, fs, m, l₁, h₁, hhead, h₂.tail ⟨hstep, rfl⟩, hran'.trans hran⟩

end ManagedRuntime.Program
