import ManagedRuntime.Program.Run
import ManagedRuntime.Proofs.SharedArray.Refinement

/-!
# Raising forms and refusing forms

An operation that can fail comes in two forms. One answers the failure, the other raises its exception.

* `Agrees` : the raising form does what the other one answers, and a failure of either changes nothing.
* `Checks` : which arguments a form accepts, and how it refuses the others.
* `Store.perform_eq`, `Text.Command.perform_eq` : both forms of the commands on arrays and texts come to the same.
* `raising_forms_agree` : every pair of forms agrees, in a program as well, and what they accept.
-/

namespace ManagedRuntime

set_option autoImplicit false

open Execution

/-! ## Two forms of an operation -/

namespace Execution

variable {ω τ α : Type}

/-- The machine on which the exception of a failure has begun to unwind. -/
def raised (f : Failure) (m : Machine ω) : Machine ω :=
  { m with thread := (m.thread.record (.ofFailure f)).beginUnwind }

/-- A raising form, and one that answers a value or a failure together with the world after it. -/
structure Agrees (raising : Action ω α) (refusing : ω → Except Failure α × ω) : Prop where
  completes : ∀ m m' a, raising m = (.done a, m') ↔
    (refusing m.world).1 = .ok a ∧ m' = { m with world := (refusing m.world).2 }
  raises : ∀ m f, (refusing m.world).1 = .error f →
    raising m = (.unwinding (.raised (.ofFailure f)), raised f m)
  refuses : ∀ w f, (refusing w).1 = .error f → (refusing w).2 = w

/-- A form accepts its arguments under a condition, and refuses them with one failure otherwise. -/
structure Checks (answer : Except Failure α) (accepted : Prop) (refusal : Failure) : Prop where
  accepts : accepted → ∃ a, answer = .ok a
  refuses : ¬accepted → answer = .error refusal

/-- The action that keeps the world of an answer, and raises the failure of an answer. -/
def raisingForm (refusing : ω → Except Failure α × ω) : Action ω α := do
  let (result, w) := refusing (← Action.getWorld)
  Action.onWorld fun _ => w
  orRaise result

theorem raisingForm_of_ok {refusing : ω → Except Failure α × ω} {m : Machine ω} {a : α} {w : ω}
    (h : refusing m.world = (.ok a, w)) : raisingForm refusing m = (.done a, { m with world := w }) := by
  show (orRaise (refusing m.world).1 : Action ω α) { m with world := (refusing m.world).2 } = _
  rw [h]
  rfl

theorem raisingForm_of_error {refusing : ω → Except Failure α × ω} {m : Machine ω} {f : Failure} {w : ω}
    (h : refusing m.world = (.error f, w)) :
    raisingForm refusing m = (.unwinding (.raised (.ofFailure f)), raised f { m with world := w }) := by
  show (orRaise (refusing m.world).1 : Action ω α) { m with world := (refusing m.world).2 } = _
  rw [h]
  rfl

theorem agrees_raisingForm {refusing : ω → Except Failure α × ω}
    (h : ∀ w f, (refusing w).1 = .error f → (refusing w).2 = w) : Agrees (raisingForm refusing) refusing where
  completes m m' a := by
    cases hr : (refusing m.world).1 with
    | ok b =>
      rw [raisingForm_of_ok (Prod.ext hr rfl)]
      constructor
      · intro heq
        cases heq
        exact ⟨rfl, rfl⟩
      · rintro ⟨heq, rfl⟩
        cases heq
        rfl
    | error f =>
      rw [raisingForm_of_error (Prod.ext hr rfl)]
      constructor
      · intro heq
        cases heq
      · rintro ⟨heq, -⟩
        cases heq
  raises m f hf := raisingForm_of_error (Prod.ext hf (h _ _ hf))
  refuses := h

theorem within_raisingForm (part : ω → τ) (put : ω → τ → ω) (refusing : τ → Except Failure α × τ) :
    Action.within part put (raisingForm refusing) =
      raisingForm fun w => ((refusing (part w)).1, put w (refusing (part w)).2) := by
  funext m
  generalize hr : refusing (part m.world) = answer
  obtain ⟨result, w⟩ := answer
  cases result with
  | ok a =>
    have hinner := raisingForm_of_ok (m := ⟨m.process, m.thread, part m.world⟩) hr
    refine Eq.trans ?_ (raisingForm_of_ok (by rw [hr])).symm
    rw [Action.within, hinner]
  | error f =>
    have hinner := raisingForm_of_error (m := ⟨m.process, m.thread, part m.world⟩) hr
    refine Eq.trans ?_ (raisingForm_of_error (by rw [hr])).symm
    rw [Action.within, hinner]
    rfl

theorem itemAt_of_getElem? {items : List α} {i : Nat} {a : α} (h : items[i]? = some a) :
    (itemAt items i : Action ω α) = pure a := by
  rw [itemAt, h]

end Execution

/-! ## Commands on arrays -/

namespace SharedArray

variable {α σ ι : Type} {index : Int32} {i : Nat}

namespace Store

variable {s : Store α σ} {h : String}

/-- The bounds that the host checks hold once the index is known to be good. -/
theorem elementAt_eq (h : String) (index : Int32) :
    elementAt h index = raisingForm fun s : Store α σ => (s.pool.get (s.lookup h) index, s) := by
  funext m
  show ((orRaise (m.world.pool.slot (m.world.lookup h) index) : Action (Store α σ) Nat) >>=
    itemAt (m.world.pool.items (m.world.lookup h))) m = orRaise (m.world.pool.get (m.world.lookup h) index) m
  cases hs : m.world.pool.slot (m.world.lookup h) index with
  | error f =>
    rw [Pool.get, hs]
    rfl
  | ok i =>
    obtain ⟨a, hi, hg⟩ := Pool.get_of_slot hs
    rw [hg]
    exact congrFun (itemAt_of_getElem? hi) m

/-- What a write access answers, with the store after it. -/
def accessed [Element α σ ι] (s : Store α σ) (h : String) (index : Int32) : Except Failure Nat × Store α σ :=
  match s.access h index with
  | .ok (i, s) => (.ok i, s)
  | .error f => (.error f, s)

theorem accessed_of_error [Element α σ ι] {f : Failure} (hs : s.pool.slot (s.lookup h) index = .error f) :
    s.accessed h index = (.error f, s) := by
  rw [accessed, access, hs]
  rfl

theorem accessed_of_ok [Element α σ ι] (hs : s.pool.slot (s.lookup h) index = .ok i) :
    s.accessed h index = (.ok i, s.rebind h (s.pool.exclusive (s.lookup h))) := by
  rw [accessed, access, hs]
  rfl

/-- A private copy of a buffer has the same elements. -/
theorem items_split [Element α σ ι] (hl : s.handles.lookup h = some (s.lookup h)) :
    (s.rebind h (s.pool.exclusive (s.lookup h))).pool.items
      ((s.rebind h (s.pool.exclusive (s.lookup h))).lookup h) = s.pool.items (s.lookup h) := by
  rw [lookup_rebind hl, rebind_of_known hl]
  exact Pool.items_exclusive _ _

theorem placeAt_eq [Element α σ ι] (h : String) (index : Int32) :
    placeAt h index = raisingForm fun s : Store α σ => s.accessed h index := by
  funext m
  show ((orRaise (m.world.pool.slot (m.world.lookup h) index) : Action (Store α σ) Nat) >>= fun i => _) m = _
  cases hs : m.world.pool.slot (m.world.lookup h) index with
  | error f =>
    rw [raisingForm_of_error (accessed_of_error hs)]
    rfl
  | ok i =>
    rw [raisingForm_of_ok (accessed_of_ok hs)]
    -- the place is there in the private copy as well
    obtain ⟨a, hi, -⟩ := Pool.get_of_slot hs
    rw [← items_split (known_of_slot hs)] at hi
    show ((itemAt _ i : Action (Store α σ) α) >>= fun _ => pure i) _ = _
    rw [itemAt_of_getElem? hi]
    rfl

theorem set_of_error [Element α σ ι] {f : Failure} (hs : s.pool.slot (s.lookup h) index = .error f) (value : ι) :
    s.run (.set h index value) = (.error f, s) := by
  rw [run, Pool.set, hs]
  rfl

/-- An assignment splits the buffer and then puts the element in its place. -/
theorem set_of_ok [Element α σ ι] (hs : s.pool.slot (s.lookup h) index = .ok i) (value : ι) :
    s.run (.set h index value) = (.ok .done, (s.rebind h (s.pool.exclusive (s.lookup h))).put h i value) := by
  have hl := known_of_slot hs
  rw [put, lookup_rebind hl, rebind_of_known hl, run, Pool.set_of_slot hs, afterWrite, rebind_of_known hl]

theorem assignAt_eq [Element α σ ι] (h : String) (index : Int32) (value : ι) :
    (do assignAt h index value; return .done) = raisingForm fun s : Store α σ => s.run (.set h index value) := by
  unfold assignAt
  rw [placeAt_eq]
  funext m
  cases hs : m.world.pool.slot (m.world.lookup h) index with
  | error f =>
    rw [raisingForm_of_error (set_of_error hs value)]
    show Action.proceed _ (Action.proceed _ (raisingForm _ m)) = _
    rw [raisingForm_of_error (accessed_of_error hs)]
    rfl
  | ok i =>
    rw [raisingForm_of_ok (set_of_ok hs value)]
    show Action.proceed _ (Action.proceed _ (raisingForm _ m)) = _
    rw [raisingForm_of_ok (accessed_of_ok hs)]
    rfl

theorem resize_eq [Element α σ ι] (h : String) (n : Int32) :
    (do resize h n; return .done) = raisingForm fun s : Store α σ => s.run (.setLength h n) := by
  funext m
  show Action.proceed _ (((orRaise (m.world.pool.setLength (m.world.lookup h) n) : Action (Store α σ) _) >>= _) m) =
    (orRaise (m.world.afterWrite h (m.world.pool.setLength (m.world.lookup h) n)).1 : Action (Store α σ) _)
      { m with world := (m.world.afterWrite h (m.world.pool.setLength (m.world.lookup h) n)).2 }
  cases m.world.pool.setLength (m.world.lookup h) n <;> rfl

/-- **The raising form of a command does what the other form answers.** -/
theorem perform_eq [Element α σ ι] (command : Command ι) :
    perform command = raisingForm fun s : Store α σ => s.run command := by
  cases command with
  | get h index =>
    show (do return Reply.element (← elementAt h index)) = _
    rw [elementAt_eq]
    funext m
    show Action.proceed _ ((orRaise (m.world.pool.get (m.world.lookup h) index) : Action (Store α σ) α) m) =
      (orRaise ((m.world.pool.get (m.world.lookup h) index).map Reply.element) : Action (Store α σ) _) m
    cases m.world.pool.get (m.world.lookup h) index <;> rfl
  | set h index value => exact assignAt_eq h index value
  | setLength h n => exact resize_eq h n
  | _ => rfl

theorem afterWrite_refused (s : Store α σ) (h : String) (written : Except Failure (Ref α × Pool α σ))
    {f : Failure} (hf : (s.afterWrite h written).1 = .error f) : (s.afterWrite h written).2 = s := by
  cases written with
  | ok result => cases hf
  | error g => rfl

/-- A command that is refused changes no array and no count. -/
theorem run_refused [Element α σ ι] (s : Store α σ) (command : Command ι) {f : Failure}
    (hf : (s.run command).1 = .error f) : (s.run command).2 = s := by
  cases command with
  | setLength h n => exact afterWrite_refused s h _ hf
  | set h index value => exact afterWrite_refused s h _ hf
  | get => rfl
  | _ => cases hf

theorem slot_checks (p : Pool α σ) (r : Ref α) (index : Int32) :
    Checks (p.slot r index) (0 ≤ index.toInt ∧ index.toInt < (p.items r).length)
      (.indexOutOfRange "DynArray" index (p.length r)) where
  accepts hi := ⟨_, if_pos hi⟩
  refuses hi := if_neg hi

theorem get_checks [Element α σ ι] (s : Store α σ) (h : String) (index : Int32) :
    Checks (s.run (.get h index)).1 (0 ≤ index.toInt ∧ index.toInt < (s.pool.items (s.lookup h)).length)
      (.indexOutOfRange "DynArray" index (s.pool.length (s.lookup h))) where
  accepts hi := by
    obtain ⟨i, hs⟩ := (slot_checks s.pool (s.lookup h) index).accepts hi
    obtain ⟨a, -, hg⟩ := Pool.get_of_slot hs
    exact ⟨.element a, by rw [run, hg]; rfl⟩
  refuses hi := by
    have hs := (slot_checks s.pool (s.lookup h) index).refuses hi
    rw [run, Pool.get, hs]
    rfl

theorem set_checks [Element α σ ι] (s : Store α σ) (h : String) (index : Int32) (value : ι) :
    Checks (s.run (.set h index value)).1 (0 ≤ index.toInt ∧ index.toInt < (s.pool.items (s.lookup h)).length)
      (.indexOutOfRange "DynArray" index (s.pool.length (s.lookup h))) where
  accepts hi := by
    obtain ⟨i, hs⟩ := (slot_checks s.pool (s.lookup h) index).accepts hi
    exact ⟨.done, by rw [set_of_ok hs]⟩
  refuses hi := by
    have hs := (slot_checks s.pool (s.lookup h) index).refuses hi
    rw [set_of_error hs]

theorem setLength_checks [Element α σ ι] (s : Store α σ) (h : String) (n : Int32) :
    Checks (s.run (.setLength h n)).1 (0 ≤ n.toInt) (.invalidArgument "SetLength: negative length") where
  accepts hn := by
    have hneg : ¬n < 0 := by rw [Int32.lt_iff_toInt_lt]; exact Int.not_lt.2 hn
    refine ⟨.done, ?_⟩
    rw [run, Pool.setLength]
    dsimp only
    rw [if_neg hneg]
    split <;> rfl
  refuses hn := by
    have hneg : n < 0 := by rw [Int32.lt_iff_toInt_lt]; exact Int.not_le.1 hn
    rw [run, Pool.setLength]
    dsimp only
    rw [if_pos hneg]
    rfl

end Store

end SharedArray

/-! ## Commands on texts -/

namespace Text

variable {t : Text} {index : Int32} {i : Nat}

/-- The bound is the true length, which no index exceeds where the word for the length does not reach it. -/
theorem slot_checks (t : Text) (index : Int32) :
    Checks (t.slot index) (1 ≤ index.toInt ∧ index.toInt ≤ t.units.length)
      (.indexOutOfRange "String" index t.length) := by
  have hlength : t.length.toInt = min t.units.length Word.largest := Word.toInt_saturate _
  have hindex : index.toInt < 2147483648 := index.toInt_lt
  have hiff : (1 ≤ index.toInt ∧ index.toInt ≤ t.length.toInt) ↔
      (1 ≤ index.toInt ∧ index.toInt ≤ t.units.length) := by
    rw [hlength, Word.largest]
    omega
  constructor
  · exact fun hi => ⟨_, if_pos (hiff.2 hi)⟩
  · exact fun hi => if_neg (hiff.1.mt hi)

theorem charAt_of_slot (h : t.slot index = .ok i) : ∃ u, t.units[i]? = some u ∧ t.charAt index = .ok u := by
  have hrange : 1 ≤ index.toInt ∧ index.toInt ≤ t.units.length := by
    by_contra hout
    rw [(slot_checks t index).refuses hout] at h
    cases h
  have hi : i < t.units.length := by
    unfold slot at h
    split at h
    · cases h
      omega
    · cases h
  refine ⟨t.units[i], List.getElem?_eq_getElem hi, ?_⟩
  rw [charAt, h]
  exact congrArg Except.ok (List.getD_eq_getElem _ _ hi)

namespace Registers

theorem unitAt_eq (r : String) (index : Int32) :
    unitAt r index = raisingForm fun rs => ((rs.read r).charAt index, rs) := by
  funext m
  show ((orRaise ((m.world.read r).slot index) : Action Registers Nat) >>=
    itemAt (m.world.read r).units) m = orRaise ((m.world.read r).charAt index) m
  cases hs : (m.world.read r).slot index with
  | error f =>
    rw [charAt, hs]
    rfl
  | ok i =>
    obtain ⟨u, hi, hc⟩ := charAt_of_slot hs
    rw [hc]
    exact congrFun (itemAt_of_getElem? hi) m

end Registers

namespace Command

/-- What a command answers, with the texts after it. -/
def answer (command : Command) (rs : Registers) : Except Failure Reply × Registers :=
  match command.run rs with
  | .ok (reply, rs) => (.ok reply, rs)
  | .error f => (.error f, rs)

theorem answer_of_ok {command : Command} {rs rs' : Registers} {reply : Reply}
    (h : command.run rs = .ok (reply, rs')) : command.answer rs = (.ok reply, rs') := by
  rw [answer, h]

theorem answer_of_error {command : Command} {rs : Registers} {f : Failure} (h : command.run rs = .error f) :
    command.answer rs = (.error f, rs) := by
  rw [answer, h]

/-- A command that is refused changes no text. -/
theorem answer_refused (command : Command) (rs : Registers) {f : Failure}
    (hf : (command.answer rs).1 = .error f) : (command.answer rs).2 = rs := by
  cases h : command.run rs with
  | ok result =>
    rw [answer_of_ok h] at hf
    cases hf
  | error g => rw [answer_of_error h]

theorem charAt_of_ok {rs : Registers} {r : String} {index : Int32} {u : UInt16}
    (h : (rs.read r).charAt index = .ok u) : run rs (.charAt r index) = .ok (.unit u, rs) := by
  rw [run, h]
  rfl

theorem charAt_of_error {rs : Registers} {r : String} {index : Int32} {f : Failure}
    (h : (rs.read r).charAt index = .error f) : run rs (.charAt r index) = .error f := by
  rw [run, h]
  rfl

theorem setChar_of_ok {rs : Registers} {r : String} {index : Int32} {u : UInt16} {t : Text}
    (h : (rs.read r).setChar index u = .ok t) : run rs (.setChar r index u) = .ok (.text t, rs.write r t) := by
  rw [run, h]
  rfl

theorem setChar_of_error {rs : Registers} {r : String} {index : Int32} {u : UInt16} {f : Failure}
    (h : (rs.read r).setChar index u = .error f) : run rs (.setChar r index u) = .error f := by
  rw [run, h]
  rfl

/-- **The raising form of a command does what the other form answers.** -/
theorem perform_eq (command : Command) : command.perform = raisingForm command.answer := by
  cases command with
  | charAt r index =>
    show (do return Reply.unit (← Registers.unitAt r index)) = _
    rw [Registers.unitAt_eq]
    funext m
    show Action.proceed _ ((orRaise ((m.world.read r).charAt index) : Action Registers UInt16) m) = _
    cases h : (m.world.read r).charAt index with
    | ok u => rw [raisingForm_of_ok (answer_of_ok (charAt_of_ok h))]; rfl
    | error f => rw [raisingForm_of_error (answer_of_error (charAt_of_error h))]; rfl
  | setChar r index u =>
    funext m
    show Action.proceed _ (((orRaise ((m.world.read r).setChar index u) : Action Registers Text) >>= _) m) = _
    cases h : (m.world.read r).setChar index u with
    | ok t => rw [raisingForm_of_ok (answer_of_ok (setChar_of_ok h))]; rfl
    | error f => rw [raisingForm_of_error (answer_of_error (setChar_of_error h))]; rfl
  | _ => rfl

theorem charAt_checks (rs : Registers) (r : String) (index : Int32) :
    Checks (run rs (.charAt r index)) (1 ≤ index.toInt ∧ index.toInt ≤ (rs.read r).units.length)
      (.indexOutOfRange "String" index (rs.read r).length) where
  accepts hi := by
    obtain ⟨i, hs⟩ := (slot_checks (rs.read r) index).accepts hi
    obtain ⟨u, -, hc⟩ := charAt_of_slot hs
    exact ⟨_, charAt_of_ok hc⟩
  refuses hi := by
    have hs := (slot_checks (rs.read r) index).refuses hi
    exact charAt_of_error (by rw [Text.charAt, hs]; rfl)

theorem setChar_checks (rs : Registers) (r : String) (index : Int32) (u : UInt16) :
    Checks (run rs (.setChar r index u)) (1 ≤ index.toInt ∧ index.toInt ≤ (rs.read r).units.length)
      (.indexOutOfRange "String" index (rs.read r).length) where
  accepts hi := by
    obtain ⟨i, hs⟩ := (slot_checks (rs.read r) index).accepts hi
    exact ⟨_, setChar_of_ok (t := ⟨(rs.read r).units.set i u⟩) (by rw [Text.setChar, hs]; rfl)⟩
  refuses hi := by
    have hs := (slot_checks (rs.read r) index).refuses hi
    exact setChar_of_error (by rw [Text.setChar, hs]; rfl)

end Command

end Text

/-! ## Programs -/

namespace Program

/-- A command on the arrays of a program, with what it answers and the world after it. -/
def World.runArrays (command : SharedArray.Command Int32) (w : World) :
    Except Failure (SharedArray.Reply Int32) × World :=
  ((w.arrays.run command).1, { w with arrays := (w.arrays.run command).2 })

/-- The same for the texts. -/
def World.runTexts (command : Text.Command) (w : World) : Except Failure Text.Reply × World :=
  ((command.answer w.texts).1, { w with texts := (command.answer w.texts).2 })

theorem World.runArrays_refused (command : SharedArray.Command Int32) (w : World) (f : Failure)
    (hf : (w.runArrays command).1 = .error f) : (w.runArrays command).2 = w := by
  show ({ w with arrays := (w.arrays.run command).2 } : World) = w
  rw [SharedArray.Store.run_refused _ _ hf]

theorem World.runTexts_refused (command : Text.Command) (w : World) (f : Failure)
    (hf : (w.runTexts command).1 = .error f) : (w.runTexts command).2 = w := by
  show ({ w with texts := (command.answer w.texts).2 } : World) = w
  rw [Text.Command.answer_refused _ _ hf]

theorem runArray_true (command : SharedArray.Command Int32) :
    runArray true command = raisingForm (World.runArrays command) >>= fun reply => emit (.array (.ok reply)) := by
  rw [runArray, if_pos rfl, SharedArray.Store.perform_eq, within_raisingForm]
  rfl

theorem runText_true (command : Text.Command) :
    runText true command = raisingForm (World.runTexts command) >>= fun reply => emit (.text (.ok reply)) := by
  rw [runText, if_pos rfl, Text.Command.perform_eq, within_raisingForm]
  rfl

theorem runArray_false (command : SharedArray.Command Int32) (m : Machine World) :
    runArray false command m = emit (.array (m.world.runArrays command).1)
      { m with world := (m.world.runArrays command).2 } := rfl

theorem runText_false (command : Text.Command) (m : Machine World) :
    runText false command m = emit (.text (m.world.runTexts command).1)
      { m with world := (m.world.runTexts command).2 } := by
  show (match command.run m.world.texts with | .ok (reply, texts) => _ | .error f => _ : Action World Unit) m = _
  cases h : command.run m.world.texts with
  | ok result =>
    rw [World.runTexts, Text.Command.answer_of_ok h]
    rfl
  | error f =>
    rw [World.runTexts, Text.Command.answer_of_error h]

/-- Take a failure as the answer, or raise it. -/
def settle {α : Type} (raising : Bool) (result : Except Failure α) : Action World (Except Failure α) :=
  if raising then do return .ok (← orRaise result) else pure result

theorem runArray_eq (raising : Bool) (command : SharedArray.Command Int32) :
    runArray raising command = (do
      let w ← Action.getWorld
      Action.onWorld fun v => { v with arrays := (w.arrays.run command).2 }
      emit (.array (← settle raising (w.arrays.run command).1))) := by
  cases raising with
  | false => rfl
  | true =>
    rw [runArray_true]
    funext m
    let after : Machine World := { m with world := (m.world.runArrays command).2 }
    show Action.proceed (fun reply => emit (.array (.ok reply)))
        ((orRaise (m.world.arrays.run command).1 : Action World _) after) =
      Action.proceed (fun result => emit (.array result)) (settle true (m.world.arrays.run command).1 after)
    cases (m.world.arrays.run command).1 <;> rfl

theorem runText_eq (raising : Bool) (command : Text.Command) :
    runText raising command = (do
      let w ← Action.getWorld
      match ← settle raising (command.run w.texts) with
      | .ok (reply, texts) =>
        Action.onWorld fun v => { v with texts }
        emit (.text (.ok reply))
      | .error f => emit (.text (.error f))) := by
  cases raising with
  | false => rfl
  | true =>
    rw [runText_true]
    funext m
    show Action.proceed (fun reply => emit (.text (.ok reply))) (raisingForm _ m) =
      Action.proceed _ ((settle true (command.run m.world.texts)) m)
    cases h : command.run m.world.texts with
    | ok result =>
      rw [raisingForm_of_ok (by rw [World.runTexts, Text.Command.answer_of_ok h])]
      rfl
    | error f =>
      rw [raisingForm_of_error (by rw [World.runTexts, Text.Command.answer_of_error h])]
      rfl

/-- What a routine answers where failures are answered. -/
def shown {α : Type} (value : α → Value) : Except Failure α → Value
  | .ok a => value a
  | .error f => .refused f

theorem answer_true {ω α : Type} (value : α → Value) (result : Except Failure α) :
    (answer true value result : Action ω Value) = raisingForm fun w => (result.map value, w) := by
  cases result <;> rfl

theorem answer_false {ω α : Type} (value : α → Value) (result : Except Failure α) :
    (answer false value result : Action ω Value) = pure (shown value result) := by
  cases result <;> rfl

/-! ## Instructions -/

/-- Two instructions, of which one raises the failures that the other one reports. -/
structure InstructionsAgree {α : Type} (raising refusing : Instruction) (answer : World → Except Failure α)
    (report : Failure → Event) : Prop where
  completes : ∀ m a, answer m.world = .ok a →
    raising.run m = refusing.run m ∧ (refusing.run m).1 = .done ()
  raises : ∀ m f, answer m.world = .error f →
    raising.run m = (.unwinding (.raised (.ofFailure f)), raised f m)
  reports : ∀ m f, answer m.world = .error f →
    refusing.run m = (.done (), { m with world := { m.world with events := m.world.events ++ [report f] } })

theorem InstructionsAgree.of_raisingForm {α : Type} {raising refusing : Instruction}
    (form : World → Except Failure α × World) (event : Except Failure α → Event)
    (hraising : raising.run = raisingForm form >>= fun a => emit (event (.ok a)))
    (hrefusing : ∀ m, refusing.run m = emit (event (form m.world).1) { m with world := (form m.world).2 })
    (hrefused : ∀ w f, (form w).1 = .error f → (form w).2 = w) :
    InstructionsAgree raising refusing (fun w => (form w).1) fun f => event (.error f) where
  completes m a h := by
    rw [hraising, hrefusing, h]
    show Action.proceed _ (raisingForm form m) = _ ∧ _
    rw [raisingForm_of_ok (Prod.ext h rfl)]
    exact ⟨rfl, rfl⟩
  raises m f h := by
    rw [hraising]
    show Action.proceed _ (raisingForm form m) = _
    rw [raisingForm_of_error (Prod.ext h (hrefused _ _ h))]
    rfl
  reports m f h := by
    rw [hrefusing, hrefused _ _ h, h]
    rfl

/-- What a call of a routine that can fail reports. -/
def callEvent : Except Failure Value → Event
  | .ok value => .call value
  | .error f => .call (.refused f)

theorem call_instructionsAgree {α : Type} {raising refusing : Routine} (value : α → Value)
    (result : Except Failure α)
    (hraising : (raising.run : Action World Value) = answer true value result)
    (hrefusing : (refusing.run : Action World Value) = answer false value result) :
    InstructionsAgree (.call raising) (.call refusing) (fun _ => result.map value) fun f => .call (.refused f) := by
  refine InstructionsAgree.of_raisingForm (fun w => (result.map value, w)) callEvent ?_ ?_ fun _ _ _ => rfl
  · show (do emit (.call (← raising.run))) = _
    rw [hraising, answer_true]
    rfl
  · intro m
    show (do emit (.call (← refusing.run)) : Action World Unit) m = _
    rw [hrefusing]
    cases result <;> rfl

end Program

/-! ## All pairs -/

open SharedArray (Store) in
/--
**Raising and refusing forms agree, and failures change nothing.** The commands on arrays come with every
kind of elements; `get`, `set` and `setLength` are the ones that can fail, as are `charAt` and `setChar` on texts.
-/
theorem raising_forms_agree :
    (∀ {α σ ι : Type} [SharedArray.Element α σ ι] (command : SharedArray.Command ι),
      Agrees (Store.perform command) fun s : Store α σ => s.run command) ∧
    (∀ {α σ ι : Type} [SharedArray.Element α σ ι] (s : Store α σ) (h : String) (index n : Int32) (value : ι),
      Checks (s.run (.get h index)).1 (0 ≤ index.toInt ∧ index.toInt < (s.pool.items (s.lookup h)).length)
        (.indexOutOfRange "DynArray" index (s.pool.length (s.lookup h))) ∧
      Checks (s.run (.set h index value)).1 (0 ≤ index.toInt ∧ index.toInt < (s.pool.items (s.lookup h)).length)
        (.indexOutOfRange "DynArray" index (s.pool.length (s.lookup h))) ∧
      Checks (s.run (.setLength h n)).1 (0 ≤ n.toInt) (.invalidArgument "SetLength: negative length")) ∧
    (∀ command : Text.Command, Agrees command.perform command.answer) ∧
    (∀ (rs : Text.Registers) (r : String) (index : Int32) (u : UInt16),
      Checks (Text.Command.run rs (.charAt r index)) (1 ≤ index.toInt ∧ index.toInt ≤ (rs.read r).units.length)
        (.indexOutOfRange "String" index (rs.read r).length) ∧
      Checks (Text.Command.run rs (.setChar r index u)) (1 ≤ index.toInt ∧ index.toInt ≤ (rs.read r).units.length)
        (.indexOutOfRange "String" index (rs.read r).length)) ∧
    (∀ {ω : Type} (t : Text),
      Agrees (Program.Routine.run (.textToWord true t)) (fun w : ω => ((Decimal.read t).map .word, w)) ∧
      (Program.Routine.run (.textToWord false t) : Action ω _) = pure (Program.shown .word (Decimal.read t)) ∧
      Agrees (Program.Routine.run (.textToNumber true t)) (fun w : ω => ((Literal.read t).map .number, w)) ∧
      (Program.Routine.run (.textToNumber false t) : Action ω _) = pure (Program.shown .number (Literal.read t))) ∧
    (∀ command, Program.InstructionsAgree (.array true command) (.array false command)
      (fun w => (w.arrays.run command).1) fun f => .array (.error f)) ∧
    (∀ command, Program.InstructionsAgree (.text true command) (.text false command)
      (fun w => (command.answer w.texts).1) fun f => .text (.error f)) ∧
    (∀ t, Program.InstructionsAgree (.call (.textToWord true t)) (.call (.textToWord false t))
      (fun _ => (Decimal.read t).map Program.Value.word) fun f => .call (.refused f)) ∧
    (∀ t, Program.InstructionsAgree (.call (.textToNumber true t)) (.call (.textToNumber false t))
      (fun _ => (Literal.read t).map Program.Value.number) fun f => .call (.refused f)) := by
  refine ⟨fun command => ?_, fun s h index n value => ?_, fun command => ?_, fun rs r index u => ?_, fun t => ?_,
    fun command => ?_, fun command => ?_, fun t => ?_, fun t => ?_⟩
  · rw [Store.perform_eq]
    exact agrees_raisingForm fun s _ => Store.run_refused s command
  · exact ⟨Store.get_checks s h index, Store.set_checks s h index value, Store.setLength_checks s h n⟩
  · rw [Text.Command.perform_eq]
    exact agrees_raisingForm fun rs _ => Text.Command.answer_refused command rs
  · exact ⟨Text.Command.charAt_checks rs r index, Text.Command.setChar_checks rs r index u⟩
  · refine ⟨?_, Program.answer_false _ _, ?_, Program.answer_false _ _⟩
    · rw [Program.Routine.run, Program.answer_true]
      exact agrees_raisingForm fun _ _ _ => rfl
    · rw [Program.Routine.run, Program.answer_true]
      exact agrees_raisingForm fun _ _ _ => rfl
  · exact Program.InstructionsAgree.of_raisingForm (Program.World.runArrays command) .array
      (Program.runArray_true command) (Program.runArray_false command) (Program.World.runArrays_refused command)
  · exact Program.InstructionsAgree.of_raisingForm (Program.World.runTexts command) .text
      (Program.runText_true command) (Program.runText_false command) (Program.World.runTexts_refused command)
  · exact Program.call_instructionsAgree .word (Decimal.read t) rfl rfl
  · exact Program.call_instructionsAgree .number (Literal.read t) rfl rfl

end ManagedRuntime
