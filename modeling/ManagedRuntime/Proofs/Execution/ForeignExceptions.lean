import ManagedRuntime.Execution.Foreign

/-!
# Exceptions over the foreign interface

What foreign code raises with a code and a buffer is what its handlers read back, by a query for the length and a
buffer of their own.

* `ComesTo` : an action comes to another one, behind what is done first, in handlers, and in cleanups that are done;
* `unwinds_of_comesTo` : where it comes to a raise, that exception leaves it, whatever the cleanups raise and catch;
* `Answers` : the code and the message that are read where the exception of the thread has them;
* `handler_reads_raised` : this holds in the handler of every block whose body comes to a raise.
-/

namespace ManagedRuntime.Execution.Foreign

set_option autoImplicit false

variable {ω γ : Type}

/-! ## The way to a raise -/

/--
On a machine, a block of foreign code comes to an action; the cleanups around it are done, each on the machine that
its region leaves.
-/
inductive ComesTo {ω : Type} (target : Action ω Unit) : Action ω Unit → Machine ω → Prop where
  | here (m : Machine ω) : ComesTo target target m
  | after {α : Type} {first : Action ω α} {next : α → Action ω Unit} {a : α} {m m₁ : Machine ω}
    (hfirst : first m = (.done a, m₁)) (hnext : ComesTo target (next a) m₁) : ComesTo target (first >>= next) m
  /-- An exception or a fault of the body is handled first. -/
  | handler {γ : Type} {body handler : Callback ω γ} {context : γ} {landing : Landing Unit} {m m₁ : Machine ω}
    (hbody : protect (body context) m = (.done landing, m₁)) (hfailed : landing.isNormal = false)
    (hhandler : ComesTo target (handler context) m₁) : ComesTo target (tryCatch body handler context) m
  | cleanup {γ : Type} {body cleanup : Callback ω γ} {context : γ} {landing : Landing Unit} {m m₁ m₂ : Machine ω}
    (hbody : ComesTo target (body context) m.enter) (hlanding : protect (body context) m = (.done landing, m₁))
    (hcleanup : cleanup context m₁ = (.done (), m₂)) : ComesTo target (tryFinally body cleanup context) m

section Unwinding

variable {body : Action ω Unit} {m m₁ : Machine ω} {e : Exception}

theorem bind_of_done {α β : Type} {first : Action ω α} {next : α → Action ω β} {a : α}
    (h : first m = (.done a, m₁)) : (first >>= next) m = next a m₁ := by
  show Action.proceed next (first m) = _
  rw [h]
  rfl

/-- The region of a body that unwinds makes its exception that of the thread. -/
theorem protect_of_unwinding (h : body m.enter = (.unwinding (.raised e), m₁)) :
    ∃ m', protect body m = (.done (.raised e), m') ∧ m'.thread.exception = e :=
  ⟨_, congrArg (land m.thread) h, rfl⟩

/-- The exception is raised once more behind each cleanup, so that nothing the cleanup does to the thread is seen. -/
theorem unwinds_of_comesTo {target : Action ω Unit} (htarget : ∀ m, ∃ m', target m = (.unwinding (.raised e), m'))
    (h : ComesTo target body m) : ∃ m', body m = (.unwinding (.raised e), m') := by
  induction h with
  | here m => exact htarget m
  | after hfirst _ ih =>
    rw [bind_of_done hfirst]
    exact ih
  | @handler γ body handler context landing m m₁ hbody hfailed _ ih =>
    obtain ⟨m', hm'⟩ := ih
    refine ⟨m', ?_⟩
    unfold tryCatch Execution.tryCatch
    rw [bind_of_done hbody, if_neg (Bool.eq_false_iff.1 hfailed), hm']
  | @cleanup γ body cleanup context landing m m₁ m₂ _ hlanding hcleanup ih =>
    obtain ⟨m', hm'⟩ := ih
    obtain ⟨m₃, hprotect, -⟩ := protect_of_unwinding hm'
    rw [hlanding] at hprotect
    cases hprotect
    unfold tryFinally Execution.tryFinally
    rw [bind_of_done hlanding, bind_of_done hcleanup]
    exact ⟨_, rfl⟩

end Unwinding

/-! ## Buffers -/

section Buffers

variable {message units : List UInt16} {capacity i : Nat}

theorem getElem?_fillBuffer (h : i < min message.length capacity) :
    (fillBuffer message capacity units)[i]? = message[i]? := by
  have hlength : (message.take (min message.length capacity)).length = min message.length capacity := by
    rw [List.length_take]
    omega
  rw [fillBuffer, List.getElem?_append_left (by omega), List.getElem?_take_of_lt h]

theorem getElem?_fillBuffer_of_le (h : min message.length capacity ≤ i) :
    (fillBuffer message capacity units)[i]? = units[i]? := by
  have hlength : (message.take (min message.length capacity)).length = min message.length capacity := by
    rw [List.length_take]
    omega
  rw [fillBuffer, List.getElem?_append_right (by omega), hlength, List.getElem?_drop, Nat.add_sub_cancel' h]

theorem length_fillBuffer (h : capacity ≤ units.length) :
    (fillBuffer message capacity units).length = units.length := by
  rw [fillBuffer, List.length_append, List.length_take, List.length_drop]
  omega

theorem fillBuffer_of_length (h : units.length = message.length) : fillBuffer message units.length units = message := by
  rw [fillBuffer, h, Nat.min_self, List.take_length, ← h, List.drop_length, List.append_nil]

theorem units_message (buffer : Buffer) (length : Nat) :
    (Foreign.message buffer length).units = (buffer.getD []).take length := by
  unfold Foreign.message
  split
  next => exact List.take_nil.symm
  next units =>
    split
    next h =>
      rw [h, List.take_zero]
      rfl
    next => rfl

end Buffers

theorem raiseCode_unwinds (code : Int32) (buffer : Buffer) (length : Nat) (m : Machine ω) :
    ∃ m', (raiseCode code buffer length : Action ω Unit) m =
      (.unwinding (.raised (.software code (message buffer length))), m') :=
  ⟨_, rfl⟩

/-! ## What a handler reads -/

/-- Query the length of the message and copy it to a new buffer of this length, which may hold anything before. -/
def readMessage (allocate : Nat → List UInt16) : Action ω Buffer := do
  let queried ← copyMessage none 0
  let copied ← copyMessage (some (allocate queried.1)) queried.1
  return copied.2

/-- What is read where the exception of the thread has a code and the units of a message. Nothing else is changed. -/
structure Answers (code : Int32) (units : List UInt16) (m : Machine ω) : Prop where
  code : exceptionCode m = (.done code, m)
  /-- A null pointer asks for the length only. -/
  queried (capacity : Nat) : copyMessage none capacity m = (.done (units.length, none), m)
  copied (buffer : List UInt16) (capacity : Nat) :
    ∃ filled, copyMessage (some buffer) capacity m = (.done (units.length, some filled), m) ∧
      (∀ i, i < min units.length capacity → filled[i]? = units[i]?) ∧
      (∀ i, min units.length capacity ≤ i → filled[i]? = buffer[i]?) ∧
      (capacity ≤ buffer.length → filled.length = buffer.length)
  read (allocate : Nat → List UInt16) : (∀ n, (allocate n).length = n) →
    readMessage allocate m = (.done (some units), m)

section Reading

variable {m : Machine ω} {code : Int32} {message : Text} (h : m.thread.exception = .software code message)

include h

theorem copyMessage_eq (buffer : Buffer) (capacity : Nat) : copyMessage buffer capacity m =
    (.done (message.units.length, buffer.map (fillBuffer message.units capacity)), m) := by
  have hmessage : m.thread.exception.message = message := congrArg Exception.message h
  show (Flow.done (m.thread.exception.message.units.length,
    buffer.map (fillBuffer m.thread.exception.message.units capacity)), m) = _
  rw [hmessage]

theorem answers_of_exception : Answers code message.units m where
  code := by
    have hcode : m.thread.exception.code = code := congrArg Exception.code h
    show (Flow.done m.thread.exception.code, m) = _
    rw [hcode]
  queried capacity := copyMessage_eq h none capacity
  copied buffer capacity := ⟨fillBuffer message.units capacity buffer, copyMessage_eq h (some buffer) capacity,
    fun _ hi => getElem?_fillBuffer hi, fun _ hi => getElem?_fillBuffer_of_le hi, length_fillBuffer⟩
  read allocate hallocate := by
    have hfresh := hallocate message.units.length
    have hfull : fillBuffer message.units message.units.length (allocate message.units.length) = message.units := by
      have hfill := fillBuffer_of_length hfresh
      rwa [hfresh] at hfill
    unfold readMessage
    rw [bind_of_done (copyMessage_eq h none 0), bind_of_done (copyMessage_eq h _ _), Option.map_some, hfull]
    rfl

end Reading

/--
**Exceptions cross the foreign interface unchanged.** Where the body of a block comes to a raise, the handler goes on
with a machine on which the code and all units of the message are read, as often as it likes while it writes no other
exception to its thread.
-/
theorem handler_reads_raised (body handler cleanup : Callback ω γ) (context : γ) (m : Machine ω) (code : Int32)
    (buffer : Buffer) (length : Nat) (hbody : ComesTo (raiseCode code buffer length) (body context) m.enter) :
    ∃ m', tryCatch body handler context m = handler context m' ∧
      tryCatchFinally body handler cleanup context m = tryFinally handler cleanup context m' ∧
      ∀ n : Machine ω, n.thread.exception = m'.thread.exception → Answers code ((buffer.getD []).take length) n := by
  obtain ⟨m₁, hunwinds⟩ := unwinds_of_comesTo (raiseCode_unwinds code buffer length) hbody
  obtain ⟨m', hprotect, hexception⟩ := protect_of_unwinding hunwinds
  refine ⟨m', ?_, ?_, ?_⟩
  · unfold tryCatch Execution.tryCatch
    rw [bind_of_done hprotect]
    rfl
  · unfold tryCatchFinally Execution.tryCatchFinally
    rw [bind_of_done hprotect]
    rfl
  · intro n hn
    rw [hexception] at hn
    rw [← units_message]
    exact answers_of_exception hn

/-- A raise in two cleanups: the inner one raises and catches again, the outer one forgets the exception. -/
def noisyBody : Callback Unit Unit :=
  tryFinally
    (tryFinally (fun _ => raiseCode (-5) (some [0xD800, 0, 0x41, 0x42]) 3)
      (tryCatch (fun _ => raiseCode 7 none 0) fun _ => pure ()))
    fun _ => shutdown

/-- The message has half of a pair and a zero in front; one unit of the buffer does not count. -/
theorem handler_reads_raised_noisy :
    ComesTo (raiseCode (-5) (some [0xD800, 0, 0x41, 0x42]) 3) (noisyBody ()) (Machine.enter ⟨.start, .fresh, ()⟩) ∧
    ∃ m', tryCatch noisyBody (fun _ => shutdown) () ⟨.start, .fresh, ()⟩ = shutdown m' ∧
      exceptionCode m' = (.done (-5), m') ∧
      readMessage (fun n => List.replicate n 9) m' = (.done (some [0xD800, 0, 0x41]), m') := by
  have hbody : ComesTo (raiseCode (-5) (some [0xD800, 0, 0x41, 0x42]) 3) (noisyBody ())
      (Machine.enter ⟨.start, .fresh, ()⟩) :=
    .cleanup (.cleanup (.here _) rfl rfl) rfl rfl
  obtain ⟨m', hcatch, -, hanswers⟩ :=
    handler_reads_raised noisyBody (fun _ => shutdown) (fun _ => shutdown) () ⟨.start, .fresh, ()⟩ _ _ _ hbody
  have hreads := hanswers m' rfl
  exact ⟨hbody, m', hcatch, hreads.code, hreads.read _ fun _ => List.length_replicate⟩

/-- A buffer that is too short, and one that is too long. -/
example : fillBuffer [0xD800, 0, 0x41] 2 [9, 9, 9, 9] = [0xD800, 0, 9, 9] ∧
    fillBuffer [0xD800, 0, 0x41] 4 [9, 9, 9, 9] = [0xD800, 0, 0x41, 9] := by decide

end ManagedRuntime.Execution.Foreign
