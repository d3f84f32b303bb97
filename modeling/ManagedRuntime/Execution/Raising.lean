import ManagedRuntime.Execution.Action
import ManagedRuntime.Memory.Command
import ManagedRuntime.SharedArray.Store
import ManagedRuntime.Text.Register

/-!
# Raising forms

An index expression and an assignment to an element check the index themselves and raise. The other raising
forms ask the form that answers a failure, and raise what it answers.

* `Action.within` : an action on a part of the world.
* `itemAt` : an access to a list, whose bounds are checked once more.
* `Store.perform` : commands on arrays, which raise what `Store.run` refuses.
* `Text.Command.perform` : commands on texts, which raise what `Text.Command.run` refuses.
* `Memory.Command.perform` : commands on memory, whose requests for blocks raise what the allocator refuses.
-/

namespace ManagedRuntime

set_option autoImplicit false

open Execution

namespace Execution

variable {ω τ α : Type}

/-- An action whose world is a part of a larger one. -/
def Action.within (part : ω → τ) (put : ω → τ → ω) (action : Action τ α) : Action ω α := fun m =>
  let (flow, inner) := action ⟨m.process, m.thread, part m.world⟩
  (flow, ⟨inner.process, inner.thread, put m.world inner.world⟩)

/-- An access to a list; outside of it the host raises an exception of its own. -/
def itemAt (items : List α) (i : Nat) : Action ω α :=
  match items[i]? with
  | some a => pure a
  | none => raiseForeign (some
      ("index out of bounds: the len is " ++ toString items.length ++ " but the index is " ++ toString i))

end Execution

namespace SharedArray.Store

/-! ## Arrays -/

variable {α σ ι : Type}

/-- The element that an index expression reads. -/
def elementAt (h : String) (index : Int32) : Action (Store α σ) α := do
  let s ← Action.getWorld
  let i ← orRaise (s.pool.slot (s.lookup h) index)
  itemAt (s.pool.items (s.lookup h)) i

/-- The place that an index expression is assigned to; a shared buffer is split when the index is known to be good. -/
def placeAt [Element α σ ι] (h : String) (index : Int32) : Action (Store α σ) Nat := do
  let s ← Action.getWorld
  let i ← orRaise (s.pool.slot (s.lookup h) index)
  Action.onWorld fun s => s.rebind h (s.pool.exclusive (s.lookup h))
  let s ← Action.getWorld
  let _ ← itemAt (s.pool.items (s.lookup h)) i
  return i

/-- Put a new element for a literal in a place of an array. -/
def put [Element α σ ι] (s : Store α σ) (h : String) (i : Nat) (literal : ι) : Store α σ :=
  let (a, beneath) := Element.make s.pool.beneath literal
  { s with pool := { s.pool with beneath }.store (s.lookup h) i a }

def assignAt [Element α σ ι] (h : String) (index : Int32) (literal : ι) : Action (Store α σ) Unit := do
  let i ← placeAt h index
  Action.onWorld fun s => s.put h i literal

def resize [Element α σ ι] (h : String) (n : Int32) : Action (Store α σ) Unit := do
  let s ← Action.getWorld
  let written ← orRaise (s.pool.setLength (s.lookup h) n)
  Action.onWorld fun s => s.rebind h written

/-- The commands without a raising form of their own are never refused. -/
def perform [Element α σ ι] : Command ι → Action (Store α σ) (Reply α)
  | .get h index => do return .element (← elementAt h index)
  | .set h index value => do
    assignAt h index value
    return .done
  | .setLength h n => do
    resize h n
    return .done
  | command => do
    let s ← Action.getWorld
    let (result, s) := s.run command
    Action.onWorld fun _ => s
    orRaise result

end SharedArray.Store

namespace Text

/-! ## Texts -/

/-- The unit that an index expression reads. -/
def Registers.unitAt (r : String) (index : Int32) : Action Registers UInt16 := do
  let rs ← Action.getWorld
  let i ← orRaise ((rs.read r).slot index)
  itemAt (rs.read r).units i

def Registers.setUnit (r : String) (index : Int32) (u : UInt16) : Action Registers Text := do
  let rs ← Action.getWorld
  let t ← orRaise ((rs.read r).setChar index u)
  Action.onWorld fun rs => rs.write r t
  return t

/-- The commands without a raising form of their own are never refused. -/
def Command.perform : Command → Action Registers Reply
  | .charAt r index => do return .unit (← Registers.unitAt r index)
  | .setChar r index u => do return .text (← Registers.setUnit r index u)
  | command => do
    let (reply, rs) ← orRaise (command.run (← Action.getWorld))
    Action.onWorld fun _ => rs
    return reply

end Text

namespace Memory

/-! ## Memory -/

def Command.perform (a : Allocator) (command : Command) : Action Memory Reply := do
  let (reply, m) ← orRaise (command.run a (← Action.getWorld))
  Action.onWorld fun _ => m
  return reply

end Memory

end ManagedRuntime
