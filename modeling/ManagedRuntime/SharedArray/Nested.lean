import ManagedRuntime.SharedArray.Element
import ManagedRuntime.SharedArray.Store

/-!
# Writing to elements

An element that can be written to itself is reached by a write access to its array: the index is
checked, then a shared buffer is split, and only then does the element see its own operation.

* `Store.access` : a write access to an element.
* `TextCommand` : commands on arrays of texts.
* `NestedCommand` : commands on arrays of arrays, where an inner write splits the inner buffer as well
  if it is shared.
-/

namespace ManagedRuntime.SharedArray

set_option autoImplicit false

/-- The place of an element and the store with a buffer of its own for the array. -/
def Store.access {α σ ι : Type} [Element α σ ι] (s : Store α σ) (h : String) (index : Int32) :
    Except Failure (Nat × Store α σ) :=
  (s.pool.slot (s.lookup h) index).map fun i => (i, s.rebind h (s.pool.exclusive (s.lookup h)))

/-! ## Texts -/

inductive TextCommand where
  | general (command : Command Text)
  | setChar (h : String) (index position : Int32) (unit : UInt16)

def Store.runText (s : Store Text Unit) : TextCommand → Except Failure (Reply Text) × Store Text Unit
  | .general command => s.run command
  | .setChar h index position unit =>
    match s.access h index with
    | .error f => (.error f, s)
    | .ok (i, s) =>
      match (s.pool.items (s.lookup h)).getD i .empty |>.setChar position unit with
      | .error f => (.error f, s)
      | .ok t => (.ok .done, { s with pool := s.pool.store (s.lookup h) i t })

/-! ## Arrays -/

inductive NestedCommand (κ : Type) where
  | general (command : Command (List κ))
  | get (h : String) (index inner : Int32)
  | set (h : String) (index inner : Int32) (value : κ)
  | push (h : String) (index : Int32) (value : κ)
  | setLength (h : String) (index n : Int32)
  /-- Let an element share the buffer of another one. -/
  | share (h : String) (index source : Int32)

namespace Nested

variable {β τ κ : Type}

inductive Reply (β : Type) where
  | outer (reply : SharedArray.Reply (Ref β))
  | inner (b : β)

/-- An operation on one element, which answers the reference to use from then on. -/
def update [Element β τ κ] (s : Store (Ref β) (Pool β τ)) (h : String) (index : Int32)
    (write : Pool β τ → Ref β → Except Failure (Ref β × Pool β τ)) :
    Except Failure (Reply β) × Store (Ref β) (Pool β τ) :=
  match s.access h index with
  | .error f => (.error f, s)
  | .ok (i, s) =>
    let r := s.lookup h
    match write s.pool.beneath ((s.pool.items r).getD i ⟨s.pool.beneath.buffers.length⟩) with
    | .error f => (.error f, s)
    | .ok (inner, beneath) =>
      (.ok (.outer .done),
        { s with pool := { s.pool with beneath }.replace r ((s.pool.items r).set i inner) })

/-- Another reference to the buffer of the element at `source` in the place of the element at `index`. -/
def share [Element β τ κ] (s : Store (Ref β) (Pool β τ)) (h : String) (index source : Int32) :
    Except Failure (Reply β) × Store (Ref β) (Pool β τ) :=
  match s.pool.get (s.lookup h) source with
  | .error f => (.error f, s)
  | .ok inner =>
    match s.access h index with
    | .error f => (.error f, s)
    | .ok (i, s) =>
      let pool := { s.pool with beneath := s.pool.beneath.retain inner }
      (.ok (.outer .done), { s with pool := pool.store (s.lookup h) i inner })

def run [Element β τ κ] (s : Store (Ref β) (Pool β τ)) :
    NestedCommand κ → Except Failure (Reply β) × Store (Ref β) (Pool β τ)
  | .general command => let (reply, s) := s.run command; (reply.map .outer, s)
  | .get h index inner =>
    (do let r ← s.pool.get (s.lookup h) index
        return .inner (← s.pool.beneath.get r inner), s)
  | .set h index inner value => update s h index fun p r => p.set r inner value
  | .push h index value => update s h index fun p r => .ok (p.push r value)
  | .setLength h index n => update s h index fun p r => p.setLength r n
  | .share h index source => share s h index source

end Nested

end ManagedRuntime.SharedArray
