import ManagedRuntime.Failure
import ManagedRuntime.Word

/-!
# Raw memory

* `Allocator` : where new blocks are placed, always apart from those in use.
* `Memory` : one address space of bytes with named blocks in it.
* `Memory.get`, `Memory.allocate`, `Memory.resize`, `Memory.free` : blocks from an allocator that may have none left.
* `Memory.fill`, `Memory.move`, `Memory.write`, `Memory.read` : bytes from an offset in a block on.
-/

namespace ManagedRuntime

set_option autoImplicit false

structure Block where
  address : Nat
  size : Nat
deriving DecidableEq

namespace Block

/-- The null pointer, behind which there are no bytes. -/
def null : Block := ⟨0, 0⟩

/-- Two blocks have no byte in common. -/
def Apart (b c : Block) : Prop := b.address + b.size ≤ c.address ∨ c.address + c.size ≤ b.address

end Block

/-- An allocator finds a place for a block of some size next to the blocks in use, or it has none. -/
structure Allocator where
  place? : (inUse : List Block) → (size : Nat) → Option Nat
  /-- The place is not null, and the new block has no byte in common with another one. -/
  fresh : ∀ inUse size address, place? inUse size = some address →
    0 < address ∧ ∀ b ∈ inUse, b.Apart ⟨address, size⟩

namespace Allocator

/-- The address space has two gibibytes, of which the program itself takes a part. -/
def limit : Nat := 0x80000000 - 0x8000000

/-- No block reaches this address. -/
def behind : List Block → Nat
  | [] => 1
  | b :: inUse => max (b.address + b.size) (behind inUse)

theorem behind_pos (inUse : List Block) : 0 < behind inUse := by
  induction inUse with
  | nil => exact Nat.one_pos
  | cons b inUse ih => exact Nat.lt_of_lt_of_le ih (Nat.le_max_right ..)

theorem le_behind {inUse : List Block} {b : Block} (h : b ∈ inUse) : b.address + b.size ≤ behind inUse := by
  induction h with
  | head => exact Nat.le_max_left ..
  | tail _ _ ih => exact Nat.le_trans ih (Nat.le_max_right ..)

/-- A block of any size up to the limit lies behind all others. -/
def standard : Allocator where
  place? inUse size := if limit < size then none else some (behind inUse)
  fresh inUse size address h := by
    split at h
    · cases h
    · cases h
      exact ⟨behind_pos inUse, fun b hb => .inl (le_behind hb)⟩

end Allocator

structure Memory where
  /-- A byte that was never stored has no value. -/
  bytes : Nat → Option UInt8
  blocks : List (String × Block)

namespace Memory

def empty : Memory := ⟨fun _ => none, []⟩

/-- A name without a block is a null pointer. -/
def block (m : Memory) (name : String) : Block := (m.blocks.lookup name).getD .null

/-- Whether a name has a block. -/
def isBlock (m : Memory) (name : String) : Bool := (m.blocks.lookup name).isSome

/-- The values of `n` bytes from an address on. -/
def load (m : Memory) (address n : Nat) : List (Option UInt8) := (List.range n).map fun i => m.bytes (address + i)

/-- Store `n` bytes from an address on. -/
def store (m : Memory) (address n : Nat) (value : Nat → Option UInt8) : Memory :=
  { m with bytes := fun a => if address ≤ a ∧ a < address + n then value (a - address) else m.bytes a }

/-! ## Blocks -/

def free (m : Memory) (name : String) : Memory := { m with blocks := m.blocks.filter (·.1 ≠ name) }

/-- Give a name to a new block. -/
def place (m : Memory) (name : String) (b : Block) (value : Nat → Option UInt8) : Memory :=
  let m := (m.free name).store b.address b.size value
  { m with blocks := (name, b) :: m.blocks }

/-- The blocks that have names. -/
def inUse (m : Memory) : List Block := m.blocks.map Prod.snd

/--
A new block for a positive size that the allocator has a place for, and the null pointer for any other size. A name
that had a block loses it.
-/
def request (m : Memory) (a : Allocator) (inUse : List Block) (name : String) (size : Int32)
    (value : Nat → Option UInt8) : Except Failure Memory :=
  let n := Word.toSize size
  if n = 0 then .ok (m.free name)
  else
    match a.place? inUse n with
    | some address => .ok (m.place name ⟨address, n⟩ value)
    | none => .error (.outOfMemory n)

/-- The bytes of the new block have no value yet. -/
def get (m : Memory) (a : Allocator) (name : String) (size : Int32) : Except Failure Memory :=
  m.request a m.inUse name size fun _ => none

/-- The bytes of the new block are zero. -/
def allocate (m : Memory) (a : Allocator) (name : String) (size : Int32) : Except Failure Memory :=
  m.request a m.inUse name size fun _ => some 0

/--
A block of another size with the same first bytes, which may lie where the old one was; without a positive size the
block is freed.
-/
def resize (m : Memory) (a : Allocator) (name : String) (size : Int32) : Except Failure Memory :=
  let old := m.block name
  m.request a (m.free name).inUse name size fun i => if i < old.size then m.bytes (old.address + i) else none

/-! ## Bytes -/

def read (m : Memory) (name : String) (offset count : Nat) : List (Option UInt8) :=
  m.load ((m.block name).address + offset) count

def write (m : Memory) (name : String) (offset : Nat) (values : List UInt8) : Memory :=
  m.store ((m.block name).address + offset) values.length fun i => values[i]?

/-- A negative count stores nothing. -/
def fill (m : Memory) (name : String) (offset : Nat) (count : Int32) (value : UInt8) : Memory :=
  m.store ((m.block name).address + offset) (Word.toSize count) fun _ => some value

/-- Store the bytes that the source holds before; the ranges may overlap. -/
def move (m : Memory) (source : String) (start : Nat) (target : String) (offset : Nat) (count : Int32) : Memory :=
  m.store ((m.block target).address + offset) (Word.toSize count) fun i =>
    m.bytes ((m.block source).address + start + i)

end Memory

end ManagedRuntime
