import ManagedRuntime.Word

/-!
# Checked steps

A machine computes with words and with sizes of so many bits, and it can only reach what is in a buffer. The steps of
such a computation are stuck where a result does not fit, where a negative word is taken for a size, or where a
place or a range is not in the buffer.

* `Checked.add`, `Checked.sub`, `Checked.addSizes`, `Checked.subSizes` : arithmetic without wrapping around;
* `Checked.toSize` : a word that has to be a size; `Checked.toSize?` and `Checked.toWord?` ask whether it is one;
* `Checked.item`, `Checked.place`, `Checked.slice`, `Checked.splice` : access to a buffer.
-/

namespace ManagedRuntime

set_option autoImplicit false

/-- Why a computation on a machine is stuck. -/
inductive Stuck where
  /-- A result that is no word, or no size. -/
  | overflow
  /-- A negative word in the place of a size. -/
  | negativeSize
  /-- A place or a range that is not in the buffer. -/
  | outside
deriving DecidableEq

namespace Checked

variable {α : Type}

/-! ## Words and sizes -/

def word (i : Int) : Except Stuck Int32 :=
  if Int32.minValue.toInt ≤ i ∧ i ≤ Int32.maxValue.toInt then .ok (.ofInt i) else .error .overflow

def add (a b : Int32) : Except Stuck Int32 := word (a.toInt + b.toInt)

def sub (a b : Int32) : Except Stuck Int32 := word (a.toInt - b.toInt)

/-- Sizes have `bits` bits. -/
def addSizes (bits m n : Nat) : Except Stuck Nat := if m + n < Nat.pow 2 bits then .ok (m + n) else .error .overflow

def subSizes (m n : Nat) : Except Stuck Nat := if n ≤ m then .ok (m - n) else .error .overflow

def toSize? (w : Int32) : Option Nat := if 0 ≤ w.toInt then some w.toInt.toNat else none

def toSize (w : Int32) : Except Stuck Nat :=
  match toSize? w with
  | some n => .ok n
  | none => .error .negativeSize

def toWord? (n : Nat) : Option Int32 := if n ≤ Word.largest then some (.ofNat n) else none

/-! ## Buffers -/

def place (buffer : List α) (i : Nat) : Except Stuck Nat := if i < buffer.length then .ok i else .error .outside

def item (buffer : List α) (i : Nat) : Except Stuck α :=
  match buffer[i]? with
  | some a => .ok a
  | none => .error .outside

/-- A range is in a buffer if its end does not stand before its beginning nor behind the buffer. -/
def range (buffer : List α) (first behind : Nat) : Except Stuck (Nat × Nat) :=
  if first ≤ behind ∧ behind ≤ buffer.length then .ok (first, behind) else .error .outside

def slice (buffer : List α) (first behind : Nat) : Except Stuck (List α) :=
  (range buffer first behind).map fun (first, behind) => (buffer.drop first).take (behind - first)

/-- Put other items in the place of a range. -/
def splice (buffer : List α) (first behind : Nat) (items : List α) : Except Stuck (List α) :=
  (range buffer first behind).map fun (first, behind) => buffer.take first ++ items ++ buffer.drop behind

/-! ## Steps that go on -/

theorem ok_bind {β : Type} (a : α) (f : α → Except Stuck β) : (Except.ok a >>= f : Except Stuck β) = f a := rfl

theorem word_ok {i : Int} (hmin : -2147483648 ≤ i) (hmax : i ≤ 2147483647) : ∃ w, word i = .ok w ∧ w.toInt = i :=
  ⟨.ofInt i, if_pos ⟨hmin, hmax⟩, Int32.toInt_ofInt_of_le hmin (by omega)⟩

theorem addSizes_ok {bits m n : Nat} (h : m + n < Nat.pow 2 bits) : addSizes bits m n = .ok (m + n) := if_pos h

theorem subSizes_ok {m n : Nat} (h : n ≤ m) : subSizes m n = .ok (m - n) := if_pos h

theorem toSize?_eq_some {w : Int32} (h : 0 ≤ w.toInt) : toSize? w = some w.toInt.toNat := if_pos h

theorem toSize?_eq_none {w : Int32} (h : w.toInt < 0) : toSize? w = none := if_neg (Int.not_le.2 h)

theorem toSize_ok {w : Int32} (h : 0 ≤ w.toInt) : toSize w = .ok w.toInt.toNat := by
  rw [toSize, toSize?_eq_some h]

theorem place_ok {buffer : List α} {i : Nat} (h : i < buffer.length) : place buffer i = .ok i := if_pos h

theorem item_ok {buffer : List α} {i : Nat} {a : α} (h : buffer[i]? = some a) : item buffer i = .ok a := by
  rw [item, h]

theorem range_ok {buffer : List α} {first behind : Nat} (h : first ≤ behind) (hlast : behind ≤ buffer.length) :
    range buffer first behind = .ok (first, behind) :=
  if_pos ⟨h, hlast⟩

theorem slice_ok {buffer : List α} {first behind : Nat} (h : first ≤ behind) (hlast : behind ≤ buffer.length) :
    slice buffer first behind = .ok ((buffer.drop first).take (behind - first)) := by
  rw [slice, range_ok h hlast]
  rfl

theorem splice_ok {buffer : List α} {first behind : Nat} (h : first ≤ behind) (hlast : behind ≤ buffer.length)
    (items : List α) : splice buffer first behind items = .ok (buffer.take first ++ items ++ buffer.drop behind) := by
  rw [splice, range_ok h hlast]
  rfl

end Checked

end ManagedRuntime
