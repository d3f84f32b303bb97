import ManagedRuntime.SharedArray.Nested

/-!
# Arrays that share nothing

A plain model of named arrays: every name, and every element of an array of arrays, has a list of its own.

* `Values` : what plain values have to offer; words, numbers and texts do, and so do lists of values;
* `Plain` : lists under names; `Plain.run` : the commands on them;
* `Plain.runText`, `Plain.runNested` : the commands that write to an element itself.
-/

namespace ManagedRuntime.SharedArray

set_option autoImplicit false

/-- Values by themselves, with no state that they refer to. -/
class Values (ι : Type) where
  /-- The value that fills new slots. -/
  blank : ι
  same : ι → ι → Bool
  describe : ι → List Char

instance : Values Int32 := ⟨0, fun v w => v == w, Decimal.digits⟩

instance : Values Binary64 := ⟨.zero, Binary64.same, Shortest.toCharacters⟩

instance : Values Text := ⟨.empty, fun t u => t == u, Text.describe⟩

instance {κ : Type} [Values κ] : Values (List κ) where
  blank := []
  same v w := v.length = w.length && (v.zip w).all fun (a, b) => Values.same a b
  describe v := '[' :: [',', ' '].intercalate (v.map Values.describe) ++ [']']

/-- A list of its own for each name. -/
abbrev Plain (ι : Type) : Type := String → Option (List ι)

namespace Plain

variable {ι κ : Type}

/-! ## Lists -/

def slot (v : List ι) (index : Int32) : Except Failure Nat :=
  if 0 ≤ index.toInt ∧ index.toInt < v.length then .ok index.toInt.toNat
  else .error (.indexOutOfRange "DynArray" index (Word.saturate v.length))

def get (v : List ι) (index : Int32) : Except Failure ι := do
  let i ← slot v index
  match v[i]? with
  | some a => .ok a
  | none => .error (.indexOutOfRange "DynArray" index (Word.saturate v.length))

def set (v : List ι) (index : Int32) (a : ι) : Except Failure (List ι) := (slot v index).map fun i => v.set i a

def resize [Values ι] (v : List ι) (n : Nat) : List ι := v.take n ++ List.replicate (n - v.length) Values.blank

def setLength [Values ι] (v : List ι) (n : Int32) : Except Failure (List ι) :=
  if n < 0 then .error (.invalidArgument "SetLength: negative length") else .ok (resize v n.toInt.toNat)

/-- The elements at `count` places from `first` on, as far as there are any. Negative arguments give none. -/
def slice (v : List ι) (first count : Int32) : List ι :=
  if 0 ≤ first.toInt ∧ 0 ≤ count.toInt then
    (v.take (first.toInt.toNat + count.toInt.toNat)).drop first.toInt.toNat
  else []

theorem slice_eq_range (v : List ι) (first count : Int32) : slice v first count = Pool.range v first count := by
  have hneg : (first < 0 ∨ count < 0) ↔ ¬ (0 ≤ first.toInt ∧ 0 ≤ count.toInt) := by
    rw [Int32.lt_iff_toInt_lt, Int32.lt_iff_toInt_lt, Int32.toInt_zero]
    omega
  simp only [slice, Pool.range, hneg, ite_not, List.drop_take, Nat.add_sub_cancel_left]

/-! ## Names -/

def empty : Plain ι := fun _ => none

def read (m : Plain ι) (h : String) : List ι := (m h).getD []

def bind (m : Plain ι) (h : String) (v : List ι) : Plain ι := fun k => if k = h then some v else m k

/-- A write to an unknown name is lost. -/
def write (m : Plain ι) (h : String) (v : List ι) : Plain ι := fun k => if k = h then (m h).map fun _ => v else m k

def forget (m : Plain ι) (h : String) : Plain ι := fun k => if k = h then none else m k

/-- Writing what a name reads as changes nothing. -/
theorem write_read (m : Plain ι) (h : String) : m.write h (m.read h) = m := by
  funext k
  rw [write]
  by_cases hk : k = h
  · rw [if_pos hk, hk, read]
    cases m h <;> rfl
  · rw [if_neg hk]

theorem write_of_none {m : Plain ι} {h : String} (hm : m h = none) (v : List ι) : m.write h v = m := by
  funext k
  rw [write]
  by_cases hk : k = h
  · rw [if_pos hk, hk, hm]
    rfl
  · rw [if_neg hk]

theorem forget_of_none {m : Plain ι} {h : String} (hm : m h = none) : m.forget h = m := by
  funext k
  rw [forget]
  by_cases hk : k = h
  · rw [if_pos hk, hk, hm]
  · rw [if_neg hk]

def afterWrite (m : Plain ι) (h : String) : Except Failure (List ι) → Except Failure (Reply ι) × Plain ι
  | .ok v => (.ok .done, m.write h v)
  | .error f => (.error f, m)

def run [Values ι] (m : Plain ι) : Command ι → Except Failure (Reply ι) × Plain ι
  | .create h => (.ok .done, m.bind h [])
  | .ofList h items => (.ok .done, m.bind h items)
  | .assign h source => (.ok .done, m.bind h (m.read source))
  | .deepCopy h source => (.ok .done, m.bind h (m.read source))
  | .copyRange h source first count => (.ok .done, m.bind h (slice (m.read source) first count))
  | .forget h => (.ok .done, m.forget h)
  | .setLength h n => m.afterWrite h (setLength (m.read h) n)
  | .get h index => ((get (m.read h) index).map .element, m)
  | .set h index value => m.afterWrite h (set (m.read h) index value)
  | .push h value => (.ok .done, m.write h (m.read h ++ [value]))
  | .length h => (.ok (.word (Word.saturate (m.read h).length)), m)
  | .low _ => (.ok (.word 0), m)
  | .high h => (.ok (.word (Word.saturate (m.read h).length - 1)), m)
  | .isEmpty h => (.ok (.truth (m.read h).isEmpty), m)
  | .refCount _ => (.ok (.count 1), m)
  | .isShared _ => (.ok (.truth false), m)
  | .items h => (.ok (.elements (m.read h)), m)
  | .describe h => (.ok (.characters (Values.describe (m.read h))), m)
  | .same h other => (.ok (.truth (Values.same (m.read h) (m.read other))), m)

/-! ## Elements -/

/-- Put what an operation makes of an element into its place. -/
def update (m : Plain ι) (h : String) (index : Int32) (f : ι → Except Failure ι) : Except Failure Unit × Plain ι :=
  match get (m.read h) index with
  | .error e => (.error e, m)
  | .ok a =>
    match f a with
    | .error e => (.error e, m)
    | .ok b => (.ok (), m.write h ((m.read h).set index.toInt.toNat b))

def runText (m : Plain Text) : TextCommand → Except Failure (Reply Text) × Plain Text
  | .general command => m.run command
  | .setChar h index position unit =>
    let (reply, m) := m.update h index fun t => t.setChar position unit
    (reply.map fun _ => .done, m)

/-- Answers about arrays of arrays. -/
inductive NestedReply (κ : Type) where
  | outer (reply : Reply (List κ))
  | inner (a : κ)

def updateInner (m : Plain (List κ)) (h : String) (index : Int32) (f : List κ → Except Failure (List κ)) :
    Except Failure (NestedReply κ) × Plain (List κ) :=
  let (reply, m) := m.update h index f
  (reply.map fun _ => .outer .done, m)

def runNested [Values κ] (m : Plain (List κ)) : NestedCommand κ → Except Failure (NestedReply κ) × Plain (List κ)
  | .general command => let (reply, m) := m.run command; (reply.map .outer, m)
  | .get h index inner => (do let v ← get (m.read h) index; return .inner (← get v inner), m)
  | .set h index inner value => m.updateInner h index fun v => set v inner value
  | .push h index value => m.updateInner h index fun v => .ok (v ++ [value])
  | .setLength h index n => m.updateInner h index fun v => setLength v n
  | .share h index source =>
    match get (m.read h) source with
    | .ok v => m.updateInner h index fun _ => .ok v
    | .error e => (.error e, m)

end Plain

/-- Commands that do not ask how buffers are shared. -/
def Command.AsksContents {ι : Type} : Command ι → Prop
  | .refCount _ | .isShared _ => False
  | _ => True

end ManagedRuntime.SharedArray
