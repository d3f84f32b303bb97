import ManagedRuntime.Utf16
import ManagedRuntime.Utf8

/-!
# Decoding in rounds

* `Utf8.check` : the characters of octets, or where the octets stop being valid and what is broken there;
* `Utf8.Progress.round` : a round of lenient decoding, which decodes the valid octets in front and skips the broken
  sequence after them.
-/

namespace ManagedRuntime.Utf8

set_option autoImplicit false

/-- Where octets stop being valid. -/
structure Stop where
  /-- The number of octets in front that are those of characters. -/
  validUpTo : Nat
  /-- The length of the broken sequence after them; none if the end of the octets cuts a sequence off. -/
  broken? : Option Nat
deriving DecidableEq

/-- What a check says of a character of some octets and of what follows. -/
def reportAfter (c : Char) (length : Nat) : Except Stop (List Char) → Except Stop (List Char)
  | .ok cs => .ok (c :: cs)
  | .error stop => .error { stop with validUpTo := length + stop.validUpTo }

def check : List UInt8 → Except Stop (List Char)
  | [] => .ok []
  | lead :: rest =>
    match scan lead rest with
    | .character c following => reportAfter c (following + 1) (check (rest.drop following))
    | .broken following => .error ⟨0, some (following + 1)⟩
    | .truncated => .error ⟨0, none⟩
termination_by octets => octets.length
decreasing_by simp only [List.length_cons, List.length_drop]; omega

/-- The octets that are left, and the units of those before. -/
structure Progress where
  octets : List UInt8
  units : List UInt16

inductive Round where
  | again (p : Progress)
  | finished (units : List UInt16)

/-- The units with those of octets that a check has found valid. -/
def Progress.unitsWith (p : Progress) : Except Stop (List Char) → List UInt16
  | .ok cs => p.units ++ Utf16.encode cs
  | .error _ => p.units

/-- A round, by a check of all octets that are left and then of those that it has found valid. -/
def Progress.round (check : List UInt8 → Except Stop (List Char)) (p : Progress) : Round :=
  match check p.octets with
  | .ok cs => .finished (p.unitsWith (.ok cs))
  | .error stop =>
    let units := p.unitsWith (check (p.octets.take stop.validUpTo))
    match stop.broken? with
    | some skipped => .again ⟨(p.octets.drop stop.validUpTo).drop skipped, units⟩
    | none => .finished units

end ManagedRuntime.Utf8
