import ManagedRuntime.Execution.Region
import ManagedRuntime.Number.Fixed
import ManagedRuntime.Number.Leading
import ManagedRuntime.Text.Search

/-!
# Routines

* `Routine` : the calls of the routine library with their arguments;
* `Value` : what a call answers;
* `Routine.run` : a call as an action; it may raise or fault.
-/

namespace ManagedRuntime.Program

set_option autoImplicit false

open Execution

inductive Value where
  | word (w : Int32)
  | text (t : Text)
  | unit (u : UInt16)
  | number (x : Binary64)
  | wordAndPlace (w place : Int32)
  | numberAndPlace (x : Binary64) (place : Int32)
  | octets (octets : List UInt8)
  | codePoints (codePoints : List UInt32)
  /-- A failure that is answered and not raised. -/
  | refused (f : Failure)

inductive Routine where
  | position (needle haystack : Text)
  | wordToText (w : Int32)
  /-- Reading a word; the flag tells whether a failure is raised. -/
  | textToWord (raising : Bool) (t : Text)
  | textToWordOr (t : Text) (default : Int32)
  | numberToText (x : Binary64)
  | textToNumber (raising : Bool) (t : Text)
  | leadingWord (t : Text)
  | leadingNumber (t : Text)
  | wordInField (w width : Int32)
  | numberInField (x : Binary64) (width decimals : Int32)
  | upperUnit (u : UInt16)
  | upperCase (t : Text)
  | lowerCase (t : Text)
  | trim (t : Text)
  | trimLeft (t : Text)
  | trimRight (t : Text)
  | replicate (u : UInt16) (count : Int32)
  | ofBuffer (buffer : List UInt16) (count : Int32)
  | ofOctets (octets : List UInt8)
  | toOctets (units : List UInt16)
  | toCodePoints (units : List UInt16)
  | ofCodePoints (codePoints : List UInt32)
  | divide (a b : Int32)
  | modulo (a b : Int32)
  | shiftLeft (a amount : Int32)
  | shiftRight (a amount : Int32)

variable {ω α : Type}

/-- Answer a failure, or raise it. -/
def answer (raising : Bool) (value : α → Value) (result : Except Failure α) : Action ω Value :=
  match result with
  | .ok a => pure (value a)
  | .error f => if raising then raiseFailure f else pure (.refused f)

/-- A layout that is refused raises an exception of the host. -/
def layOut (result : Except Layout.Refusal Text) : Action ω Value :=
  match result with
  | .ok t => pure (.text t)
  | .error refusal => raiseForeign (some refusal.message)

/-- Part of a division, whose instruction may trap. -/
def dividing (part : Int32 × Int32 → Int32) (a b : Int32) : Action ω Value :=
  match Word.divide? a b with
  | some result => pure (.word (part result))
  | none => trap .division

def Routine.run : Routine → Action ω Value
  | .position needle haystack => pure (.word (Text.position needle haystack))
  | .wordToText w => pure (.text (Decimal.toText w))
  | .textToWord raising t => answer raising .word (Decimal.read t)
  | .textToWordOr t default => pure (.word (Decimal.readOr t default))
  | .numberToText x => pure (.text (Fixed.toText x))
  | .textToNumber raising t => answer raising .number (Literal.read t)
  | .leadingWord t => pure (.wordAndPlace (LeadingNumber.integer t).1 (LeadingNumber.integer t).2)
  | .leadingNumber t => pure (.numberAndPlace (LeadingNumber.float t).1 (LeadingNumber.float t).2)
  | .wordInField w width => layOut (Layout.integer w width)
  | .numberInField x width decimals => layOut (Fixed.inField x width decimals)
  | .upperUnit u => pure (.unit (Text.upperUnit u))
  | .upperCase t => pure (.text t.upperCase)
  | .lowerCase t => pure (.text t.lowerCase)
  | .trim t => pure (.text t.trim)
  | .trimLeft t => pure (.text t.trimLeft)
  | .trimRight t => pure (.text t.trimRight)
  | .replicate u count => pure (.text (Text.replicate u count))
  | .ofBuffer buffer count => pure (.text (Text.ofBuffer buffer count))
  | .ofOctets octets => pure (.text (Text.ofOctets octets))
  | .toOctets units => pure (.octets (Text.toOctets ⟨units⟩))
  | .toCodePoints units => pure (.codePoints (Text.toCodePoints ⟨units⟩))
  | .ofCodePoints codePoints => pure (.text (Text.ofCodePoints codePoints))
  | .divide a b => dividing Prod.fst a b
  | .modulo a b => dividing Prod.snd a b
  | .shiftLeft a amount => pure (.word (Word.shiftLeft a amount))
  | .shiftRight a amount => pure (.word (Word.shiftRight a amount))

/-- Calls one after the other, each in a region of its own. -/
def runEach : List Routine → Action ω (List (Except Exception Value))
  | [] => pure []
  | call :: rest => do
    let result ← attempt call.run
    let results ← runEach rest
    return result :: results

end ManagedRuntime.Program
