/-!
# Hardware faults

* `Signal` : the four signals by which the platform reports a fault.
* `Fault` : the classes of faults, each with a code and a fixed description.
* `Fault.ofSignal` : the class of a signal, refined by the code that comes with it.
* `Fault.ofStatus` : the class of a structured exception status.
-/

namespace ManagedRuntime

set_option autoImplicit false

/-! ## Signals -/

inductive Signal where
  | fpe
  | segv
  | ill
  | bus
deriving DecidableEq

namespace Signal

def name : Signal → String
  | .fpe => "SIGFPE"
  | .segv => "SIGSEGV"
  | .ill => "SIGILL"
  | .bus => "SIGBUS"

/-- In the order in which they are intercepted by default. -/
def all : List Signal := [.fpe, .segv, .ill, .bus]

def ofName? (name : String) : Option Signal := all.find? fun s => s.name == name

theorem ofName?_eq_some_iff {name : String} {signal : Signal} : ofName? name = some signal ↔ signal.name = name := by
  constructor
  · intro h
    have hfound := List.find?_some (p := fun s : Signal => s.name == name) h
    exact beq_iff_eq.1 hfound
  · rintro rfl
    cases signal <;> rfl

def number : Signal → Int32
  | .fpe => 8
  | .segv => 11
  | .ill => 4
  | .bus => 7

end Signal

/-! ## Classes of faults -/

inductive Fault where
  | divideByZero
  | accessViolation
  | stackOverflow
  | numericOverflow
  | illegalInstruction
  | busError
  | unknown
deriving DecidableEq

namespace Fault

def code : Fault → Int32
  | .divideByZero => 2
  | .accessViolation => 3
  | .stackOverflow => 4
  | .numericOverflow => 5
  | .illegalInstruction => 6
  | .busError => 7
  | .unknown => 8

def description : Fault → String
  | .divideByZero => "Divide by zero"
  | .accessViolation => "Segmentation fault"
  | .stackOverflow => "Stack overflow"
  | .numericOverflow => "Numeric overflow"
  | .illegalInstruction => "Illegal instruction"
  | .busError => "Bus error"
  | .unknown => "Hardware exception"

def name : Fault → String
  | .divideByZero => "DivideByZero"
  | .accessViolation => "AccessViolation"
  | .stackOverflow => "StackOverflow"
  | .numericOverflow => "NumericOverflow"
  | .illegalInstruction => "IllegalInstruction"
  | .busError => "BusError"
  | .unknown => "Unknown"

def all : List Fault :=
  [.divideByZero, .accessViolation, .stackOverflow, .numericOverflow, .illegalInstruction, .busError, .unknown]

def ofName? (name : String) : Option Fault := all.find? fun f => f.name == name

/-! ## Classification -/

/-- Integer overflow, floating-point overflow and underflow, as reported with an arithmetic signal. -/
def overflowCodes : List Int32 := [2, 4, 5]

/--
The code tells an overflow from a division; an access is taken for a violation, not for an overflow of
the stack.
-/
def ofSignal (signal : Signal) (code : Int32) : Fault :=
  match signal with
  | .fpe => if code ∈ overflowCodes then .numericOverflow else .divideByZero
  | .segv => .accessViolation
  | .ill => .illegalInstruction
  | .bus => .busError

/-- The class of a signal given by its number. -/
def ofSignalNumber (number code : Int32) : Fault :=
  match Signal.all.find? fun s => s.number == number with
  | some signal => ofSignal signal code
  | none => .unknown

/-- Every status with a class of its own. -/
def statuses : List (UInt32 × Fault) :=
  [(0xC0000005, .accessViolation), (0xC0000006, .accessViolation), (0xC0000094, .divideByZero),
    (0xC000008E, .divideByZero), (0xC0000090, .divideByZero), (0xC00000FD, .stackOverflow),
    (0xC0000095, .numericOverflow), (0xC0000091, .numericOverflow), (0xC0000093, .numericOverflow),
    (0xC000001D, .illegalInstruction), (0xC0000096, .illegalInstruction)]

def ofStatus (status : UInt32) : Fault := (statuses.lookup status).getD .unknown

end Fault

end ManagedRuntime
