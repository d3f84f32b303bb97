import ManagedRuntime.Fault
import ManagedRuntime.Toml.Library
import ManagedRuntime.Utf8

/-!
# Configuration

* `Configuration` : the four settings, of any values;
* `Configuration.listed` : the signals whose names it lists;
* `Configuration.ofTable?` : the settings of a document; what it leaves out has a default, and what it does
  not know is ignored;
* `Configuration.validate` : the exit code is checked first, then the names of the signals in their order;
* `Configuration.parseBy`, `Configuration.loadBy` : the configuration of a text and of the contents of a file, with
  any library that reads documents;
* `Configuration.printBy` : a document with all settings.
-/

namespace ManagedRuntime

set_option autoImplicit false

/-- What a configuration lists as the name of a signal. -/
structure SignalName where
  name : String
deriving DecidableEq

/-- Which faults are intercepted, and how a program ends that leaves an exception unhandled. -/
structure Configuration where
  /-- If not set, every fault is fatal. -/
  intercept : Bool
  signals : List SignalName
  exitCode : Int32
  /-- Whether the message of an unhandled exception is printed. -/
  reportUnhandled : Bool
deriving DecidableEq

namespace Configuration

def default : Configuration where
  intercept := true
  signals := Signal.all.map fun s => ⟨s.name⟩
  exitCode := 1
  reportUnhandled := true

/-- The signals whose names are listed. Unknown names are passed over. -/
def listed (c : Configuration) : List Signal := c.signals.filterMap fun n => Signal.ofName? n.name

theorem mem_listed_iff {c : Configuration} {signal : Signal} : signal ∈ c.listed ↔ ⟨signal.name⟩ ∈ c.signals := by
  rw [listed, List.mem_filterMap]
  simp only [Signal.ofName?_eq_some_iff]
  constructor
  · rintro ⟨n, hn, hname⟩
    rwa [hname]
  · exact fun h => ⟨⟨signal.name⟩, h, rfl⟩

/-! ## Errors -/

/-- Why the contents of a file are not to be had as text. -/
inductive Unreadable where
  | missing
  | directory
  | notUtf8
deriving DecidableEq

def Unreadable.message : Unreadable → String
  | .missing => "No such file or directory (os error 2)"
  | .directory => "Is a directory (os error 21)"
  | .notUtf8 => "stream did not contain valid UTF-8"

inductive Error where
  | read (reason : Unreadable)
  /-- No document, or a setting with a wrong type. -/
  | parse
  | exitCode (code : Int32)
  | unknownSignal (name : String)
deriving DecidableEq

def Error.message : Error → String
  | .read reason => "Failed to read config file: " ++ reason.message
  | .parse => "Failed to parse TOML config"
  | .exitCode code =>
    "Config validation error: unhandled_exception_code must be in 1..=255, got " ++ String.ofList (Decimal.digits code)
  | .unknownSignal name => "Config validation error: unknown signal name: " ++ name

/-! ## Settings of a document -/

section Reading

open Toml

/-- A value if there is one; it must have the right type. -/
def optional {α : Type} (read : Value → Option α) (value? : Option Value) (default : α) : Option α :=
  match value? with
  | none => some default
  | some value => read value

variable (toml : Library)

def readBoolean (value : Value) : Option Bool :=
  match toml.visit value with
  | .boolean b => some b
  | _ => none

def readText (value : Value) : Option String :=
  match toml.visit value with
  | .text s => some s
  | _ => none

def readNames (value : Value) : Option (List SignalName) :=
  match toml.visit value with
  | .sequence items => items.mapM fun item => (readText toml item).map SignalName.mk
  | _ => none

def readWord (value : Value) : Option Int32 :=
  match toml.visit value with
  | .integer i => Decimal.toWord? i
  | _ => none

/-- The values of a section, looked up by name in a map and by place in a sequence. -/
def sectionValues (names : List String) (value : Value) : Option (List (Option Value)) :=
  match toml.visit value with
  | .map entries => some (names.map fun name => entries.lookup name)
  | .sequence items => some ((List.range names.length).map fun i => items[i]?)
  | _ => none

/-- The values of a section that may be missing. -/
def valuesOf (table : Table) (name : String) (names : List String) : Option (List (Option Value)) :=
  optional (sectionValues toml names) (table.lookup name) (names.map fun _ => none)

def ofTable? (table : Table) : Option Configuration := do
  let faults ← valuesOf toml table "faults" ["intercept", "signals"]
  let exit ← valuesOf toml table "exit" ["unhandled_exception_code", "report_unhandled"]
  let intercept ← optional (readBoolean toml) (faults.getD 0 none) default.intercept
  let signals ← optional (readNames toml) (faults.getD 1 none) default.signals
  let exitCode ← optional (readWord toml) (exit.getD 0 none) default.exitCode
  let reportUnhandled ← optional (readBoolean toml) (exit.getD 1 none) default.reportUnhandled
  return { intercept, signals, exitCode, reportUnhandled }

end Reading

/-! ## Validation -/

/-- The first name that is not the name of a signal. -/
def unknown? (c : Configuration) : Option SignalName := c.signals.find? fun n => (Signal.ofName? n.name).isNone

def validate (c : Configuration) : Except Error Unit :=
  if 1 ≤ c.exitCode.toInt ∧ c.exitCode.toInt ≤ 255 then
    match c.unknown? with
    | some n => .error (.unknownSignal n.name)
    | none => .ok ()
  else .error (.exitCode c.exitCode)

/-! ## Texts and files -/

/-- The octets of a file, or why there are none. -/
abbrev Contents := Except Unreadable (List UInt8)

section

variable (toml : Toml.Library)

def parseBy (cs : List Char) : Except Error Configuration :=
  match (toml.read cs).bind (ofTable? toml) with
  | some c => c.validate.map fun _ => c
  | none => .error .parse

def loadBy (contents : Contents) : Except Error Configuration :=
  match contents with
  | .error reason => .error (.read reason)
  | .ok octets =>
    match Utf8.decode? octets with
    | some cs => parseBy toml cs
    | none => .error (.read .notUtf8)

/-- The sections of a document that gives every setting. -/
def toTable (c : Configuration) : Toml.Table :=
  [("faults", .table [("intercept", .boolean c.intercept), ("signals", .array (c.signals.map fun n => .text n.name))]),
    ("exit", .table
      [("unhandled_exception_code", .integer c.exitCode.toInt), ("report_unhandled", .boolean c.reportUnhandled)])]

def printBy (c : Configuration) : Except String (List Char) := toml.write c.toTable

end

def parse (cs : List Char) : Except Error Configuration := parseBy .plain cs

def load (contents : Contents) : Except Error Configuration := loadBy .plain contents

end Configuration

end ManagedRuntime
