import ManagedRuntime.CommandLine.Help

/-!
# Outcomes

* `Outcome` : how a run of the tool ends, and what it prints;
* `Request.outcome` : what a request does with a library for documents, given the contents of the file that it reads;
* `outcome` : a run of the tool among files.
-/

namespace ManagedRuntime.CommandLine

set_option autoImplicit false

open Execution

/-- Why a request fails. -/
inductive Refusal where
  /-- The file that was asked for is no configuration. -/
  | configuration (e : Configuration.Error)
  /-- The configuration cannot be written. -/
  | unwritable (message : String)

def Refusal.message : Refusal → String
  | .configuration e => e.message
  | .unwritable message => message

structure Outcome where
  ending : Ending
  output : List Char
  /-- Reports of unhandled exceptions and of runtime errors. -/
  reports : List (List Char)
  refusal : Option Refusal

/-- The characters of texts that are printed, with a line feed after each of them. -/
def printedLines (texts : List (List Char)) : List Char := texts.flatMap fun text => text ++ ['\n']

namespace Outcome

def printing (output : List Char) : Outcome := ⟨.exited 0, output, [], none⟩

/-- Arguments that ask for nothing. -/
def misuse : Outcome := ⟨.exited 2, [], [], none⟩

def refused (refusal : Refusal) : Outcome := ⟨.exited 1, [], [], some refusal⟩

/-- The lines of the output; the name of a file may hold line feeds of its own. -/
def lines (o : Outcome) : List (List Char) := Lines.ofOutput o.output

end Outcome

/-! ## Scenarios -/

def describeKind : Exception.Kind → List Char
  | .none => "None".toList
  | .software code => "Software \x7b code: ".toList ++ Decimal.digits code ++ " \x7d".toList
  | .invalidArgument => "InvalidArgument".toList
  | .indexOutOfRange => "IndexOutOfRange".toList
  | .fault f => "HardwareFault(".toList ++ f.name.toList ++ [')']

def describeCaught (e : Exception) : List Char :=
  "caught kind=".toList ++ describeKind e.kind ++ " code=".toList ++ Decimal.digits e.code ++
    " message=".toList ++ e.message.characters

def completed : List Char := "completed".toList

/-- A process with a configuration in use, before anything was caught. -/
def machine (c : Configuration) : Machine (Option Exception) := ⟨Process.start.initWith c, .fresh, none⟩

/-- An exception cannot leave the tool: its scenarios run in a region, or as a main action. -/
def endingOf {α : Type} (status : α → UInt8) : Flow α → Ending
  | .done a => .exited (status a)
  | .ended ending => ending
  | .unwinding _ => .aborted
  | .resuming _ => .aborted

/-- What a scenario prints if it is done. -/
def outputOf {α : Type} (lines : α → List (List Char)) : Flow α → List Char
  | .done a => printedLines (lines a)
  | _ => []

def outcomeProtected (s : Scenario) (c : Configuration) : Outcome :=
  let (flow, m) := s.runProtected (machine c)
  ⟨endingOf (fun _ => 0) flow, outputOf (fun _ => [(m.world.map describeCaught).getD completed]) flow,
    m.process.reports, none⟩

def outcomeUnprotected (s : Scenario) (c : Configuration) : Outcome :=
  let (flow, m) := s.runUnprotected (machine c)
  ⟨endingOf (fun code => UInt8.ofInt code.toInt) flow,
    outputOf (fun code => if code = 0 then [completed] else []) flow, m.process.reports, none⟩

/-! ## Requests -/

/-- A scenario without a file runs with the default configuration. -/
def Request.outcome (toml : Toml.Library) (contents : Configuration.Contents) : Request → Outcome
  | .trigger s unprotected file =>
    match (if file.isSome then Configuration.loadBy toml contents else .ok .default) with
    | .ok c => if unprotected then outcomeUnprotected s c else outcomeProtected s c
    | .error e => .refused (.configuration e)
  | .check file =>
    match Configuration.loadBy toml contents with
    | .ok c =>
      match c.printBy toml with
      | .ok text => .printing (printedLines [(file ++ ": OK").toList] ++ text)
      | .error message => .refused (.unwritable message)
    | .error e => .refused (.configuration e)
  | .help topic long => .printing (printedLines ((topic.helpLines long).map String.toList))
  | .version => .printing (printedLines ["strata 0.1.0".toList])
  | .misuse => .misuse

def outcome (files : String → Configuration.Contents) (arguments : List String) : Outcome :=
  let request := Request.parse arguments
  request.outcome .plain (files (request.file?.getD ""))

end ManagedRuntime.CommandLine
