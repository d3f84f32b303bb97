import ManagedRuntime.CommandLine.Scenario

/-!
# Requests

* `Topic` : the commands of the tool, and what can be asked about;
* `Request` : what a command line asks for;
* `Request.parse` : arguments are read from the left, and the first one that is wrong or asks for help decides.
-/

namespace ManagedRuntime.CommandLine

set_option autoImplicit false

/-! ## Commands and options -/

inductive Topic where
  | tool
  | trigger
  | config
  | check
  /-- The command that gives help on the commands of the tool. -/
  | help
  /-- The command that gives help on the commands below `config`. -/
  | configHelp
deriving DecidableEq

/-- The commands below a command. -/
def Topic.commands : Topic → List (String × Topic)
  | .tool => [("trigger", .trigger), ("config", .config), ("help", .help)]
  | .config => [("check", .check), ("help", .configHelp)]
  | _ => []

def Topic.command? (topic : Topic) (name : String) : Option Topic := topic.commands.lookup name

/-- Options, which are given by a long name after two dashes or by a letter after one. -/
inductive Switch where
  | help
  | version
  | unprotected
  /-- The only one with a value. -/
  | config
deriving DecidableEq

def Switch.longName : Switch → List Char
  | .help => "help".toList
  | .version => "version".toList
  | .unprotected => "unprotected".toList
  | .config => "config".toList

def Switch.letter? : Switch → Option Char
  | .help => some 'h'
  | .version => some 'V'
  | .unprotected => none
  | .config => some 'c'

def Topic.switches : Topic → List Switch
  | .tool => [.help, .version]
  | .trigger => [.unprotected, .config, .help]
  | .config => [.help]
  | .check => [.help]
  | .help | .configHelp => []

/-! ## Requests -/

inductive Request where
  | trigger (scenario : Scenario) (unprotected : Bool) (file : Option String)
  | check (file : String)
  /-- Long help also explains the values of arguments. -/
  | help (topic : Topic) (long : Bool)
  | version
  | misuse
deriving DecidableEq

/-- What the arguments of a command have said so far. -/
structure Draft where
  positional : Option String
  unprotected : Bool
  file : Option String
  /-- The last option still needs its value. -/
  awaiting : Bool
  /-- No more options follow. -/
  closed : Bool

namespace Draft

def empty : Draft := ⟨none, false, none, false, false⟩

/-- Whether a command takes a value as its positional argument: the name of a scenario, or of a file. -/
def takes (topic : Topic) (value : String) : Bool :=
  match topic with
  | .trigger => (Scenario.ofName? value).isSome
  | .check => value ≠ ""
  | _ => false

/-- No command takes two positional arguments. -/
def addPositional (topic : Topic) (d : Draft) (value : String) : Except Request Draft :=
  if d.positional.isNone && takes topic value then .ok { d with positional := some value } else .error .misuse

def addFile (d : Draft) (value : String) : Except Request Draft :=
  if value = "" then .error .misuse else .ok { d with file := some value, awaiting := false }

/-- An option without a value; no option is given twice. -/
def addSwitch (topic : Topic) (long : Bool) (d : Draft) : Switch → Except Request Draft
  | .help => .error (.help topic long)
  | .version => .error .version
  | .unprotected => if d.unprotected then .error .misuse else .ok { d with unprotected := true }
  | .config => if d.file.isSome then .error .misuse else .ok { d with awaiting := true }

/-- An option with a value in the same argument. -/
def addValued (d : Draft) (value : String) : Switch → Except Request Draft
  | .config => if d.file.isSome then .error .misuse else d.addFile value
  | _ => .error .misuse

/-! ## One argument -/

/-- What stands behind the first `=`, and what stands before it. -/
def splitValue (cs : List Char) : List Char × Option (List Char) :=
  match cs.dropWhile (· ≠ '=') with
  | [] => (cs, none)
  | _ :: value => (cs.takeWhile (· ≠ '='), some value)

def addLong (topic : Topic) (d : Draft) (cs : List Char) : Except Request Draft :=
  let (name, value) := splitValue cs
  match topic.switches.find? fun s => s.longName == name, value with
  | none, _ => .error .misuse
  | some s, none => d.addSwitch topic true s
  | some s, some value => d.addValued (String.ofList value) s

/-- Letters of options; what follows an option with a value is its value. -/
def addLetters (topic : Topic) (d : Draft) : List Char → Except Request Draft
  | [] => .ok d
  | c :: rest =>
    match topic.switches.find? fun s => s.letter? == some c with
    | none => .error .misuse
    | some .config =>
      match rest with
      | [] => d.addSwitch topic false .config
      | '=' :: value => d.addValued (String.ofList value) .config
      | value => d.addValued (String.ofList value) .config
    | some s => do
      let d ← d.addSwitch topic false s
      d.addLetters topic rest

/-- A dash by itself is a value; two dashes by themselves end the options. -/
def add (topic : Topic) (d : Draft) (argument : String) : Except Request Draft :=
  if d.closed then d.addPositional topic argument
  else
    match argument.toList with
    | ['-', '-'] => if d.awaiting then .error .misuse else .ok { d with closed := true }
    | '-' :: '-' :: cs => if d.awaiting then .error .misuse else d.addLong topic cs
    | '-' :: c :: cs => if d.awaiting then .error .misuse else d.addLetters topic (c :: cs)
    | _ => if d.awaiting then d.addFile argument else d.addPositional topic argument

/-- The request of a whole command, in which nothing is missing. -/
def finish (topic : Topic) (d : Draft) : Request :=
  match d.awaiting, topic, d.positional with
  | false, .trigger, some name =>
    match Scenario.ofName? name with
    | some s => .trigger s d.unprotected d.file
    | none => .misuse
  | false, .check, some file => .check file
  | _, _, _ => .misuse

end Draft

/-! ## Whole command lines -/

namespace Request

def ofDraft (topic : Topic) : Except Request Draft → Request
  | .ok d => d.finish topic
  | .error request => request

/-- Help on the command that the names lead to. -/
def helpOn (topic : Topic) : List String → Request
  | [] => .help topic true
  | name :: rest =>
    match topic.command? name with
    | some topic => helpOn topic rest
    | none => .misuse

/-- Arguments of a command; with commands below it, one of them comes first. -/
def ofArguments (topic : Topic) : List String → Request
  | [] => .misuse
  | argument :: rest =>
    match topic.command? argument with
    | some .help | some .configHelp => helpOn topic rest
    | some command => ofArguments command rest
    | none => ofDraft topic ((argument :: rest).foldlM (Draft.add topic) .empty)

def parse (arguments : List String) : Request := ofArguments .tool arguments

/-- The file that a request reads. -/
def file? : Request → Option String
  | .trigger _ _ file => file
  | .check file => some file
  | _ => none

end Request

end ManagedRuntime.CommandLine
