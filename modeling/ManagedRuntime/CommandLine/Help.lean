import ManagedRuntime.CommandLine.Request

/-!
# Help

* `Topic.helpLines` : the lines of the help on a command. The help on scenarios has a long form, which
  explains each of them.
-/

namespace ManagedRuntime.CommandLine

set_option autoImplicit false

namespace Topic

def spaces (n : Nat) : String := String.ofList (List.replicate n ' ')

/-- The names of the scenarios behind one another. -/
def scenarioNames : String := ", ".intercalate (Scenario.all.map Scenario.name)

/-- A scenario with what it does; what they do begins in the same column. -/
def explain (s : Scenario) : String :=
  let width := (Scenario.all.map fun s => s.name.length).foldl max 0
  spaces 10 ++ "- " ++ s.name ++ ": " ++ spaces (width - s.name.length) ++ s.about

def triggerShort : List String :=
  ["Arguments:",
    "  <SCENARIO>  What to trigger [possible values: " ++ scenarioNames ++ "]",
    "",
    "Options:",
    "      --unprotected      Run outside any protected region, as an unhandled failure",
    "  -c, --config <CONFIG>  Runtime configuration file (strata.toml)",
    "  -h, --help             Print help (see more with '--help')"]

def triggerLong : List String :=
  ["Arguments:", "  <SCENARIO>", "          What to trigger", "", "          Possible values:"] ++
    Scenario.all.map explain ++
    ["",
      "Options:",
      "      --unprotected",
      "          Run outside any protected region, as an unhandled failure",
      "",
      "  -c, --config <CONFIG>",
      "          Runtime configuration file (strata.toml)",
      "",
      "  -h, --help",
      "          Print help (see a summary with '-h')"]

/-- The help on the command that gives help on the commands below the given one. -/
def helpOnHelp (command : String) : List String :=
  ["Print this message or the help of the given subcommand(s)",
    "",
    "Usage: " ++ command ++ " help [COMMAND]...",
    "",
    "Arguments:",
    "  [COMMAND]...  Print help for the subcommand(s)"]

def helpLines (topic : Topic) (long : Bool) : List String :=
  match topic with
  | .tool =>
    ["Exercise and configure the strata runtime",
      "",
      "Usage: strata <COMMAND>",
      "",
      "Commands:",
      "  trigger  Trigger a fault, exception or termination and report how the runtime handles it",
      "  config   Inspect runtime configuration files",
      "  help     Print this message or the help of the given subcommand(s)",
      "",
      "Options:",
      "  -h, --help     Print help",
      "  -V, --version  Print version"]
  | .trigger =>
    ["Trigger a fault, exception or termination and report how the runtime handles it",
      "",
      "Usage: strata trigger [OPTIONS] <SCENARIO>",
      ""] ++ if long then triggerLong else triggerShort
  | .config =>
    ["Inspect runtime configuration files",
      "",
      "Usage: strata config <COMMAND>",
      "",
      "Commands:",
      "  check  Validate a configuration file and print the effective settings",
      "  help   Print this message or the help of the given subcommand(s)",
      "",
      "Options:",
      "  -h, --help  Print help"]
  | .check =>
    ["Validate a configuration file and print the effective settings",
      "",
      "Usage: strata config check <FILE>",
      "",
      "Arguments:",
      "  <FILE>  Configuration file to check",
      "",
      "Options:",
      "  -h, --help  Print help"]
  | .help => helpOnHelp "strata"
  | .configHelp => helpOnHelp "strata config"

end Topic

end ManagedRuntime.CommandLine
