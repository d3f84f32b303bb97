import ManagedRuntime.CommandLine.Outcome

/-!
# The tool

* `main` : reads the file that the arguments ask for, and prints the outcome.
-/

namespace ManagedRuntime.CommandLine

set_option autoImplicit false

def readContents (file : String) : IO Configuration.Contents := do
  try
    let octets ← IO.FS.readBinFile file
    return .ok octets.toList
  catch
    | .noFileOrDirectory .. => return .error .missing
    | _ => return .error .directory

/-- A process that dies by a signal has the status that shells show for it. -/
def statusOf : Execution.Ending → UInt32
  | .exited status => status.toUInt32
  | .killed signal => 128 + signal.number.toInt.toNat.toUInt32
  | .aborted => 134

def printLines (stream : IO.FS.Stream) (lines : List (List Char)) : IO Unit :=
  lines.forM fun line => stream.putStrLn (String.ofList line)

end ManagedRuntime.CommandLine

open ManagedRuntime.CommandLine

def main (arguments : List String) : IO UInt32 := do
  let request := Request.parse arguments
  let contents ← match request.file? with
    | some file => readContents file
    | none => pure (.ok [])
  let outcome := request.outcome .plain contents
  (← IO.getStdout).putStr (String.ofList outcome.output)
  let errors ← IO.getStderr
  printLines errors outcome.reports
  if let some refusal := outcome.refusal then errors.putStrLn ("Error: " ++ refusal.message)
  return statusOf outcome.ending
