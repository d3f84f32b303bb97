/-!
# Lines

A line of output ends with a line feed. A carriage return directly before the line feed belongs to the end of
the line; anywhere else it is a character of the line.

* `Lines.ofOutput` : the lines of an output, without their ends;
* `Lines.ofPrinted` : the lines that appear when a text is printed with a line feed after it.
-/

namespace ManagedRuntime.Lines

set_option autoImplicit false

/-- A line whose line feed is gone, without the rest of its end. -/
def dropReturn (line : List Char) : List Char :=
  if line.getLast? = some '\r' then line.dropLast else line

/-- A line feed is printed after the text, so each of the lines has an end. -/
def ofPrinted (text : List Char) : List (List Char) := (text.splitOn '\n').map dropReturn

/-- What stands behind the last line feed is a line without an end, if there is anything. -/
def ofOutput (output : List Char) : List (List Char) :=
  let pieces := output.splitOn '\n'
  let last := pieces.getLastD []
  pieces.dropLast.map dropReturn ++ if last = [] then [] else [last]

end ManagedRuntime.Lines
