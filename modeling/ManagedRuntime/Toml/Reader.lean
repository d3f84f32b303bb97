/-!
# Readers

* `Reader` : what a beginning of the input stands for, and the rest of the input;
* `Reader.many` : a reader applied as often as it consumes something.
-/

namespace ManagedRuntime.Toml

set_option autoImplicit false

abbrev Reader (α : Type) := List Char → Option (α × List Char)

namespace Reader

variable {α : Type}

/-- The rest behind a given beginning. -/
def after (start : List Char) (cs : List Char) : Option (List Char) :=
  if start.isPrefixOf cs then some (cs.drop start.length) else none

/-- All values up to the first place where `item` fails or consumes nothing. -/
def many (item : Reader α) (cs : List Char) : List α × List Char :=
  match item cs with
  | none => ([], cs)
  | some (a, rest) =>
    if rest.length < cs.length then
      let (as, rest) := many item rest
      (a :: as, rest)
    else ([], cs)
termination_by cs.length

/-- The first reader that does not fail. -/
def orElse (p q : Reader α) : Reader α := fun cs => (p cs).or (q cs)

end Reader

end ManagedRuntime.Toml
