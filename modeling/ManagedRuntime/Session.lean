/-!
# Sessions

* `Session.run` : commands one after the other, with the answer of each and the state after it;
* `Session.final` : the state in which a session ends.
-/

namespace ManagedRuntime.Session

set_option autoImplicit false

variable {σ κ ρ : Type}

def run (step : σ → κ → ρ × σ) (s : σ) : List κ → List (ρ × σ)
  | [] => []
  | command :: rest => step s command :: run step (step s command).2 rest

/-- The state after the last answer, which is the first state if there is none. -/
def final (s : σ) (answers : List (ρ × σ)) : σ := (answers.getLast?.map Prod.snd).getD s

/-- Keep the state where a command is refused. -/
def keeping {φ : Type} (step : σ → κ → Except φ (ρ × σ)) (s : σ) (command : κ) : Except φ ρ × σ :=
  match step s command with
  | .ok (reply, s) => (.ok reply, s)
  | .error f => (.error f, s)

end ManagedRuntime.Session
