/-!
# Rounding quotients

* `roundDiv` : a quotient rounded to the nearest integer, a tie going to the even one.
-/

namespace ManagedRuntime

set_option autoImplicit false

/-- The integer nearest to `n / d`; halfway between two integers it is the even one. -/
def roundDiv (n d : Nat) : Nat :=
  let q := n / d
  let r := n % d
  if 2 * r < d then q else if d < 2 * r then q + 1 else q + q % 2

end ManagedRuntime
