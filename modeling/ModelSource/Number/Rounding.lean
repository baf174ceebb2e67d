/-!
# Rounding a quotient

Every inexact step in the library, a decimal cut to so many digits, a number
halved, an integer squeezed into a significand, is the same step: a quotient of
naturals goes to the nearest natural. What differs is only where a half goes,
and that is the one parameter here.
-/

namespace ModelSource

/-- Where a value halfway between two candidates goes. -/
inductive Tie where
  /-- To the larger candidate. -/
  | up
  /-- To the even candidate. -/
  | toEven
deriving DecidableEq

/-- The larger of the candidates `n` and `n + 1` is taken on a tie above `n`. -/
def Tie.takesUpper (tie : Tie) (n : Nat) : Bool :=
  match tie with
  | .up => true
  | .toEven => n % 2 == 1

/-- The natural nearest to `num / den`, for a positive `den`; `tie` settles a half. -/
def roundQuotient (tie : Tie) (num den : Nat) : Nat :=
  let lower := num / den
  let rest := num % den
  if 2 * rest < den then lower
  else if den < 2 * rest then lower + 1
  else if tie.takesUpper lower then lower + 1
  else lower

end ModelSource
