/-
Exponential backoff with full jitter (`app/retry.py`).
-/
import EventService.Model.Effects

namespace App

open Prog

variable {P α : Type}

/-- What the product of a `float` and an `int` raises that no `float` can hold. -/
def intTooLarge : Exn := .ofClass .overflowError "int too large to convert to float"

/-- `backoff_delay`: a random delay below the capped ramp. From `2 ** 1024` on a power of two cannot be made a
`float`; before that the product is exact, or infinite, and then `max_delay` is the minimum. -/
def backoffDelay (attempt : Nat) (baseDelay maxDelay : ℚ) : Code P ℚ :=
  if attempt < 1 then raise (.ofClass .valueError "attempt must be >= 1")
  else if 1024 ≤ attempt - 1 then raise intTooLarge
  else ask (.uniform (min maxDelay (baseDelay * 2 ^ (attempt - 1))))

/-- The attempts from number `attempt` on, of which `remaining` are left; only a transient failure
is tried again, and the last one is raised. -/
def retryFrom (operation : Code P α) (maxAttempts : Nat) (baseDelay maxDelay : ℚ) (onRetry : Code P Unit)
    (lastError : Option Exn) : Nat → Code P α
  | 0 =>
    match lastError with
    | none => raise (.ofClass .assertionError "")
    | some exc => raise exc
  | remaining + 1 => do
    let attempt := maxAttempts - remaining
    match ← operation.attempt with
    | .ok a => pure a
    | .error exc =>
      if exc.isTransient then
        -- the loop is left, and its last error raised
        if attempt = maxAttempts then raise exc
        else do
          let delay ← backoffDelay attempt baseDelay maxDelay
          onRetry
          ask (.sleep delay)
          retryFrom operation maxAttempts baseDelay maxDelay onRetry (some exc) remaining
      else raise exc

/-- `retry_transient` -/
def retryTransient (operation : Code P α) (maxAttempts : Nat) (baseDelay maxDelay : ℚ)
    (onRetry : Code P Unit) : Code P α :=
  if maxAttempts < 1 then raise (.ofClass .valueError "max_attempts must be >= 1")
  else retryFrom operation maxAttempts baseDelay maxDelay onRetry none maxAttempts

end App
