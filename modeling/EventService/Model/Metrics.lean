/-
The code with its metrics (`app/metrics.py`): what the API and the worker count, and the gauges they set,
between their calls. Everything else is as in the other modules, under the same names.
-/
import EventService.Model.Api
import EventService.Model.System
import EventService.Program.Marks

namespace App

open Prog

variable {P : Type} (S : Service P)

/-- The label of `RATE_LOOKUPS`. -/
inductive LookupResult
  | cacheHit
  | fetched
  | failed
  deriving DecidableEq

/-- An update of a metric: counters and the histogram count up (`eventsReceived` by a number), gauges
are set. The time that `PROCESSING_SECONDS` observes is left out. -/
inductive Metric
  | eventsReceived (amount : Nat)
  | eventsRejected (reason : String)
  | eventsProcessed (result : Outcome)
  | eventsFailed (reason : String)
  | eventsRetried
  | eventsDeadLettered
  | processingSeconds
  | queueLag (value : Nat)
  | queuePending (value : Nat)
  | queueLength (value : Nat)
  | dlqLength (value : Nat)
  | rateLookups (result : LookupResult)
  deriving DecidableEq

/-- Code with its metrics. -/
abbrev Metered (P : Type) (α : Type) : Type := Prog (Marked (Op P) Metric) (Marked.Reply Metric (@Op.Reply P)) Exn α

namespace Metered

/-- Code that updates no metric. -/
abbrev plain {α : Type} (code : Code P α) : Metered P α := code.bare

abbrev count (m : Metric) : Metered P Unit := leave m

/-! ## Processing an event -/

/-- `get_rate` -/
def getRate (currency : PyStr) : Metered P Decimal := do
  let currency := PyStr.upper currency
  if currency = baseCurrency then do
    count (.rateLookups .cacheHit)
    pure (.finite false 1 0)
  else
    match ← plain (readCache S currency) with
    | some cached => do
      count (.rateLookups .cacheHit)
      pure cached
    | none =>
      match ← plain (ask (.fetch currency)) with
      | .error (.event .unknownCurrencyError message) => do
        count (.rateLookups .failed)
        raise (.event .unknownCurrencyError message)
      | .error (.event .rateUnavailableError message) => do
        count (.rateLookups .failed)
        raise (.event .rateUnavailableError message)
      | .error _ => do
        count (.rateLookups .failed)
        raise (.event .rateUnavailableError ("rate lookup failed for " ++ String.ofList currency))
      | .ok rate => do
        count (.rateLookups .fetched)
        plain (writeCache S currency rate)
        pure rate

/-- `EventProcessor.process` -/
def process (event : TransactionEvent) : Metered P Outcome := do
  let rate ← getRate S event.currency
  plain (ask (.record event.currency rate))
  let amountUsd ← ofExcept (convertToUsd event.amount rate)
  let now ← plain (ask .now)
  let inserted ← plain (store S (event.values amountUsd rate now))
  if inserted then pure .stored else pure .duplicate

/-- The attempts of `retry_transient`. -/
def retryFrom {α : Type} (operation : Metered P α) (maxAttempts : Nat) (baseDelay maxDelay : ℚ)
    (onRetry : Metered P Unit) (lastError : Option Exn) : Nat → Metered P α
  | 0 =>
    match lastError with
    | none => raise (.ofClass .assertionError "")
    | some exc => raise exc
  | remaining + 1 => do
    let attempt := maxAttempts - remaining
    match ← operation.attempt with
    | .ok a => pure a
    | .error exc =>
      if exc.isTransient then
        if attempt = maxAttempts then raise exc
        else do
          let delay ← plain (backoffDelay attempt baseDelay maxDelay)
          onRetry
          plain (ask (.sleep delay))
          retryFrom operation maxAttempts baseDelay maxDelay onRetry (some exc) remaining
      else raise exc

/-- `retry_transient` -/
def retryTransient {α : Type} (operation : Metered P α) (maxAttempts : Nat) (baseDelay maxDelay : ℚ)
    (onRetry : Metered P Unit) : Metered P α :=
  if maxAttempts < 1 then raise (.ofClass .valueError "max_attempts must be >= 1")
  else retryFrom operation maxAttempts baseDelay maxDelay onRetry none maxAttempts

/-! ## The consumer -/

/-- `_dead_letter` -/
def tryDeadLetter (message : QueuedMessage P) (reason : String) : Metered P Unit := do
  let _ ← (do
    plain (deadLetter message reason)
    count .eventsDeadLettered).attempt
  pure ()

/-- The body of `_handle_one` that may raise. -/
def handleEvent (message : QueuedMessage P) : Metered P Outcome := do
  let event ← ofExcept (parse S message)
  retryTransient (process S event) S.settings.maxAttempts S.settings.retryBaseDelay
    S.settings.retryMaxDelay (count .eventsRetried)

/-- `exc.reason`, which only the service's own exceptions have. -/
def reason : Exn → String
  | .event cls _ => cls.reason
  | .foreign _ => ""

/-- `_handle_one`: `PROCESSING_SECONDS` is observed in the `finally` clause, behind the handling of an
exception. -/
def handleOne (message : QueuedMessage P) : Metered P (Option Nat) := do
  match ← (handleEvent S message).attempt with
  | .ok outcome => do
    count .processingSeconds
    count (.eventsProcessed outcome)
    pure (some message.messageId)
  | .error exc =>
    if exc.isPermanent then do
      count (.eventsFailed (reason exc))
      tryDeadLetter message exc.str
      count .processingSeconds
      pure none
    else if exc.isTransient then do
      count (.eventsFailed (reason exc))
      count .processingSeconds
      pure none
    else do
      count (.eventsFailed "unknown")
      count .processingSeconds
      pure none

/-- The messages that may still be handled. -/
def retryable : List (QueuedMessage P) → Metered P (List (QueuedMessage P))
  | [] => pure []
  | message :: messages =>
    if S.settings.maxDeliveries < message.deliveryCount then do
      tryDeadLetter message (exceededReason S)
      retryable messages
    else do
      let rest ← retryable messages
      pure (message :: rest)

/-- One round of `_reclaim_loop`. -/
def reclaimRound (worker : Nat) : Metered P (Next P) := do
  if ← plain (stopIsSet worker) then
    pure .stop
  else do
    plain (ask (.sleep S.settings.reclaimInterval))
    if ← plain (stopIsSet worker) then
      pure .stop
    else
      match ← plain (reclaim S worker).attempt with
      | .error _ => pure .again
      | .ok messages =>
        if messages = [] then pure .again
        else do
          let messages ← retryable S messages
          if messages ≠ [] then pure (.handle messages) else pure .again

/-- Set the gauges of the queue. -/
def setGauges (stats : QueueStats) : Metered P Unit := do
  count (.queueLength stats.length)
  count (.queuePending stats.pending)
  count (.queueLag stats.lag)
  count (.dlqLength stats.dlqLength)

/-- One round of `_metrics_loop`. -/
def metricsRound (worker : Nat) : Metered P (Next P) := do
  if ← plain (stopIsSet worker) then
    pure .stop
  else do
    let _ ← (do
      let health ← plain stats
      setGauges health).attempt
    plain (ask (.sleep S.settings.metricsRefreshInterval))
    pure .again

/-- One round of each loop; the consume loop updates no metric itself. -/
def round (worker : Nat) : Loop → Metered P (Next P)
  | .consume => plain (consumeRound S worker)
  | .reclaim => reclaimRound S worker
  | .metrics => metricsRound S worker

/-! ## The API -/

/-- `unhandled_exception_handler` -/
def unhandled : Metered P Response := do
  count (.eventsRejected "internal_error")
  pure internalError

/-- Answer the exceptions that leave an endpoint, and count what it received. -/
def respond {α : Type} (p : Code P α) (f : α → Response) (received : Nat) : Metered P Response := do
  match ← plain p.attempt with
  | .ok a => do
    count (.eventsReceived received)
    pure (f a)
  | .error (.foreign e) =>
    if e.cls.isRedisError then do
      count (.eventsRejected "queue_unavailable")
      pure queueUnavailable
    else unhandled
  | .error (.event _ _) => unhandled

/-- The answer to complaints: what the rendering raises nobody catches. -/
def complained (renders : Bool) : Metered P Response := if renders then pure unprocessable else unhandled

/-- `receive_event` -/
def receiveEvent (body : EventIn) : Metered P Response :=
  match validate body with
  | .error (.validationError _) => complained body.renders
  | .error .overflowError => unhandled
  | .ok event => respond (publish S event) (.accepted event.id) 1

/-- `receive_events` -/
def receiveEvents (body : List EventIn) : Metered P Response :=
  if body = [] then pure unprocessable
  else
    match validateAll body with
    | .error (.validationError _) => complained (body.all EventIn.renders)
    | .error .overflowError => unhandled
    | .ok events =>
      if maxBatchSize < events.length then do
        count (.eventsRejected "batch_too_large")
        pure (.failed 413 ("batch may contain at most " ++ toString maxBatchSize ++ " events"))
      else respond (publishMany S events) (fun ids => .batchAccepted ids.length ids) events.length

def serve : Request → Metered P Response
  | .startup => plain (startup)
  | .event body => receiveEvent S body
  | .events body => receiveEvents S body

end Metered

end App
