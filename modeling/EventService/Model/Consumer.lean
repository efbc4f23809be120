/-
The queue consumer (`app/consumer.py`): what each of its three loops does in one round, and how a
batch of messages is handled. A round of the consume or the reclaim loop ends with the messages it
wants handled; their handlers run concurrently, and the ids they return are acknowledged together.
-/
import EventService.Model.Processor
import EventService.Model.Queue
import EventService.Model.Retry

namespace App

open Prog

variable {P : Type} (S : Service P)

/-- How one round of a loop ends: the loop returns, goes round again, or hands over a batch. -/
inductive Next (P : Type)
  | stop
  | again
  | handle (messages : List (QueuedMessage P))

/-- `_parse` -/
def parse (message : QueuedMessage P) : Except Exn TransactionEvent :=
  match S.json.modelValidateJson message.payload with
  | .ok event => .ok event
  | .error exc =>
    match exc with
    | .foreign ⟨.validationError, text⟩ => .error (.event .invalidEventError ("unparsable payload: " ++ text))
    | exc => .error exc

/-- `_ack`: a failed acknowledgement is only logged. -/
def tryAck (messageIds : List Nat) : Code P Unit := do
  let _ ← (ack messageIds).attempt
  pure ()

/-- `_dead_letter`: a failure leaves the message pending. -/
def tryDeadLetter (message : QueuedMessage P) (reason : String) : Code P Unit := do
  let _ ← (deadLetter message reason).attempt
  pure ()

/-- The body of `_handle_one` that may raise. -/
def handleEvent (message : QueuedMessage P) : Code P Outcome := do
  let event ← ofExcept (parse S message)
  retryTransient (process S event) S.settings.maxAttempts S.settings.retryBaseDelay
    S.settings.retryMaxDelay (pure ())

/-- `_handle_one`: the message's id if it is ready to be acknowledged. -/
def handleOne (message : QueuedMessage P) : Code P (Option Nat) := do
  match ← (handleEvent S message).attempt with
  | .ok _ => pure (some message.messageId)
  | .error exc =>
    if exc.isPermanent then do
      tryDeadLetter message exc.str
      pure none
    -- out of attempts, or a bug: either way the message stays pending
    else pure none

/-- The end of `_handle_batch`: one acknowledgement for all handlers that succeeded. -/
def ackDone (results : List (Option Nat)) : Code P Unit :=
  let done := results.filterMap id
  if done = [] then pure () else tryAck done

/-- `self._stop.is_set()` -/
def stopIsSet (worker : Nat) : Code P Bool := ask (.stopIsSet worker)

/-- One round of `_consume_loop`. -/
def consumeRound (worker : Nat) : Code P (Next P) := do
  if ← stopIsSet worker then
    pure .stop
  else
    match ← (read worker S.settings.batchSize).attempt with
    | .error _ => do
      ask (.sleep 1)
      pure .again
    | .ok messages =>
      if messages ≠ [] then pure (.handle messages)
      else if S.settings.blockMs ≤ 0 then do
        ask (.sleep S.settings.idlePollInterval)
        pure .again
      else pure .again

/-- The reason of a message that was delivered too often. -/
def exceededReason : String :=
  "exceeded " ++ toString S.settings.maxDeliveries ++ " delivery attempts"

/-- The messages that may still be handled; the others are dead-lettered one by one. -/
def retryable : List (QueuedMessage P) → Code P (List (QueuedMessage P))
  | [] => pure []
  | message :: messages =>
    if S.settings.maxDeliveries < message.deliveryCount then do
      tryDeadLetter message (exceededReason S)
      retryable messages
    else do
      let rest ← retryable messages
      pure (message :: rest)

/-- Claim stale messages, and acknowledge those that were trimmed away. -/
def reclaim (worker : Nat) : Code P (List (QueuedMessage P)) := do
  let (messages, deleted) ← claimStale worker S.settings.reclaimIdleMs S.settings.batchSize
  if deleted ≠ [] then do
    let _ ← ack deleted
    pure messages
  else pure messages

/-- One round of `_reclaim_loop`. -/
def reclaimRound (worker : Nat) : Code P (Next P) := do
  if ← stopIsSet worker then
    pure .stop
  else do
    ask (.sleep S.settings.reclaimInterval)
    if ← stopIsSet worker then
      pure .stop
    else
      match ← (reclaim S worker).attempt with
      | .error _ => pure .again
      | .ok messages =>
        if messages = [] then pure .again
        else do
          let messages ← retryable S messages
          if messages ≠ [] then pure (.handle messages) else pure .again

/-- One round of `_metrics_loop`. -/
def metricsRound (worker : Nat) : Code P (Next P) := do
  if ← stopIsSet worker then
    pure .stop
  else do
    let _ ← stats.attempt
    ask (.sleep S.settings.metricsRefreshInterval)
    pure .again

end App
