/-
The queue (`app/queue.py`): publishing, reading and reclaiming, acknowledging, dead-lettering.
-/
import EventService.Model.Effects

namespace App

open Prog Store

variable {P : Type} (S : Service P)

/-- One entry read from the stream. `number` is the number of the delivery it came with, which the
code does not see: it goes by `deliveryCount`. -/
structure QueuedMessage (P : Type) where
  messageId : Nat
  payload : P
  deliveryCount : Nat := 1
  number : Nat

/-- Snapshot of queue health. -/
structure QueueStats where
  length : Nat
  pending : Nat
  lag : Nat
  dlqLength : Nat

/-- `publish` -/
def publish (event : TransactionEvent) : Code P Nat :=
  (ask (.xadd (S.json.modelDumpJson event))) >>= lift

/-- The ids a pipeline answered with, or the first exception among its replies. -/
def firstError {α : Type} : List (Except Foreign α) → Except Foreign (List α)
  | [] => .ok []
  | .error e :: _ => .error e
  | .ok a :: rs => (firstError rs).map (a :: ·)

/-- `publish_many`: one pipeline, which is no transaction; its commands are applied one by one. -/
def publishMany (events : List TransactionEvent) : Code P (List Nat) := do
  let replies ← collect (fun event => ask (.xadd (S.json.modelDumpJson event))) events
  lift (firstError replies)

/-- `ensure_group`: that the group exists already is no failure. -/
def ensureGroup : Code P Unit := do
  match ← ask .xgroupCreate with
  | .ok () => pure ()
  | .error exc =>
    if exc.cls = .responseError then
      if "BUSYGROUP".toList <:+: exc.message.toList then pure () else raise (.foreign exc)
    else raise (.foreign exc)

/-- `read` -/
def read (consumer count : Nat) : Code P (List (QueuedMessage P)) := do
  let entries ← (ask (.xreadgroup consumer count)) >>= lift
  pure (entries.map fun e => { messageId := e.id, payload := e.payload, number := 1 })

/-- `_autoclaim` -/
def autoclaim (consumer minIdleMs count : Nat) : Code P (List (Entry P × Nat) × List Nat) :=
  (ask (.xautoclaim consumer minIdleMs count)) >>= lift

/-- `_delivery_counts`: as many of the consumer's own entries as there are ids, restricted to the
ids asked for. -/
def deliveryCounts (consumer : Nat) (wanted : List (Nat × Nat)) : Code P (List (Nat × Nat)) :=
  if wanted = [] then pure []
  else do
    let pending ← (ask (.xpending consumer (max wanted.length 1) wanted)) >>= lift
    pure (pending.filter fun entry => entry.1 ∈ wanted.map Prod.fst)

/-- `claim_stale` -/
def claimStale (consumer minIdleMs count : Nat) : Code P (List (QueuedMessage P) × List Nat) := do
  let (claimed, deleted) ← autoclaim consumer minIdleMs count
  if claimed = [] then pure ([], deleted)
  else do
    let counts ← deliveryCounts consumer (claimed.map fun c => (c.1.id, c.2))
    -- an entry the lookup did not find counts as delivered once
    let messages := claimed.map fun c =>
      { messageId := c.1.id, payload := c.1.payload
        deliveryCount := (counts.lookup c.1.id).getD 1, number := c.2 }
    pure (messages, deleted)

/-- `ack` -/
def ack (messageIds : List Nat) : Code P Nat :=
  if messageIds = [] then pure 0 else (ask (.xack messageIds)) >>= lift

/-- `dead_letter` -/
def deadLetter (message : QueuedMessage P) (reason : String) : Code P Unit :=
  (ask (.deadLetter
    { payload := message.payload, reason := reason
      originalId := message.messageId, deliveryCount := message.deliveryCount })) >>= lift

/-- `stats` -/
def stats : Code P QueueStats := do
  let length ← (ask .xlen) >>= lift
  let dlqLength ← (ask .xlenDlq) >>= lift
  match ← (ask .xinfoGroups) >>= lift with
  | none => pure ⟨length, 0, 0, dlqLength⟩
  | some (pending, lag) => pure ⟨length, pending, lag, dlqLength⟩

end App
