/-
The consumer's core (`app/processor.py`, the insert of `app/repository.py`): convert to USD and
store, with the database's failures translated into the service's own classes.
-/
import EventService.Model.Money
import EventService.Model.Rates

namespace App

open Prog

variable {P : Type} (S : Service P)

/-- What happened to one event. -/
inductive Outcome
  | stored
  | duplicate
  deriving DecidableEq, Repr

/-- `_insert_ignore_duplicates` -/
def insertIgnoreDuplicates (dialect : Dialect) (values : Values) : InsertStatement :=
  match dialect with
  | .postgresql => ⟨values, true⟩
  | .sqlite => ⟨values, true⟩
  | .other => ⟨values, false⟩

/-- Every dialect inserts the values. -/
theorem insertIgnoreDuplicates_values (dialect : Dialect) (values : Values) :
    (insertIgnoreDuplicates dialect values).values = values := by
  cases dialect <;> rfl

/-- `TransactionRepository.insert_if_absent`: whether this call wrote the row. -/
def insertIfAbsent (session : Nat) (values : Values) : Code P Bool := do
  let rowcount ← (ask (.execute session (insertIgnoreDuplicates S.dialect values))) >>= lift
  pure (rowcount == 1)

/-- `async with self._session_factory() as session`: the session is closed however the body ends,
and an exception of the closing takes the place of the body's. -/
def withSession {α : Type} (body : Nat → Code P α) : Code P α := do
  let session ← (ask .openSession) >>= lift
  let ended ← (body session).attempt
  (ask (.close session)) >>= lift
  ofExcept ended

/-- How `_store` answers an exception of its body. -/
def storeFailed : Exn → Except Exn Bool
  | .foreign e =>
    -- `IntegrityError` is a `DBAPIError`, so its clause comes first
    if e.cls = .integrityError then .ok false
    else if e.cls.isDBAPIError then
      .error (.event .storageUnavailableError ("database write failed: " ++ e.message))
    else if e.cls.isOSError then
      .error (.event .storageUnavailableError ("database unreachable: " ++ e.message))
    else .error (.foreign e)
  | .event cls message => .error (.event cls message)

/-- `_store` -/
def store (values : Values) : Code P Bool := do
  let written ← (withSession fun session => do
    let inserted ← insertIfAbsent S session values
    (ask (.commit session)) >>= lift
    pure inserted).attempt
  match written with
  | .ok inserted => pure inserted
  | .error exc => ofExcept (storeFailed exc)

/-- The values of an event's row. -/
def TransactionEvent.values (event : TransactionEvent) (amountUsd rate : Decimal) (now : Nat) : Values where
  id := event.id
  userId := event.userId
  amount := event.amount
  currency := event.currency
  amountUsd := amountUsd
  rate := rate
  timestamp := event.timestamp
  processedAt := now

/-- `EventProcessor.process` -/
def process (event : TransactionEvent) : Code P Outcome := do
  let rate ← getRate S event.currency
  ask (.record event.currency rate)
  let amountUsd ← ofExcept (convertToUsd event.amount rate)
  let now ← ask .now
  let inserted ← store S (event.values amountUsd rate now)
  if inserted then pure .stored else pure .duplicate

end App
