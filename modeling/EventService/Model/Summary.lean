/-
A user's summary (`get_summary` of `app/repository.py`, the endpoint of `app/api/users.py`): one
statement that sums and counts, whose sum is quantized to the scale of the API.
-/
import EventService.Model.Money
import EventService.Model.Repository

namespace App

open Prog

/-- The statement of `get_summary`. -/
inductive SummaryQuery
  | summary (userId : PyStr)

/-- `COALESCE(SUM(amount_usd), 0)` as the driver hands it over, and `COUNT(id)`. -/
@[reducible] def SummaryQuery.Reply : SummaryQuery → Type
  | .summary _ => Decimal × Nat

structure SummaryRow where
  totalUsd : Decimal
  transactionCount : Nat
  deriving DecidableEq

structure UserSummary where
  userId : PyStr
  totalUsd : Decimal
  transactionCount : Nat
  deriving DecidableEq

/-- The code of the summary endpoint. -/
abbrev SummaryCode (α : Type) : Type := Prog SummaryQuery SummaryQuery.Reply Exn α

/-- `get_summary` -/
def getSummary (userId : PyStr) : SummaryCode SummaryRow := do
  let (total, count) ← perform (SummaryQuery.summary userId)
  let totalUsd ← ofExcept (quantizeUsd total)
  pure ⟨totalUsd, count⟩

/-- `get_user_summary` -/
def getUserSummary (userId : PyStr) : SummaryCode UserSummary := do
  let summary ← getSummary userId
  pure ⟨userId, summary.totalUsd, summary.transactionCount⟩

/-- A database that sums exactly: its answers are those of the aggregates of these rows. -/
def SumsExactly (rows : List Transaction) (answer : (q : SummaryQuery) → q.Reply) : Prop :=
  ∀ userId, (answer (.summary userId)).1.isFinite = true ∧
    (answer (.summary userId)).1.toRat = (aggregates userId rows).1 ∧
    (answer (.summary userId)).2 = (aggregates userId rows).2

/-- The database's answers over the committed rows. -/
def SummaryQuery.answer (rows : List Transaction) : (q : SummaryQuery) → q.Reply
  | .summary userId => (Decimal.ofPlaces 4 (aggregates userId rows).1, (aggregates userId rows).2)

end App
