/-
The paginated listing of a user's transactions (`app/api/users.py`).
-/
import EventService.Model.Effects
import EventService.Model.Repository

namespace App

open Prog

/-- One stored transaction as the list endpoint returns it. -/
structure TransactionOut where
  id : PyStr
  userId : PyStr
  amount : ℚ
  currency : PyStr
  amountUsd : ℚ
  rate : ℚ
  timestamp : Datetime
  deriving DecidableEq

/-- `TransactionOut.model_validate` -/
def Transaction.out (t : Transaction) : TransactionOut :=
  ⟨t.id, t.userId, t.amount, t.currency, t.amountUsd, t.rate, t.timestamp⟩

structure TransactionPage where
  items : List TransactionOut
  total : Nat
  limit : Nat
  offset : Nat
  hasMore : Bool

structure HTTPException where
  statusCode : Nat
  detail : String

/-- The parameters of `GET /users/{user_id}/transactions` as they reach the endpoint. -/
structure ListParams where
  userId : PyStr
  dateFrom : Option Datetime
  dateTo : Option Datetime
  limit : Option Nat
  offset : Nat
  userId_length : 1 ≤ userId.length ∧ userId.length ≤ 128
  limit_pos : ∀ l ∈ limit, 1 ≤ l

/-- What leaves a read endpoint other than an answer: an error it answers with, or an exception nobody caught. -/
inductive ReadError
  | http (e : HTTPException)
  | unhandled (e : Exn)

/-- The code of a read endpoint. -/
abbrev ReadCode (α : Type) : Type := Prog Query Query.Reply ReadError α

/-- `_as_utc` -/
def asUTC : Option Datetime → Option Datetime
  | none => none
  | some value =>
    match value.offset with
    | none => some value.replaceUTC
    | some _ => some value

/-- `date_from and date_to and date_from > date_to` -/
def inverted : Option Datetime → Option Datetime → Except Exn Bool
  | some dateFrom, some dateTo => dateFrom.gt dateTo
  | none, _ | some _, none => .ok false

namespace ListParams

/-- `page_size`; a limit that is given is never 0. -/
def pageSize (S : Settings) (r : ListParams) : Nat := min (r.limit.getD S.apiPageSize) S.apiMaxPageSize

def filter (r : ListParams) : RangeFilter := ⟨r.userId, asUTC r.dateFrom, asUTC r.dateTo⟩

end ListParams

/-- The page of a request, from what its two statements answered. -/
def transactionPage (S : Settings) (r : ListParams) (total : Nat) (rows : List Transaction) :
    TransactionPage where
  items := rows.map Transaction.out
  total := total
  limit := r.pageSize S
  offset := r.offset
  -- the rows are this statement's, the total is the earlier one's
  hasMore := r.offset + rows.length < total

/-- `list_user_transactions`: two statements, each over the rows committed when it runs. -/
def listUserTransactions (S : Settings) (r : ListParams) : ReadCode TransactionPage :=
  match inverted (asUTC r.dateFrom) (asUTC r.dateTo) with
  | .error e => raise (.unhandled e)
  | .ok true => raise (.http ⟨400, "`from` must not be later than `to`"⟩)
  | .ok false => do
    let total : Nat ← perform (Query.count r.filter)
    let rows : List Transaction ← perform (Query.list r.filter (r.pageSize S) r.offset)
    pure (transactionPage S r total rows)

/-! ## Bounds in UTC -/

/-- A bound has an offset then, and is the instant that is meant. -/
theorem exists_asUTC (d : Datetime) : ∃ d' o, asUTC (some d) = some d' ∧ d'.offset = some o ∧
    d'.wall - o = d.instant := by
  unfold asUTC Datetime.instant
  dsimp only
  split
  · rename_i hoffset
    exact ⟨_, 0, rfl, rfl, by rw [hoffset]; rfl⟩
  · rename_i o hoffset
    exact ⟨_, o, rfl, hoffset, by rw [hoffset]; rfl⟩

/-- So the driver has no naive times to send. -/
theorem sent_asUTC (c : Conventions) (d : Option Datetime) : (asUTC d).map c.sent = d.map Datetime.instant := by
  cases d with
  | none => rfl
  | some d =>
    obtain ⟨d', o, heq, hoffset, hinstant⟩ := exists_asUTC d
    rw [heq, Option.map_some, Option.map_some, ← hinstant]
    unfold Conventions.sent
    rw [hoffset]

/-- And the comparison does not fail. -/
theorem inverted_asUTC (dateFrom dateTo : Option Datetime) : inverted (asUTC dateFrom) (asUTC dateTo) =
    .ok (dateFrom.any fun d => dateTo.any fun d' => decide (d'.instant < d.instant)) := by
  rcases dateFrom with _ | d
  · rfl
  obtain ⟨e, o, heq, hoffset, hinstant⟩ := exists_asUTC d
  rcases dateTo with _ | d'
  · rw [heq]
    rfl
  obtain ⟨e', o', heq', hoffset', hinstant'⟩ := exists_asUTC d'
  rw [heq, heq']
  show e.gt e' = .ok (decide (d'.instant < d.instant))
  unfold Datetime.gt
  rw [hoffset, hoffset']
  dsimp only
  rw [hinstant, hinstant']

end App
