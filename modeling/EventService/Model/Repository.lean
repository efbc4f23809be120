/-
The queries of the read endpoints (`app/repository.py`), over the rows that are committed when a
statement runs.
-/
import EventService.Program.Basic
import EventService.Store.Paging
import EventService.Model.Transactions
import Mathlib.Algebra.BigOperators.Group.List.Basic
import Mathlib.Data.Char
import Mathlib.Data.List.Lex

namespace App

/-- What the queries leave to the database and its driver: how text is ordered, by a total order that tells any two
texts apart; and the instant that a naive time with this wall clock is sent as. -/
structure Conventions where
  le : PyStr → PyStr → Bool
  total : ∀ a b, le a b = true ∨ le b a = true
  trans : ∀ a b c, le a b = true → le b c = true → le a c = true
  antisymm : ∀ a b, le a b = true → le b a = true → a = b
  naive : Int → Int

/-- The order of the code points, and a driver that runs two hours ahead of UTC. -/
def Conventions.codePoints : Conventions where
  le a b := decide (a ≤ b)
  total a b := by simpa using le_total (a : List Char) b
  trans a b c h h' := decide_eq_true (le_trans (α := List Char) (of_decide_eq_true h) (of_decide_eq_true h'))
  antisymm a b h h' := le_antisymm (α := List Char) (of_decide_eq_true h) (of_decide_eq_true h')
  naive wall := wall - Datetime.day / 12

/-- The instant a bound is sent as. -/
def Conventions.sent (c : Conventions) (d : Datetime) : Int :=
  match d.offset with
  | some offset => d.wall - offset
  | none => c.naive d.wall

/-- `ORDER BY timestamp DESC, id DESC`: `a` is not behind `b`. -/
def newestFirst (c : Conventions) (a b : Transaction) : Prop :=
  b.timestamp.instant < a.timestamp.instant ∨
    (b.timestamp.instant = a.timestamp.instant ∧ c.le b.id a.id = true)

/-- `_range_filter`: the user, and the inclusive bounds of the time stamps. -/
structure RangeFilter where
  userId : PyStr
  dateFrom : Option Datetime
  dateTo : Option Datetime

def RangeFilter.holds (c : Conventions) (f : RangeFilter) (t : Transaction) : Bool :=
  t.userId = f.userId && f.dateFrom.all (fun d => c.sent d ≤ t.timestamp.instant) &&
    f.dateTo.all (fun d => t.timestamp.instant ≤ c.sent d)

/-- The aggregates of `get_summary`: `COALESCE(SUM(amount_usd), 0)` and `COUNT(id)` of a user's rows. -/
def aggregates (userId : PyStr) (rows : List Transaction) : ℚ × Nat :=
  let own := rows.filter fun t => t.userId = userId
  ((own.map Transaction.amountUsd).sum, own.length)

/-- The statements of `count_transactions` and `list_transactions`. -/
inductive Query
  | count (f : RangeFilter)
  | list (f : RangeFilter) (limit offset : Nat)

@[reducible] def Query.Reply : Query → Type
  | .count _ => Nat
  | .list _ _ _ => List Transaction

section Order

variable (c : Conventions)

instance : DecidableRel (newestFirst c) := fun _ _ => inferInstanceAs (Decidable (_ ∨ _))

instance : Std.Total (newestFirst c) where
  total a b := by
    unfold newestFirst
    rcases lt_trichotomy a.timestamp.instant b.timestamp.instant with h | h | h
    · exact Or.inr (Or.inl h)
    · exact (c.total b.id a.id).imp (fun hle => Or.inr ⟨h.symm, hle⟩) fun hle => Or.inr ⟨h, hle⟩
    · exact Or.inl (Or.inl h)

instance : IsTrans Transaction (newestFirst c) where
  trans a b d := by
    rintro (hab | ⟨hab, hle⟩) (hbd | ⟨hbd, hle'⟩)
    · exact Or.inl (hbd.trans hab)
    · exact Or.inl (hbd ▸ hab)
    · exact Or.inl (hab ▸ hbd)
    · exact Or.inr ⟨hbd.trans hab, c.trans _ _ _ hle' hle⟩

/-- Rows with different ids are never level. -/
theorem distinct_of_ids {rows : List Transaction} (h : (rows.map Transaction.id).Nodup) :
    Store.Distinct (newestFirst c) rows := by
  refine (List.pairwise_map.1 h).imp fun {a b} hne => ?_
  rintro ⟨hlt | ⟨heq, hle⟩, hlt' | ⟨heq', hle'⟩⟩
  · exact absurd hlt' hlt.asymm
  · exact absurd hlt (by rw [heq']; exact lt_irrefl _)
  · exact absurd hlt' (by rw [heq]; exact lt_irrefl _)
  · exact hne (c.antisymm _ _ hle' hle)

/-- What a statement answers over the committed rows. -/
def Query.answer (rows : List Transaction) : (q : Query) → q.Reply
  | .count f => (rows.filter (f.holds c)).length
  | .list f limit offset => Store.page (newestFirst c) limit offset (rows.filter (f.holds c))

end Order

end App
