/-
A client that walks through the pages of a listing while the table stays as it is. Each page is the
next stretch of one list, the matching rows in order, and tells the length of that list: the walk
comes to an end, and its pages together are the list.
-/
import EventService.Guarantees.PageWalk

namespace App

open Prog Store

/-- `a` stands before `b` in the descending order of time stamp and id. -/
def StrictlyNewer (c : Conventions) (a b : Transaction) : Prop := newestFirst c a b ∧ ¬newestFirst c b a

/-- The rows of a listing, in order. -/
def listed (c : Conventions) (r : ListParams) (rows : List Transaction) : List Transaction :=
  (rows.filter (r.filter.holds c)).insertionSort (newestFirst c)

/-- The answer to a request while the table holds these rows. -/
def pageAt (S : Settings) (c : Conventions) (r : ListParams) (rows : List Transaction) (offset : Nat) :
    Except ReadError TransactionPage :=
  (Walk.pageFrom S r offset).eval (Query.answer c rows)

variable {S : Settings} {c : Conventions} {r : ListParams} {rows : List Transaction}

/-! ## The rows -/

theorem not_inverted (hrange : ∀ a ∈ r.dateFrom, ∀ b ∈ r.dateTo, a.instant ≤ b.instant) :
    inverted (asUTC r.dateFrom) (asUTC r.dateTo) = .ok false := by
  rw [inverted_asUTC]
  refine congrArg Except.ok (Bool.eq_false_of_not_eq_true fun hany => ?_)
  obtain ⟨d, hd, hany⟩ := (Option.any_eq_true _ _).1 hany
  obtain ⟨d', hd', hlt⟩ := (Option.any_eq_true _ _).1 hany
  exact absurd (of_decide_eq_true hlt) (not_lt.2 (hrange d hd d' hd'))

theorem mem_listed {t : Transaction} : t ∈ listed c r rows ↔ t ∈ rows ∧ Matches r t := by
  unfold listed
  rw [List.mem_insertionSort, List.mem_filter, holds_iff]

/-- No two rows are level, so the order is strict. -/
theorem listed_strict (hids : (rows.map Transaction.id).Nodup) :
    (listed c r rows).Pairwise (StrictlyNewer c) := by
  have hdistinct : Distinct (newestFirst c) (rows.filter (r.filter.holds c)) :=
    distinct_of_ids c (hids.sublist (List.filter_sublist.map _))
  have hboth := (List.pairwise_insertionSort (newestFirst c) (rows.filter (r.filter.holds c))).and
    (hdistinct.perm (List.perm_insertionSort _ _).symm)
  exact hboth.imp fun h => ⟨h.1, fun hba => h.2 ⟨h.1, hba⟩⟩

/-! ## The pages -/

theorem pageSize_pos (hpage : 1 ≤ S.apiPageSize) (hmax : 1 ≤ S.apiMaxPageSize) : 1 ≤ r.pageSize S := by
  unfold ListParams.pageSize
  cases hlimit : r.limit with
  | none => exact le_min hpage hmax
  | some l => exact le_min (r.limit_pos l hlimit) hmax

/-- Each answer is the next stretch of the list, with its length. -/
theorem pageAt_spec (hrange : ∀ a ∈ r.dateFrom, ∀ b ∈ r.dateTo, a.instant ≤ b.instant) (offset : Nat) :
    ∃ p, pageAt S c r rows offset = .ok p ∧
      p.items = (((listed c r rows).map Transaction.out).drop offset).take (r.pageSize S) ∧
      p.hasMore = decide (offset + p.items.length < ((listed c r rows).map Transaction.out).length) ∧
      p.total = (listed c r rows).length := by
  unfold pageAt
  rw [Walk.pageFrom_eq (not_inverted hrange)]
  have hlength : (rows.filter (r.filter.holds c)).length = (listed c r rows).length :=
    (List.length_insertionSort ..).symm
  refine ⟨_, rfl, ?_, ?_, hlength⟩
  · show ((((listed c r rows)).drop offset).take (r.pageSize S)).map Transaction.out = _
    rw [List.map_take, List.map_drop]
  · rw [List.length_map, ← hlength]
    show decide (offset + _ < _) = decide (offset + (List.map _ _).length < _)
    rw [List.length_map]
    rfl

/-- Paging over an unchanging table is exact, whatever the driver makes of naive times: the walk from offset 0
comes to an end in one way; its items are the user's rows within the bounds, each once, in strictly descending
order; every page tells their number; and exactly the pages that rows follow say that there is more. -/
theorem pages_are_exact (hids : (rows.map Transaction.id).Nodup)
    (hrange : ∀ a ∈ r.dateFrom, ∀ b ∈ r.dateTo, a.instant ≤ b.instant)
    (hpage : 1 ≤ S.apiPageSize) (hmax : 1 ≤ S.apiMaxPageSize) :
    ∃ pages, Walked (pageAt S c r rows) TransactionPage.items TransactionPage.hasMore 0 pages ∧
      (∀ pages', Walked (pageAt S c r rows) TransactionPage.items TransactionPage.hasMore 0 pages' →
        pages' = pages) ∧
      ∃ ts : List Transaction, pages.flatMap TransactionPage.items = ts.map Transaction.out ∧
        (∀ t, t ∈ ts ↔ t ∈ rows ∧ Matches r t) ∧ ts.Nodup ∧ ts.Pairwise (StrictlyNewer c) ∧
        (∀ page ∈ pages, page.total = ts.length) ∧
        ∀ before page after, pages = before ++ page :: after →
          (page.hasMore = true ↔ after.flatMap TransactionPage.items ≠ []) := by
  obtain ⟨pages, hwalk, hitems, hmore⟩ := exists_walked (pageSize_pos hpage hmax)
    (fun offset => by
      obtain ⟨p, hp, hitems, hmore, -⟩ := @pageAt_spec S c r rows hrange offset
      exact ⟨p, hp, hitems, hmore⟩) 0 (Nat.zero_le _)
  refine ⟨pages, hwalk, fun pages' h => h.unique hwalk, listed c r rows, hitems, fun t => mem_listed, ?_,
    listed_strict hids, ?_, hmore⟩
  · -- a row is not strictly newer than itself
    refine (listed_strict hids).imp ?_
    rintro a b ⟨hab, hba⟩ rfl
    exact hba hab
  · refine hwalk.forall fun offset p hp => ?_
    obtain ⟨p', hp', -, -, htotal⟩ := @pageAt_spec S c r rows hrange offset
    rw [Except.ok.inj (hp.symm.trans hp')]
    exact htotal

/-- Three rows of the user, two of them of the same time, and a later one. -/
def fourRows : List Transaction :=
  [(Walk.rowAt "a" 0 Trace.zero_lt_span).stored, (Walk.rowAt "b" 0 Trace.zero_lt_span).stored,
    (Walk.rowAt "c" 1 (by decide)).stored, (Walk.rowAt "d" 2 (by decide)).stored]

/-- From the first instant in UTC to a naive time one microsecond later, one row a page. -/
def upToSecond : ListParams :=
  ⟨Trace.user, some (Trace.clock 0 Trace.zero_lt_span).replaceUTC, some (Trace.clock 1 (by decide)), some 1, 0,
    Trace.user_length, fun _ hl => (Option.mem_some.1 hl).le⟩

/-- Asked for one by one, the three are listed, and the later one is not, although the driver would take the naive
time for an earlier one. -/
theorem three_rows_are_listed :
    ∃ pages, Walked (pageAt {} .codePoints upToSecond fourRows) TransactionPage.items
        TransactionPage.hasMore 0 pages ∧
      ∀ t ∈ fourRows, t.out ∈ pages.flatMap TransactionPage.items ↔ t.id ≠ "d".toList := by
  obtain ⟨pages, hwalk, -, ts, hitems, hmem, -⟩ := @pages_are_exact {} .codePoints upToSecond fourRows (by decide)
    (by simp [upToSecond, Trace.clock, Datetime.instant, Datetime.replaceUTC]) (by decide) (by decide)
  refine ⟨pages, hwalk, fun t ht => ?_⟩
  have hbounds : Matches upToSecond t ↔ t.id ≠ "d".toList := by
    rw [← @holds_iff .codePoints]
    revert t
    decide +kernel
  rw [hitems, ← hbounds, List.mem_map]
  constructor
  · rintro ⟨t', ht', hout⟩
    have hmatches := ((hmem t').1 ht').2
    unfold Matches at hmatches ⊢
    have huser : t'.userId = t.userId := congrArg TransactionOut.userId hout
    have htime : t'.timestamp = t.timestamp := congrArg TransactionOut.timestamp hout
    rwa [huser, htime] at hmatches
  · exact fun hmatches => ⟨t, (hmem t).2 ⟨ht, hmatches⟩, rfl⟩

end App
