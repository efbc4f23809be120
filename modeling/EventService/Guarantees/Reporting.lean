/-
What a client is told of a user: the items of all pages of the listing, and the summary. Every row of
a run fits its columns, since the database refuses the others, so the two agree: the summary counts
the items and sums them exactly, or there is no summary because the sum has too many digits. A
pipeline that is drained and was left undisturbed tells of what was submitted, and of nothing else.
-/
import EventService.Guarantees.Ledger
import EventService.Guarantees.Listing
import EventService.Guarantees.Summaries
import EventService.Run.Histories

namespace App

open Prog Store

variable {P : Type} {S : Service P} {s t : System P} {w w' : World P}

/-! ## Rows of a run fit their columns -/

theorem holdsNumeric_of_fits {scale : Nat} {d : Decimal} (h : fitsNumeric scale d = true) :
    HoldsNumeric scale (Decimal.roundHalfAway scale d.toRat) :=
  ⟨Decimal.hasPlaces_roundHalfAway .., of_decide_eq_true (Bool.and_eq_true_iff.1 h).2⟩

/-- What the columns can hold, they hold rounded. -/
theorem Values.fits_stored {v : Values} (h : v.fits = true) : v.stored.Fits := by
  unfold Values.fits at h
  simp only [Bool.and_eq_true] at h
  obtain ⟨⟨⟨⟨⟨hid, huser⟩, hamount⟩, hcurrency⟩, husd⟩, hrate⟩ := h
  constructor
  · exact hid
  · exact huser
  · exact holdsNumeric_of_fits hamount
  · exact hcurrency
  · exact holdsNumeric_of_fits husd
  · exact holdsNumeric_of_fits hrate

/-- The rows, and those that are about to be committed, were accepted by their columns. -/
structure Fitting (w : World P) : Prop where
  rows : ∀ v ∈ w.table.rows, v.fits = true
  staged : ∀ u ∈ w.table.uncommitted, u.2.fits = true

/-- An insert that does not fit is refused. -/
theorem unchanged_of_insert {session : Nat} {stmt : InsertStatement} {c : Choice}
    {r : (Op.execute (P := P) session stmt).Reply} (hfits : ¬stmt.values.fits = true)
    (h : World.exec S (.execute session stmt) c w = some (r, w')) : w' = w := by
  obtain ⟨-, ⟨x, hx, heq⟩ | ⟨hw, -⟩⟩ := World.exec_execute_cases S h
  · unfold World.insertExec at hx
    rw [if_neg hfits] at hx
    obtain rfl := Option.some.inj hx
    rcases command_world heq with hw | hw <;> exact hw
  · exact hw

theorem Fitting.exec {o : Op P} {c : Choice} {r : o.Reply} (hw : Fitting w)
    (h : World.exec S o c w = some (r, w')) : Fitting w' := by
  rcases changed_of_exec h with rfl | hchanged
  · exact hw
  · cases hchanged with
    | deadLetter k =>
      unfold World.deadLetterExec
      split <;> exact ⟨hw.rows, hw.staged⟩
    | xadd | xgroupCreate | xreadgroup | xautoclaim | xack | xpending | set | fetch | openSession | record =>
      exact ⟨hw.rows, hw.staged⟩
    | conflict hins =>
      obtain ⟨-, hrows, huncommitted, -⟩ := Table.of_conflict hins
      exact ⟨hrows ▸ hw.rows, huncommitted ▸ hw.staged⟩
    | @inserted session stmt t hins =>
      by_cases hfits : stmt.values.fits = true
      · obtain ⟨-, hrows, huncommitted, -⟩ := Table.of_inserted hins
        refine ⟨hrows ▸ hw.rows, fun u hu => ?_⟩
        rcases List.mem_append.1 (huncommitted ▸ hu) with hu | hu
        · exact hw.staged u hu
        · rw [List.mem_singleton.1 hu]
          exact hfits
      · rw [unchanged_of_insert hfits h]
        exact hw
    | commit hlive =>
      constructor
      · intro v hv
        rcases Table.mem_rows_commit hv with hv | hv
        · exact hw.rows v hv
        · exact hw.staged _ hv
      · exact fun u hu => hw.staged u (List.mem_filter.1 hu).1
    | close => exact ⟨hw.rows, fun u hu => hw.staged u (List.mem_filter.1 hu).1⟩

theorem Fitting.step {a : Action} (hw : Fitting s.world) (h : s.step S a = some t) : Fitting t.world := by
  cases System.noted h with
  | called _ hmade _ =>
    obtain ⟨c, hexec⟩ := hmade
    exact hw.exec hexec
  | silent _ hworld _ => exact ⟨hworld.rows ▸ hw.rows, fun u hu => hw.staged u (hworld.uncommitted hu)⟩

theorem fitting_of_reachable (h : System.Reachable S s) : Fitting s.world := by
  unfold System.Reachable at h
  induction h with
  | refl => constructor <;> simp [System.initial, World.initial, Table.empty]
  | step a _ ht ih => exact ih.step ht

/-- The rows as the columns hold them. -/
def World.stored (w : World P) : List Transaction := w.table.rows.map Values.stored

theorem stored_fits (h : System.Reachable S s) : ∀ t ∈ s.world.stored, t.Fits := by
  intro t ht
  obtain ⟨v, hv, rfl⟩ := List.mem_map.1 ht
  exact Values.fits_stored ((fitting_of_reachable h).rows v hv)

theorem stored_ids (w : World P) : (w.stored.map Transaction.id).Nodup := by
  unfold World.stored
  rw [List.map_map]
  exact ids_nodup w.table

/-! ## What a client is told -/

/-- What a client is told of a user while the table holds these rows: the items of all pages of the
listing one after the other, and the summary. -/
structure UserView (settings : Settings) (c : Conventions) (r : ListParams) (rows : List Transaction)
    (answer : (q : SummaryQuery) → q.Reply) (items : List TransactionOut) (summary : Except Exn UserSummary) : Prop where
  pages : ∃ pages, Walked (pageAt settings c r rows) TransactionPage.items TransactionPage.hasMore 0 pages ∧
    pages.flatMap TransactionPage.items = items
  summary : (getUserSummary r.userId).eval answer = summary

/-- The total of the items. -/
def totalOf (items : List TransactionOut) : ℚ := (items.map TransactionOut.amountUsd).sum

variable {settings : Settings} {c : Conventions} {r : ListParams} {rows : List Transaction}
  {answer : (q : SummaryQuery) → q.Reply} {items : List TransactionOut} {summary : Except Exn UserSummary}

/-- The bounds of the listing are in order. -/
def ListParams.Ordered (r : ListParams) : Prop := ∀ a ∈ r.dateFrom, ∀ b ∈ r.dateTo, a.instant ≤ b.instant

/-- The pages are those of one list, and every client comes to its end. -/
theorem walked_listed (hrange : r.Ordered) (hpage : 1 ≤ settings.apiPageSize) (hmax : 1 ≤ settings.apiMaxPageSize) :
    ∃ pages, Walked (pageAt settings c r rows) TransactionPage.items TransactionPage.hasMore 0 pages ∧
      pages.flatMap TransactionPage.items = (listed c r rows).map Transaction.out := by
  have hfetch (offset : Nat) : ∃ p, pageAt settings c r rows offset = .ok p ∧
      p.items = (((listed c r rows).map Transaction.out).drop offset).take (r.pageSize settings) ∧
      p.hasMore = decide (offset + p.items.length < ((listed c r rows).map Transaction.out).length) := by
    obtain ⟨p, hp, hitems, hmore, -⟩ := @pageAt_spec settings c r rows hrange offset
    exact ⟨p, hp, hitems, hmore⟩
  obtain ⟨pages, hwalk, hitems, -⟩ := exists_walked (pageSize_pos hpage hmax) hfetch 0 (Nat.zero_le _)
  exact ⟨pages, hwalk, hitems⟩

theorem exists_userView (hrange : r.Ordered) (hpage : 1 ≤ settings.apiPageSize) (hmax : 1 ≤ settings.apiMaxPageSize) :
    ∃ items summary, UserView settings c r rows answer items summary := by
  obtain ⟨pages, hwalk, hitems⟩ := @walked_listed settings c r rows hrange hpage hmax
  exact ⟨_, _, ⟨pages, hwalk, hitems⟩, rfl⟩

theorem UserView.items_eq (h : UserView settings c r rows answer items summary) (hrange : r.Ordered)
    (hpage : 1 ≤ settings.apiPageSize) (hmax : 1 ≤ settings.apiMaxPageSize) :
    items = (listed c r rows).map Transaction.out := by
  obtain ⟨pages, hwalk, rfl⟩ := h.pages
  obtain ⟨pages', hwalk', hitems⟩ := @walked_listed settings c r rows hrange hpage hmax
  rw [hwalk.unique hwalk', hitems]

/-- Without bounds, the items are the rows that the summary is about. -/
theorem perm_listed (hfrom : r.dateFrom = none) (hto : r.dateTo = none) :
    (listed c r rows).Perm (rows.filter fun t => t.userId = r.userId) := by
  unfold listed
  refine (List.perm_insertionSort _ _).trans (List.Perm.of_eq (List.filter_congr fun t _ => ?_))
  simp [RangeFilter.holds, ListParams.filter, hfrom, hto, asUTC]

theorem aggregates_listed (hfrom : r.dateFrom = none) (hto : r.dateTo = none) :
    aggregates r.userId rows =
      (totalOf ((listed c r rows).map Transaction.out), ((listed c r rows).map Transaction.out).length) := by
  have hperm := @perm_listed c r rows hfrom hto
  unfold aggregates totalOf
  rw [List.map_map, List.length_map]
  exact Prod.ext (hperm.map Transaction.amountUsd).sum_eq.symm hperm.length_eq.symm

theorem getUserSummary_eval (userId : PyStr) : (getUserSummary userId).eval answer =
    match quantizeUsd (answer (.summary userId)).1 with
    | .ok totalUsd => .ok ⟨userId, totalUsd, (answer (.summary userId)).2⟩
    | .error e => .error e := by
  unfold getUserSummary
  rw [bind_eq, eval_bind, getSummary_eval]
  cases quantizeUsd (answer (.summary userId)).1 <;> rfl

/-- The summary counts the items, and its total is their exact sum at four places, if that is less than
`10^24` in absolute value; otherwise there is no summary. -/
structure Agrees (userId : PyStr) (items : List TransactionOut) (summary : Except Exn UserSummary) : Prop where
  summed : |totalOf items| < 10 ^ 24 → ∃ neg coeff,
    summary = .ok ⟨userId, .finite neg coeff (-4), items.length⟩ ∧
      (Decimal.finite neg coeff (-4)).toRat = totalOf items
  tooLarge : 10 ^ 24 ≤ |totalOf items| → summary = .error (.ofSignal .invalidOperation)

theorem UserView.agrees (hview : UserView settings c r rows answer items summary) (hfit : ∀ t ∈ rows, t.Fits)
    (hfrom : r.dateFrom = none) (hto : r.dateTo = none) (hpage : 1 ≤ settings.apiPageSize)
    (hmax : 1 ≤ settings.apiMaxPageSize) (hdb : SumsExactly rows answer) : Agrees r.userId items summary := by
  have hrange : r.Ordered := by simp [ListParams.Ordered, hfrom]
  have haggregates := @aggregates_listed c r rows hfrom hto
  rw [← hview.items_eq hrange hpage hmax] at haggregates
  obtain ⟨hfin, htotal, hcount⟩ := hdb r.userId
  have hplaces := hasPlaces_aggregates hfit r.userId
  rw [haggregates] at htotal hcount hplaces
  rw [← hview.summary, getUserSummary_eval]
  constructor
  · intro hlt
    obtain ⟨neg, coeff, hq, hval⟩ := quantizeUsd_exact hfin (by rwa [htotal]) (by rwa [htotal])
    refine ⟨neg, coeff, ?_, hval.trans htotal⟩
    rw [hq, hcount]
    rfl
  · intro hge
    rw [quantizeUsd_fails hfin (by rwa [htotal])]

/-- In every state of a run, a client that asks for all pages of a user's listing and for the user's
summary is answered both, and they agree. -/
theorem summary_agrees_with_listing (h : System.Reachable S s) (hfrom : r.dateFrom = none) (hto : r.dateTo = none)
    (hpage : 1 ≤ settings.apiPageSize) (hmax : 1 ≤ settings.apiMaxPageSize) (hdb : SumsExactly s.world.stored answer) :
    (∃ items summary, UserView settings c r s.world.stored answer items summary) ∧
      ∀ items summary, UserView settings c r s.world.stored answer items summary → Agrees r.userId items summary := by
  have hrange : r.Ordered := by simp [ListParams.Ordered, hfrom]
  refine ⟨exists_userView hrange hpage hmax, fun items summary hview => ?_⟩
  exact hview.agrees (stored_fits h) hfrom hto hpage hmax hdb

/-- The summary of a user who has posted an event twice. -/
theorem resent_is_summed_once :
    ∃ (s : System EventIn) (items : List TransactionOut) (summary : Except Exn UserSummary),
      System.Reachable (documentService {}) s ∧ s.world.stream.added.length = 3 ∧
      UserView {} .codePoints Walk.oneByOne s.world.stored (SummaryQuery.answer s.world.stored) items summary ∧
      Agrees Walk.oneByOne.userId items summary := by
  obtain ⟨s, hs, hp⟩ := System.exists_reachable (documentService {}) Trace.resent
    (fun s => s.world.stream.added.length = 3) (by decide +kernel)
  obtain ⟨⟨items, summary, hview⟩, hagrees⟩ := @summary_agrees_with_listing _ _ s {} .codePoints Walk.oneByOne
    (SummaryQuery.answer s.world.stored) hs rfl rfl (by decide) (by decide) (sumsExactly_answer (stored_fits hs))
  exact ⟨s, items, summary, hs, of_decide_eq_true hp, hview, hagrees items summary hview⟩

/-! ## From the posts to the listing -/

/-- The line is the user's, and within the bounds. -/
def ListParams.Shows (r : ListParams) (line : TransactionOut) : Prop :=
  line.userId = r.userId ∧ (∀ d ∈ r.dateFrom, d.instant ≤ line.timestamp.instant) ∧
    ∀ d ∈ r.dateTo, line.timestamp.instant ≤ d.instant

/-- The line `a` stands before `b`: it is newer, or as new with a greater id. -/
def Precedes (c : Conventions) (a b : TransactionOut) : Prop :=
  b.timestamp.instant < a.timestamp.instant ∨
    (b.timestamp.instant = a.timestamp.instant ∧ c.le b.id a.id = true ∧ a.id ≠ b.id)

theorem precedes_of_newer {a b : Transaction} (h : StrictlyNewer c a b) : Precedes c a.out b.out := by
  obtain ⟨hab, hba⟩ := h
  rcases hab with hlt | ⟨heq, hle⟩
  · exact Or.inl hlt
  · refine Or.inr ⟨heq, hle, fun hid => hba (Or.inr ⟨heq.symm, ?_⟩)⟩
    have hid' : a.id = b.id := hid
    rw [hid'] at hle ⊢
    exact hle

theorem mem_items {line : TransactionOut} : line ∈ (listed c r w.stored).map Transaction.out ↔
    r.Shows line ∧ line ∈ ledger w := by
  unfold ledger
  rw [List.mem_map, List.mem_map]
  constructor
  · rintro ⟨t, ht, rfl⟩
    obtain ⟨hrow, hmatches⟩ := mem_listed.1 ht
    obtain ⟨v, hv, rfl⟩ := List.mem_map.1 hrow
    exact ⟨hmatches, v, hv, rfl⟩
  · rintro ⟨hshows, v, hv, rfl⟩
    exact ⟨v.stored, mem_listed.2 ⟨List.mem_map_of_mem hv, hshows⟩, rfl⟩

/-- What is posted is what is listed. When the pipeline was left undisturbed and is drained, all pages
together hold exactly the lines of the user's posted events within the bounds, one for each id, and newest
first. A line is what the columns hold of its event at the static rate of its currency; if the event's amount is
a multiple of the last decimal place, that is the amount itself, converted exactly. -/
theorem drained_pipeline_lists_what_was_posted (h : System.Reachable S s) (hu : Undisturbed S s.world)
    (hd : Drained s.world) (hrange : r.Ordered) (hpage : 1 ≤ settings.apiPageSize)
    (hmax : 1 ≤ settings.apiMaxPageSize) (hview : UserView settings c r s.world.stored answer items summary) :
    (∀ line, line ∈ items ↔ r.Shows line ∧ ∃ event, Published S s.world event ∧ storedLine event = some line) ∧
      (∀ event : TransactionEvent, Decimal.HasPlaces 4 event.amount.toRat → storedLine event = ledgerLine event) ∧
      (items.map TransactionOut.id).Nodup ∧ items.Pairwise (Precedes c) := by
  have hi := (ok_of_reachable h).inv
  have hstrict := @listed_strict c r s.world.stored (stored_ids s.world)
  rw [hview.items_eq hrange hpage hmax]
  refine ⟨fun line => ?_, fun event => storedLine_eq, ?_, ?_⟩
  · rw [mem_items, hu.mem_ledger_iff hd hi]
  · have hids : ((listed c r s.world.stored).map Transaction.id).Nodup := by
      refine ((List.perm_insertionSort _ _).map Transaction.id).nodup_iff.2 ?_
      exact (stored_ids s.world).sublist (List.filter_sublist.map _)
    rwa [List.map_map]
  · exact List.pairwise_map.2 (hstrict.imp precedes_of_newer)

theorem ordered_oneByOne : Walk.oneByOne.Ordered := by simp [ListParams.Ordered, Walk.oneByOne]

/-- The event posted twice is listed once, in euros what it is worth in dollars. -/
theorem resent_is_listed_once :
    ∃ (s : System EventIn) (items : List TransactionOut) (summary : Except Exn UserSummary),
      System.Reachable (documentService {}) s ∧
      UserView {} .codePoints Walk.oneByOne s.world.stored (SummaryQuery.answer s.world.stored) items summary ∧
      items.length = 1 ∧ ∀ line ∈ items, ∃ event, Published (documentService {}) s.world event ∧
        ledgerLine event = some line := by
  obtain ⟨s, hs, hp⟩ := System.exists_reachable (documentService {}) Trace.resent
    (fun s => Trace.isDrained Trace.payloads s &&
      (listed .codePoints Walk.oneByOne s.world.stored).length = 1) (by decide +kernel)
  simp only [Bool.and_eq_true, decide_eq_true_eq] at hp
  obtain ⟨hu, hd, hpublished⟩ := Trace.isDrained_spec hp.1 Trace.payloads_differ
  obtain ⟨items, summary, hview⟩ := @exists_userView {} .codePoints Walk.oneByOne s.world.stored
    (SummaryQuery.answer s.world.stored) ordered_oneByOne (by decide) (by decide)
  obtain ⟨hlines, hexact, -⟩ :=
    drained_pipeline_lists_what_was_posted hs hu hd ordered_oneByOne (by decide) (by decide) hview
  refine ⟨s, items, summary, hs, hview, ?_, fun line hline => ?_⟩
  · rw [hview.items_eq ordered_oneByOne (by decide) (by decide), List.length_map]
    exact hp.2
  · obtain ⟨-, event, hpub, hstored⟩ := (hlines line).1 hline
    refine ⟨event, hpub, ?_⟩
    rw [← hexact event (Trace.hasPlaces_of_payloads ((hpublished event).1 hpub))]
    exact hstored

end App
