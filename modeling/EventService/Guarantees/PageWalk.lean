/-
A client that walks through the pages of a listing while rows are committed. A row that was there
before only moves back, so the walk can pass none of them by; but a request counts before it lists,
and a page that is full against an outdated count ends the walk although rows remain. The walk
misses nothing as long as no request takes for the end what is not the end any more.
-/
import EventService.Model.Users
import EventService.Run.Reachable

namespace App

open Prog Store

/-! ## Walks -/

/-- The committed rows, and a client: the rows to skip next, the items it has received, and the code
of its current request, if it has not stopped. `counted` is what the last count answered. -/
structure Walk where
  rows : List Values
  unique : (rows.map Values.id).Nodup
  offset : Nat
  items : List TransactionOut
  counted : Nat
  request : Option (ReadCode TransactionPage)

/-- The user's rows within the bounds; naive bounds are read as UTC. -/
def Matches (r : ListParams) (t : Transaction) : Prop :=
  t.userId = r.userId ∧ (∀ d ∈ r.dateFrom, d.instant ≤ t.timestamp.instant) ∧
    ∀ d ∈ r.dateTo, t.timestamp.instant ≤ d.instant

theorem all_sent {c : Conventions} {d : Option Datetime} (Q : Int → Bool) :
    d.all (fun d => Q (c.sent d)) = true ↔ ∀ i ∈ d.map c.sent, Q i = true := by
  cases d <;> simp

/-- Whatever the driver makes of naive times, the statements are about those rows. -/
theorem holds_iff {c : Conventions} {r : ListParams} {t : Transaction} :
    r.filter.holds c t = true ↔ Matches r t := by
  unfold RangeFilter.holds ListParams.filter Matches
  rw [Bool.and_eq_true, Bool.and_eq_true, all_sent fun i => i ≤ t.timestamp.instant,
    all_sent fun i => t.timestamp.instant ≤ i, sent_asUTC, sent_asUTC, and_assoc]
  simp

namespace Walk

/-- Another row is committed, the current request runs its next statement, or the client receives
the answer. -/
inductive Action
  | commit (v : Values)
  | call
  | receive

/-- The rows as their columns hold them. -/
def stored (w : Walk) : List Transaction := w.rows.map Values.stored

theorem unique_append {rows : List Values} {v : Values} (hrows : (rows.map Values.id).Nodup)
    (hv : v.id ∉ rows.map Values.id) : ((rows ++ [v]).map Values.id).Nodup := by
  rw [List.map_append, List.nodup_append]
  refine ⟨hrows, List.nodup_singleton _, fun id hid id' hid' heq => hv ?_⟩
  rw [heq, List.mem_singleton.1 hid'] at hid
  exact hid

variable (S : Settings) (c : Conventions) (r : ListParams)

/-- The request for the page from `offset` on. -/
def pageFrom (offset : Nat) : ReadCode TransactionPage := listUserTransactions S { r with offset := offset }

/-- A walk over the rows that is about to begin. -/
def start (rows : List Values) (unique : (rows.map Values.id).Nodup) : Walk :=
  ⟨rows, unique, 0, [], 0, some (pageFrom S r 0)⟩

/-- One action; `none` where it cannot happen. The client asks for the next page until `has_more` is
false or a request fails. -/
def step (w : Walk) : Action → Option Walk
  | .commit v =>
    if h : v.id ∈ w.rows.map Values.id then none
    else some { w with rows := w.rows ++ [v], unique := unique_append w.unique h }
  | .call =>
    match w.request with
    | some (.op (.count f) k) =>
      let total := Query.answer c w.stored (.count f)
      some { w with counted := total, request := some (k total) }
    | some (.op (.list f limit offset) k) =>
      some { w with request := some (k (Query.answer c w.stored (.list f limit offset))) }
    | some (.ret _) | some (.raise _) | none => none
  | .receive =>
    match w.request with
    | some (.ret page) =>
      let offset := w.offset + page.items.length
      some { w with
        items := w.items ++ page.items
        offset := offset
        request := if page.hasMore then some (pageFrom S r offset) else none }
    | some (.raise _) => some { w with request := none }
    | some (.op _ _) | none => none

/-- If a list statement is due next, it does not find more rows than its page ends with unless the
count before it did. -/
def Settled (w : Walk) : Prop :=
  match w.request with
  | some (.op (.list f limit offset) _) =>
    w.counted ≤ offset + limit → (w.stored.filter (f.holds c)).length ≤ offset + limit
  | some (.op (.count _) _) | some (.ret _) | some (.raise _) | none => True

instance (w : Walk) : Decidable (w.Settled c) := by
  unfold Settled
  split <;> infer_instance

/-- Take the actions one after the other. -/
def runActions (w : Walk) : List Action → Option Walk
  | [] => some w
  | a :: as => (w.step S c r a).bind fun w' => w'.runActions as

/-- Take the actions one after the other, running statements in settled states only. -/
def runSettled (w : Walk) : List Action → Option Walk
  | [] => some w
  | .call :: as => if w.Settled c then (w.step S c r .call).bind fun w' => w'.runSettled as else none
  | a :: as => (w.step S c r a).bind fun w' => w'.runSettled as

/-- A walk in which every statement is run in a settled state. -/
inductive SettledRun : Walk → Walk → Prop
  | refl (w : Walk) : SettledRun w w
  | step {u v w : Walk} (a : Action) (h : SettledRun u v) (hs : a = .call → v.Settled c)
      (hw : v.step S c r a = some w) : SettledRun u w

variable {S c r}

theorem settledRun_of_runSettled {u v w : Walk} : ∀ {as : List Action}, SettledRun S c r u v →
    v.runSettled S c r as = some w → SettledRun S c r u w := by
  intro as
  induction as generalizing v with
  | nil =>
    intro hrun h
    rw [← Option.some.inj h]
    exact hrun
  | cons a as ih =>
    intro hrun h
    cases a with
    | call =>
      simp only [runSettled] at h
      split at h
      · rename_i hsettled
        obtain ⟨v', hv', h⟩ := Option.bind_eq_some_iff.1 h
        exact ih (.step .call hrun (fun _ => hsettled) hv') h
      · cases h
    | commit v =>
      obtain ⟨v', hv', h⟩ := Option.bind_eq_some_iff.1 h
      exact ih (.step (.commit v) hrun (by rintro ⟨⟩) hv') h
    | receive =>
      obtain ⟨v', hv', h⟩ := Option.bind_eq_some_iff.1 h
      exact ih (.step .receive hrun (by rintro ⟨⟩) hv') h

/-! ## No row is passed by -/

/-- The rows of the listing. -/
def matching (c : Conventions) (r : ListParams) (w : Walk) : List Transaction := w.stored.filter (r.filter.holds c)

/-- How many rows of the listing come before `x`. -/
def position (c : Conventions) (r : ListParams) (w : Walk) (x : Transaction) : Nat :=
  rank (newestFirst c) (w.matching c r) x

/-- The client has the row, or has still to come to it. -/
def Ahead (c : Conventions) (r : ListParams) (w : Walk) (x : Transaction) : Prop :=
  x.out ∈ w.items ∨ w.offset ≤ w.position c r x

/-- Where the client may be with the row not passed by: it has stopped with the row; it is about to
count, or to list; or it was answered, and has the row now, or goes on and has still to come to it. -/
inductive Tracks (S : Settings) (c : Conventions) (r : ListParams) (x : Transaction) (w : Walk) : Prop
  | stopped (h : w.request = none) (hx : x.out ∈ w.items)
  | counting (h : w.request = some (pageFrom S r w.offset)) (hx : w.Ahead c r x)
  | listing
    (h : w.request = some (.op (.list r.filter (r.pageSize S) w.offset) fun rows =>
      .ret (transactionPage S { r with offset := w.offset } w.counted rows)))
    (hx : w.Ahead c r x)
  | answered (rows : List Transaction)
    (h : w.request = some (.ret (transactionPage S { r with offset := w.offset } w.counted rows)))
    (hx : x.out ∈ w.items ∨ x ∈ rows ∨
      (w.offset + rows.length < w.counted ∧ w.offset + rows.length ≤ w.position c r x))

/-- A row within the bounds of a range shows that the range is not inverted. -/
theorem not_inverted_of_holds {x : Transaction} (h : r.filter.holds c x = true) :
    inverted (asUTC r.dateFrom) (asUTC r.dateTo) = .ok false := by
  obtain ⟨-, hfrom, hto⟩ := holds_iff.1 h
  rw [inverted_asUTC]
  refine congrArg Except.ok (Bool.eq_false_of_not_eq_true fun hany => ?_)
  obtain ⟨d, hd, hany⟩ := (Option.any_eq_true _ _).1 hany
  obtain ⟨d', hd', hlt⟩ := (Option.any_eq_true _ _).1 hany
  exact absurd (of_decide_eq_true hlt) (not_lt.2 ((hfrom d hd).trans (hto d' hd')))

theorem pageFrom_eq (h : inverted (asUTC r.dateFrom) (asUTC r.dateTo) = .ok false) (offset : Nat) :
    pageFrom S r offset = .op (.count r.filter) fun total =>
      .op (.list r.filter (r.pageSize S) offset) fun rows =>
        .ret (transactionPage S { r with offset := offset } total rows) := by
  show listUserTransactions S { r with offset := offset } = _
  unfold listUserTransactions
  rw [show inverted (asUTC ({ r with offset := offset } : ListParams).dateFrom)
    (asUTC ({ r with offset := offset } : ListParams).dateTo) = .ok false from h]
  rfl

/-- What a list statement answers in a settled state: the row, or it has still to come and the
count says so. -/
theorem listed_or_ahead {w : Walk} {x : Transaction} {limit : Nat} (hx : x ∈ w.matching c r)
    (hahead : w.offset ≤ w.position c r x)
    (hsettled : w.counted ≤ w.offset + limit → (w.matching c r).length ≤ w.offset + limit) :
    x ∈ page (newestFirst c) limit w.offset (w.matching c r) ∨
      (w.offset + (page (newestFirst c) limit w.offset (w.matching c r)).length < w.counted ∧
        w.offset + (page (newestFirst c) limit w.offset (w.matching c r)).length ≤ w.position c r x) := by
  have hids : ((w.matching c r).map Transaction.id).Nodup := by
    have hnodup : (w.stored.map Transaction.id).Nodup := by
      rw [stored, List.map_map]
      exact w.unique
    exact hnodup.sublist (List.Sublist.map _ List.filter_sublist)
  have hlt : w.position c r x < (w.matching c r).length := rank_lt_length hx
  by_cases hin : w.position c r x < w.offset + limit
  · exact Or.inl ((mem_page (distinct_of_ids c hids) hx limit w.offset).2 ⟨hahead, hin⟩)
  · -- the row lies behind a full page, so the state being settled the count has told of it
    rw [length_page]
    have hcounted : w.offset + limit < w.counted := by
      by_contra hle
      have := hsettled (not_lt.1 hle)
      omega
    exact Or.inr ⟨by omega, by omega⟩

/-- A commit adds rows, and those before the row can only become more. -/
theorem Tracks.commit {w w' : Walk} {x : Transaction} {v : Values} (ht : Tracks S c r x w) (hx : x ∈ w.stored)
    (h : w.step S c r (.commit v) = some w') : x ∈ w'.stored ∧ Tracks S c r x w' := by
  simp only [Walk.step] at h
  split at h
  · cases h
  rw [← Option.some.inj h]
  have hsub : w.stored.Sublist ((w.rows ++ [v]).map Values.stored) := by
    rw [List.map_append]
    exact List.sublist_append_left ..
  have hpos : w.position c r x ≤ rank (newestFirst c)
      (((w.rows ++ [v]).map Values.stored).filter (r.filter.holds c)) x := rank_mono (hsub.filter _)
  have hahead : w.Ahead c r x → x.out ∈ w.items ∨ w.offset ≤ rank (newestFirst c)
      (((w.rows ++ [v]).map Values.stored).filter (r.filter.holds c)) x := Or.imp_right fun h => h.trans hpos
  refine ⟨hsub.subset hx, ?_⟩
  cases ht with
  | stopped hreq hitem => exact .stopped hreq hitem
  | counting hreq hahead' => exact .counting hreq (hahead hahead')
  | listing hreq hahead' => exact .listing hreq (hahead hahead')
  | answered rows hreq hrest =>
    exact .answered rows hreq (hrest.imp_right (Or.imp_right fun h => ⟨h.1, h.2.trans hpos⟩))

/-- A call counts or lists; a page that is listed holds the row, or ends in front of it. -/
theorem Tracks.call {w w' : Walk} {x : Transaction} (ht : Tracks S c r x w) (hx : x ∈ w.stored)
    (hf : r.filter.holds c x = true) (hsettled : w.Settled c) (h : w.step S c r .call = some w') :
    x ∈ w'.stored ∧ Tracks S c r x w' := by
  cases ht with
  | stopped hreq _ =>
    simp only [Walk.step, hreq] at h
    cases h
  | counting hreq hahead =>
    rw [pageFrom_eq (not_inverted_of_holds hf)] at hreq
    simp only [Walk.step, hreq] at h
    rw [← Option.some.inj h]
    exact ⟨hx, .listing rfl hahead⟩
  | listing hreq hahead =>
    unfold Settled at hsettled
    rw [hreq] at hsettled
    simp only [Walk.step, hreq] at h
    rw [← Option.some.inj h]
    refine ⟨hx, .answered _ rfl ?_⟩
    exact hahead.imp_right fun h => listed_or_ahead (List.mem_filter.2 ⟨hx, hf⟩) h hsettled
  | answered rows hreq _ =>
    simp only [Walk.step, hreq] at h
    cases h

/-- The client keeps the page it receives, and goes on behind it or stops. -/
theorem Tracks.receive {w w' : Walk} {x : Transaction} (ht : Tracks S c r x w) (hx : x ∈ w.stored)
    (hf : r.filter.holds c x = true) (h : w.step S c r .receive = some w') :
    x ∈ w'.stored ∧ Tracks S c r x w' := by
  cases ht with
  | stopped hreq _ =>
    simp only [Walk.step, hreq] at h
    cases h
  | counting hreq _ =>
    rw [pageFrom_eq (not_inverted_of_holds hf)] at hreq
    simp only [Walk.step, hreq] at h
    cases h
  | listing hreq _ =>
    simp only [Walk.step, hreq] at h
    cases h
  | answered rows hreq hrest =>
    simp only [Walk.step, hreq] at h
    rw [← Option.some.inj h]
    refine ⟨hx, ?_⟩
    have hin : x.out ∈ w.items ∨ x ∈ rows → x.out ∈ w.items ++ rows.map Transaction.out := by
      rintro (hitem | hrow)
      · exact List.mem_append_left _ hitem
      · exact List.mem_append_right _ (List.mem_map_of_mem hrow)
    by_cases hmore : w.offset + rows.length < w.counted
    · refine .counting (by simp [transactionPage, hmore]) ?_
      rcases hrest with hitem | hrow | ⟨-, hpos⟩
      · exact Or.inl (hin (Or.inl hitem))
      · exact Or.inl (hin (Or.inr hrow))
      · refine Or.inr ?_
        show w.offset + (rows.map Transaction.out).length ≤ w.position c r x
        rw [List.length_map]
        exact hpos
    · refine .stopped (by simp [transactionPage, hmore]) ?_
      rcases hrest with hitem | hrow | ⟨hlt, -⟩
      · exact hin (Or.inl hitem)
      · exact hin (Or.inr hrow)
      · exact absurd hlt hmore

/-- One action does not pass a row by. -/
theorem Tracks.step {w w' : Walk} {x : Transaction} {a : Action} (ht : Tracks S c r x w)
    (hx : x ∈ w.stored) (hf : r.filter.holds c x = true) (hs : a = .call → w.Settled c)
    (h : w.step S c r a = some w') : x ∈ w'.stored ∧ Tracks S c r x w' := by
  cases a with
  | commit v => exact ht.commit hx h
  | call => exact ht.call hx hf (hs rfl) h
  | receive => exact ht.receive hx hf h

/-- A whole walk passes no row by that was there when it began. -/
theorem tracks_of_run {rows : List Values} {unique : (rows.map Values.id).Nodup} {w : Walk}
    {x : Transaction} (hrun : SettledRun S c r (start S r rows unique) w) (hx : x ∈ rows.map Values.stored)
    (hf : r.filter.holds c x = true) : x ∈ w.stored ∧ Tracks S c r x w := by
  induction hrun with
  | refl => exact ⟨hx, .counting rfl (Or.inr (Nat.zero_le _))⟩
  | step a _ hs hw ih => exact ih.2.step ih.1 hf hs hw

theorem run_commits (w : Walk) (vs : List Values) (h : ((w.rows ++ vs).map Values.id).Nodup) :
    SettledRun S c r w { w with rows := w.rows ++ vs, unique := h } := by
  induction vs using List.reverseRecOn with
  | nil =>
    simp only [List.append_nil]
    exact .refl w
  | append_singleton vs v ih =>
    have h' : (((w.rows ++ vs) ++ [v]).map Values.id).Nodup := by rwa [List.append_assoc]
    have hvs : ((w.rows ++ vs).map Values.id).Nodup :=
      h'.sublist (List.Sublist.map _ (List.sublist_append_left ..))
    have hv : v.id ∉ (w.rows ++ vs).map Values.id := by
      rw [List.map_append, List.nodup_append] at h'
      exact fun hin => h'.2.2 _ hin _ (List.mem_singleton_self _) rfl
    refine .step (.commit v) (ih hvs) (by rintro ⟨⟩) ?_
    simp only [Walk.step, dif_neg hv, List.append_assoc]

/-- What the workers commit in a run of the service are steps of a walk. -/
theorem run_of_system {P : Type} {service : Service P} {s t : System P} (h : System.Reachable service s)
    (hrun : System.Run service s t) {w : Walk} (hw : w.rows = s.world.table.rows) :
    SettledRun S c r w { w with rows := t.world.table.rows, unique := ids_nodup _ } := by
  obtain ⟨vs, hvs⟩ := rows_prefix_of_run h hrun
  have hrows : t.world.table.rows = w.rows ++ vs := by rw [hw, hvs]
  simp only [hrows]
  exact run_commits w vs (hrows ▸ ids_nodup t.world.table)

end Walk

/-- A page walk misses nothing: in every walk whose statements run in settled states, over any rows,
with any rows committed meanwhile, a client that has stopped has received every row of the listing
that was committed before it began. -/
theorem page_walk_misses_nothing {S : Settings} {c : Conventions} {r : ListParams} {rows : List Values}
    {unique : (rows.map Values.id).Nodup} {w : Walk} (hrun : Walk.SettledRun S c r (.start S r rows unique) w)
    (hend : w.request = none) :
    ∀ v ∈ rows, r.filter.holds c v.stored = true → v.stored.out ∈ w.items := by
  intro v hv hf
  -- a client that has stopped is in the one phase in which it has the row
  obtain ⟨-, ht⟩ := Walk.tracks_of_run hrun (List.mem_map_of_mem hv) hf
  cases ht with
  | stopped _ hitem => exact hitem
  | counting hreq _ => cases hend.symm.trans hreq
  | listing hreq _ => cases hend.symm.trans hreq
  | answered _ hreq _ => cases hend.symm.trans hreq

namespace Walk

/-- A row of the user whose time stamp is the given number of microseconds after the first instant. -/
def rowAt (id : String) (time : Nat) (h : (time : Int) < Datetime.span) : Values :=
  ⟨id.toList, Trace.user, .finite false 5 0, "USD".toList, .finite false 50000 (-4), .finite false 1 0,
    (Trace.clock time h).replaceUTC, 0⟩

/-- All transactions of the user, one a page. -/
def oneByOne : ListParams := ⟨Trace.user, none, none, some 1, 0, Trace.user_length, by simp⟩

/-- A walk over one old row. -/
def oldRow : Walk := start {} oneByOne [rowAt "old" 0 Trace.zero_lt_span] (by decide)

end Walk

/-- One row is counted, a newer one is committed, and the page of one row holds the newer one: the
walk ends without the old row. -/
theorem page_walk_misses_old_row :
    ∃ w, Walk.oldRow.runActions {} .codePoints Walk.oneByOne
      [.call, .commit (Walk.rowAt "new" 1 (by decide)), .call, .receive] = some w ∧
      w.request.isNone = true ∧ (Walk.rowAt "old" 0 Trace.zero_lt_span).stored.out ∉ w.items := by
  have hrun : (Walk.oldRow.runActions {} .codePoints Walk.oneByOne
      [.call, .commit (Walk.rowAt "new" 1 (by decide)), .call, .receive]).any (fun w =>
        w.request.isNone && decide ((Walk.rowAt "old" 0 Trace.zero_lt_span).stored.out ∉ w.items)) = true := by
    decide +kernel
  obtain ⟨w, hw, hp⟩ := Option.any_eq_true _ _ |>.1 hrun
  rw [Bool.and_eq_true, decide_eq_true_eq] at hp
  exact ⟨w, hw, hp⟩

/-- A newer row that is committed before the count only makes the walk longer. -/
theorem settled_walk_has_old_row :
    ∃ w, Walk.SettledRun {} .codePoints Walk.oneByOne Walk.oldRow w ∧ w.request.isNone = true ∧
      w.items.length = 2 ∧ (Walk.rowAt "old" 0 Trace.zero_lt_span).stored.out ∈ w.items := by
  have hrun : (Walk.oldRow.runSettled {} .codePoints Walk.oneByOne
      [.commit (Walk.rowAt "new" 1 (by decide)), .call, .call, .receive, .call, .call, .receive]).any (fun w =>
        w.request.isNone && decide (w.items.length = 2)) = true := by
    decide +kernel
  obtain ⟨w, hw, hp⟩ := Option.any_eq_true _ _ |>.1 hrun
  rw [Bool.and_eq_true, decide_eq_true_eq] at hp
  have hsettled := Walk.settledRun_of_runSettled (.refl _) hw
  exact ⟨w, hsettled, hp.1, hp.2, page_walk_misses_nothing hsettled (Option.isNone_iff_eq_none.1 hp.1) _
    (List.mem_singleton_self _) (by decide +kernel)⟩

end App
