/-
What a page promises. A request counts before it lists, and rows may be committed in between; so a page can say
that there is no more although there is. The other way round it is right: a page that says that there is more is
full, and rows are there behind it, also for every later request.
-/
import EventService.Guarantees.Listing
import EventService.Program.Steps

namespace App

open Prog Store

namespace Walk

variable {S : Settings} {c : Conventions} {r : ListParams} {w w' : Walk}

/-- The client has a request under way: it stands behind full pages, and has come here only if there was more. -/
structure Due (S : Settings) (c : Conventions) (r : ListParams) (w : Walk) : Prop where
  upright : inverted (asUTC r.dateFrom) (asUTC r.dateTo) = .ok false
  full : r.pageSize S ∣ w.offset
  more : w.offset = 0 ∨ w.offset < (w.matching c r).length

/-- Where a client is: it has stopped; its request was refused; it is about to count, or to list; or it was
answered. -/
inductive Phase (S : Settings) (c : Conventions) (r : ListParams) (w : Walk) : Prop
  | stopped (h : w.request = none)
  | refused (h : ∃ e, w.request = some (.raise e)) (hfirst : w.offset = 0)
  | counting (h : w.request = some (.op (.count r.filter) fun total =>
      .op (.list r.filter (r.pageSize S) w.offset) fun rows =>
        .ret (transactionPage S { r with offset := w.offset } total rows)))
    (hdue : w.Due S c r)
  | listing (h : w.request = some (.op (.list r.filter (r.pageSize S) w.offset) fun rows =>
      .ret (transactionPage S { r with offset := w.offset } w.counted rows)))
    (hdue : w.Due S c r)
  | answered (rows : List Transaction)
    (h : w.request = some (.ret (transactionPage S { r with offset := w.offset } w.counted rows)))
    (hdue : w.Due S c r)
    (hrows : ∀ t ∈ rows, t ∈ w.matching c r) (hnext : w.offset = 0 ∨ rows ≠ [])
    (hfull : w.offset + rows.length < w.counted → rows.length = r.pageSize S)

/-- What holds at every point of a walk. -/
structure Honest (S : Settings) (c : Conventions) (r : ListParams) (w : Walk) : Prop where
  phase : w.Phase S c r
  received : w.items.length = w.offset
  stored : ∀ item ∈ w.items, ∃ t ∈ w.matching c r, t.out = item
  counted : w.counted ≤ (w.matching c r).length

theorem honest_start (rows : List Values) (unique : (rows.map Values.id).Nodup) :
    (start S r rows unique).Honest S c r where
  phase := by
    have hrefused : inverted (asUTC r.dateFrom) (asUTC r.dateTo) ≠ .ok false →
        ∃ e, listUserTransactions S { r with offset := 0 } = .raise e := by
      unfold listUserTransactions
      dsimp only
      rcases inverted (asUTC r.dateFrom) (asUTC r.dateTo) with e | _ | _
      · exact fun _ => ⟨_, rfl⟩
      · exact fun hne => absurd rfl hne
      · exact fun _ => ⟨_, rfl⟩
    by_cases hupright : inverted (asUTC r.dateFrom) (asUTC r.dateTo) = .ok false
    · exact .counting (congrArg some (pageFrom_eq hupright 0)) ⟨hupright, Nat.dvd_zero _, Or.inl rfl⟩
    · obtain ⟨e, heq⟩ := hrefused hupright
      exact .refused ⟨e, congrArg some heq⟩ rfl
  received := rfl
  stored := by simp [start]
  counted := Nat.zero_le _

/-- The rows of the listing only become more. -/
theorem matching_sublist {v : Values} (h : w.step S c r (.commit v) = some w') :
    (w.matching c r).Sublist (w'.matching c r) ∧ w'.request = w.request ∧ w'.offset = w.offset ∧ w'.items = w.items ∧
      w'.counted = w.counted := by
  simp only [Walk.step] at h
  split at h
  · cases h
  rw [← Option.some.inj h]
  refine ⟨List.Sublist.filter _ ?_, rfl, rfl, rfl, rfl⟩
  show w.stored.Sublist ((w.rows ++ [v]).map Values.stored)
  rw [List.map_append]
  exact List.sublist_append_left ..

theorem Honest.commit {v : Values} (hi : w.Honest S c r) (h : w.step S c r (.commit v) = some w') : w'.Honest S c r := by
  obtain ⟨hsub, hrequest, hoffset, hitems, hcounted⟩ := matching_sublist h
  have hdue (hd : w.Due S c r) : w'.Due S c r := by
    refine ⟨hd.upright, hoffset ▸ hd.full, ?_⟩
    rw [hoffset]
    exact hd.more.imp_right fun hlt => hlt.trans_le hsub.length_le
  refine ⟨?_, by rw [hitems, hoffset, hi.received], fun item hitem => ?_, ?_⟩
  · cases hi.phase with
    | stopped hreq => exact .stopped (hrequest.trans hreq)
    | refused hreq hfirst => exact .refused (hrequest ▸ hreq) (hoffset.trans hfirst)
    | counting hreq hd => exact .counting (by rw [hrequest, hreq, hoffset]) (hdue hd)
    | listing hreq hd => exact .listing (by rw [hrequest, hreq, hoffset, hcounted]) (hdue hd)
    | answered rows hreq hd hrows hnext hfull =>
      refine .answered rows (by rw [hrequest, hreq, hoffset, hcounted]) (hdue hd)
        (fun t ht => hsub.subset (hrows t ht)) (by rwa [hoffset]) (by rwa [hoffset, hcounted])
  · rw [hitems] at hitem
    obtain ⟨t, ht, hout⟩ := hi.stored item hitem
    exact ⟨t, hsub.subset ht, hout⟩
  · rw [hcounted]
    exact hi.counted.trans hsub.length_le

/-- What a list statement answers. -/
theorem page_spec (limit : Nat) : (∀ t ∈ page (newestFirst c) limit w.offset (w.matching c r), t ∈ w.matching c r) ∧
    (page (newestFirst c) limit w.offset (w.matching c r)).length = min limit ((w.matching c r).length - w.offset) := by
  refine ⟨fun t ht => ?_, length_page ..⟩
  exact (List.mem_insertionSort _).1 (List.mem_of_mem_drop (List.mem_of_mem_take ht))

/-- A count is right when it is made; a page that ends before the count has told of more is full. -/
theorem Honest.call (hpage : 1 ≤ r.pageSize S) (hi : w.Honest S c r) (h : w.step S c r .call = some w') :
    w'.Honest S c r := by
  cases hi.phase with
  | stopped hreq | answered rows hreq =>
    simp only [Walk.step, hreq] at h
    cases h
  | refused hreq hfirst =>
    obtain ⟨e, hreq⟩ := hreq
    simp only [Walk.step, hreq] at h
    cases h
  | counting hreq hdue =>
    simp only [Walk.step, hreq] at h
    rw [← Option.some.inj h]
    exact ⟨.listing rfl ⟨hdue.upright, hdue.full, hdue.more⟩, hi.received, hi.stored, le_rfl⟩
  | listing hreq hdue =>
    simp only [Walk.step, hreq] at h
    rw [← Option.some.inj h]
    obtain ⟨hmem, hlength⟩ := page_spec (c := c) (r := r) (w := w) (r.pageSize S)
    refine ⟨.answered _ rfl ⟨hdue.upright, hdue.full, hdue.more⟩ hmem ?_ fun hmore => ?_, hi.received, hi.stored,
      hi.counted⟩
    · -- rows are there from the offset on, so the page has one of them
      refine hdue.more.imp_right fun hlt hnil => ?_
      have hzero := congrArg List.length
        (show page (newestFirst c) (r.pageSize S) w.offset (w.matching c r) = [] from hnil)
      rw [hlength, List.length_nil] at hzero
      omega
    · have hmore : w.offset + (page (newestFirst c) (r.pageSize S) w.offset (w.matching c r)).length < w.counted := hmore
      have hcounted := hi.counted
      show (page (newestFirst c) (r.pageSize S) w.offset (w.matching c r)).length = r.pageSize S
      omega

/-- The client goes on behind a full page only. -/
theorem Honest.receive (hi : w.Honest S c r) (h : w.step S c r .receive = some w') : w'.Honest S c r := by
  cases hi.phase with
  | stopped hreq | counting hreq | listing hreq =>
    simp only [Walk.step, hreq] at h
    cases h
  | refused hreq hfirst =>
    obtain ⟨e, hreq⟩ := hreq
    simp only [Walk.step, hreq] at h
    rw [← Option.some.inj h]
    exact ⟨.stopped rfl, hi.received, hi.stored, hi.counted⟩
  | answered rows hreq hdue hrows hnext hfull =>
    simp only [Walk.step, hreq] at h
    rw [← Option.some.inj h]
    have hlength : (rows.map Transaction.out).length = rows.length := List.length_map ..
    refine ⟨?_, ?_, fun item hitem => ?_, hi.counted⟩
    · by_cases hmore : w.offset + rows.length < w.counted
      · have hsize := hfull hmore
        have hcounted := hi.counted
        refine .counting ?_ ⟨hdue.upright, ?_, Or.inr ?_⟩
        · rw [← pageFrom_eq hdue.upright]
          exact if_pos (decide_eq_true hmore)
        · show r.pageSize S ∣ w.offset + (rows.map Transaction.out).length
          rw [hlength, hsize]
          exact Nat.dvd_add hdue.full (Nat.dvd_refl _)
        · show w.offset + (rows.map Transaction.out).length < (w.matching c r).length
          omega
      · exact .stopped (by simp [transactionPage, hmore])
    · show (w.items ++ rows.map Transaction.out).length = w.offset + (rows.map Transaction.out).length
      rw [List.length_append, hi.received]
    · rcases List.mem_append.1 hitem with hitem | hitem
      · exact hi.stored item hitem
      · obtain ⟨t, ht, rfl⟩ := List.mem_map.1 hitem
        exact ⟨t, hrows t ht, rfl⟩

theorem honest_run {rows : List Values} {unique : (rows.map Values.id).Nodup} (hpage : 1 ≤ r.pageSize S)
    (hrun : Steps.Run (step S c r) (start S r rows unique) w) : w.Honest S c r := by
  refine hrun.keeps (honest_start rows unique) fun u a v hi h => ?_
  cases a with
  | commit v => exact hi.commit h
  | call => exact hi.call hpage h
  | receive => exact hi.receive h

/-! ## A client beside the service -/

theorem run_of_settledRun {u : Walk} (h : SettledRun S c r u w) : Steps.Run (step S c r) u w := by
  induction h with
  | refl => exact .refl
  | step a _ _ hw ih => exact ih.tail ⟨a, hw⟩

variable {P : Type} {service : Service P} {s : System P}

/-- A client begins to walk at some point of a run of the service; from then on the service goes on, and the client
runs its statements over what is committed at the time, and receives its answers. -/
inductive Beside (service : Service P) (c : Conventions) (r : ListParams) : System P → Walk → Prop
  | start {s : System P} (h : System.Reachable service s) :
    Beside service c r s (start service.settings r s.world.table.rows (ids_nodup _))
  | service {s t : System P} {w : Walk} (a : App.Action) (h : Beside service c r s w) (ht : s.step service a = some t) :
    Beside service c r t { w with rows := t.world.table.rows, unique := ids_nodup _ }
  | client {s : System P} {w w' : Walk} (a : Walk.Action) (h : Beside service c r s w) (ha : a = .call ∨ a = .receive)
    (hw : w.step service.settings c r a = some w') : Beside service c r s w'

theorem rows_of_client {a : Action} (ha : a = .call ∨ a = .receive) (h : w.step S c r a = some w') :
    w'.rows = w.rows := by
  rcases ha with rfl | rfl
  all_goals
    simp only [Walk.step] at h
    split at h
  all_goals first | (rw [← Option.some.inj h]) | cases h

theorem Beside.walk (h : Beside service c r s w) : System.Reachable service s ∧ w.rows = s.world.table.rows ∧
    ∃ rows unique, Steps.Run (step service.settings c r) (Walk.start service.settings r rows unique) w := by
  induction h with
  | start h => exact ⟨h, rfl, _, _, .refl⟩
  | @service s t w a _ ht ih =>
    obtain ⟨hs, hrows, rows, unique, hrun⟩ := ih
    refine ⟨.step a hs ht, rfl, rows, unique, hrun.trans ?_⟩
    exact run_of_settledRun (run_of_system hs (.step a (.refl s) ht) hrows)
  | client a _ ha hw ih =>
    obtain ⟨hs, hrows, rows, unique, hrun⟩ := ih
    exact ⟨hs, (rows_of_client ha hw).trans hrows, rows, unique, hrun.tail ⟨a, hw⟩⟩

variable (service c r) in
/-- Take the actions of the service and of the client one after the other. -/
def alongside (s : System P) (w : Walk) : List (App.Action ⊕ Action) → Option (System P × Walk)
  | [] => some (s, w)
  | .inl a :: as => (s.step service a).bind fun t =>
      alongside t { w with rows := t.world.table.rows, unique := ids_nodup _ } as
  | .inr a :: as =>
    match a with
    | .call => (w.step service.settings c r .call).bind fun w' => alongside s w' as
    | .receive => (w.step service.settings c r .receive).bind fun w' => alongside s w' as
    | .commit _ => none

theorem beside_of_alongside {t : System P} {as : List (App.Action ⊕ Action)} (h : Beside service c r s w)
    (has : alongside c r service s w as = some (t, w')) : Beside service c r t w' := by
  induction as generalizing s w with
  | nil =>
    obtain ⟨rfl, rfl⟩ := Prod.mk.inj (Option.some.inj has)
    exact h
  | cons a as ih =>
    cases a with
    | inl a =>
      obtain ⟨u, hu, hrest⟩ := Option.bind_eq_some_iff.1 has
      exact ih (.service a h hu) hrest
    | inr a =>
      cases a with
      | commit v => cases has
      | call =>
        obtain ⟨u, hu, hrest⟩ := Option.bind_eq_some_iff.1 has
        exact ih (.client .call h (Or.inl rfl) hu) hrest
      | receive =>
        obtain ⟨u, hu, hrest⟩ := Option.bind_eq_some_iff.1 has
        exact ih (.client .receive h (Or.inr rfl) hu) hrest

variable (service c r) in
/-- A walk that begins behind some actions of the service and ends with `p`. -/
theorem exists_beside (before : List App.Action) (as : List (App.Action ⊕ Action)) (p : System P → Walk → Bool)
    (h : ((System.initial P).runActions service before).any (fun s =>
      (alongside c r service s (start service.settings r s.world.table.rows (ids_nodup _)) as).any
        fun x => p x.1 x.2) = true) : ∃ s w, Beside service c r s w ∧ p s w = true := by
  obtain ⟨s, hs, h⟩ := (Option.any_eq_true _ _).1 h
  obtain ⟨⟨t, w⟩, hw, hp⟩ := (Option.any_eq_true _ _).1 h
  exact ⟨t, w, beside_of_alongside (.start (System.run_of_runActions service hs)) hw, hp⟩

end Walk

/-- No page promises more than there is. Whenever a client walks through the pages of a listing while the service
goes on, with rows committed at any time, also between the two statements of a request: what it has received are
rows of the listing, as many as its offset says; when it asks for a page that is not its first, it stands behind
full pages, and rows are there from its offset on, so that the page is not empty; and a page that says that there is
more is full, and rows are there behind it. -/
theorem more_is_never_promised_in_vain {P : Type} {service : Service P} {c : Conventions} {r : ListParams}
    {s : System P} {w : Walk} (h : Walk.Beside service c r s w) (hpage : 1 ≤ service.settings.apiPageSize)
    (hmax : 1 ≤ service.settings.apiMaxPageSize) :
    w.rows = s.world.table.rows ∧ w.items.length = w.offset ∧
      (∀ item ∈ w.items, ∃ v ∈ s.world.table.rows, Matches r v.stored ∧ v.stored.out = item) ∧
      (w.request ≠ none → r.pageSize service.settings ∣ w.offset ∧
        (w.offset = 0 ∨ w.offset < (w.matching c r).length)) ∧
      ∀ page, w.request = some (.ret page) → (w.offset = 0 ∨ page.items ≠ []) ∧
        (page.hasMore = true → page.items.length = r.pageSize service.settings ∧
          w.offset + page.items.length < (w.matching c r).length) := by
  obtain ⟨-, hrows, rows, unique, hrun⟩ := h.walk
  have hi := Walk.honest_run (pageSize_pos hpage hmax) hrun
  refine ⟨hrows, hi.received, fun item hitem => ?_, fun hrequest => ?_, fun page hanswer => ?_⟩
  · obtain ⟨t, ht, hout⟩ := hi.stored item hitem
    obtain ⟨hstored, hholds⟩ := List.mem_filter.1 ht
    obtain ⟨v, hv, rfl⟩ := List.mem_map.1 hstored
    exact ⟨v, hrows ▸ hv, holds_iff.1 hholds, hout⟩
  · cases hi.phase with
    | stopped hreq => exact absurd hreq hrequest
    | refused _ hfirst => exact ⟨hfirst ▸ Nat.dvd_zero _, Or.inl hfirst⟩
    | counting _ hdue | listing _ hdue | answered _ _ hdue => exact ⟨hdue.full, hdue.more⟩
  · cases hi.phase with
    | stopped hreq | counting hreq | listing hreq => cases hreq.symm.trans hanswer
    | refused hreq =>
      obtain ⟨e, hreq⟩ := hreq
      cases hreq.symm.trans hanswer
    | answered rows hreq hdue hmem hnext hfull =>
      obtain rfl := Prog.ret.inj (Option.some.inj (hreq.symm.trans hanswer))
      have hlength : (rows.map Transaction.out).length = rows.length := List.length_map ..
      refine ⟨hnext.imp_right fun hne hnil => hne (List.map_eq_nil_iff.1 hnil), fun hmore => ?_⟩
      have hlt : w.offset + rows.length < w.counted := of_decide_eq_true hmore
      have hcounted := hi.counted
      have hsize := hfull hlt
      show (rows.map Transaction.out).length = _ ∧ w.offset + (rows.map Transaction.out).length < _
      rw [hlength]
      exact ⟨hsize, hlt.trans_le hcounted⟩

namespace Walk

/-- Two events are stored, and a third one is about to be committed. -/
def twoStored : List App.Action :=
  Trace.publish 0 (Trace.document "a" (.finite false 5 0) "USD") ++
  Trace.publish 1 (Trace.document "b" (.finite false 6 0) "USD") ++
  Trace.publish 2 (Trace.document "c" (.finite false 7 0) "USD") ++ Trace.boot 0 ++ Trace.calls 0 .consume 2 ++
  [.move 0 .consume] ++ Trace.handles 0 .consume 0 6 ++ Trace.handles 0 .consume 1 6 ++ Trace.handles 0 .consume 2 4

/-- The first request counts, the third row is committed, and the request lists. -/
def committedBetween : List (App.Action ⊕ Action) := [.inr .call, .inl (.handle 0 .consume 2 {}), .inr .call]

/-- An answer of one item that says that there is more. -/
def saysMore (w : Walk) : Bool :=
  match w.request with
  | some (.ret page) => decide (page.items.length = 1 ∧ page.total = 2) && page.hasMore
  | some (.op _ _) | some (.raise _) | none => false

end Walk

theorem committedBetween_has_more : ∃ s w page, Walk.Beside (documentService {}) .codePoints Walk.oneByOne s w ∧
    w.request = some (.ret page) ∧ page.total = 2 ∧ page.hasMore = true ∧
      w.offset + page.items.length < (w.matching .codePoints Walk.oneByOne).length := by
  obtain ⟨s, w, h, hp⟩ := Walk.exists_beside .codePoints Walk.oneByOne (documentService {})
    Walk.twoStored Walk.committedBetween (fun s w => Walk.saysMore w && decide (s.world.table.rows.length = 3))
    (by decide +kernel)
  rw [Bool.and_eq_true] at hp
  have hmore := hp.1
  unfold Walk.saysMore at hmore
  split at hmore
  · rename_i page hanswer
    rw [Bool.and_eq_true, decide_eq_true_eq] at hmore
    have hpromise := (more_is_never_promised_in_vain h (by decide) (by decide)).2.2.2.2 page hanswer
    exact ⟨s, w, page, h, hanswer, hmore.1.2, hmore.2, (hpromise.2 hmore.2).2⟩
  · cases hmore
  · cases hmore
  · cases hmore

end App
