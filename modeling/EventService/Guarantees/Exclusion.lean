/-
Entries that are both stored and dead-lettered. The reclaim loop goes by the delivery count alone
and the rate source may stop to know a currency, so the row of a dead-lettered entry may be
committed, by an earlier or a later delivery; there is no other way, and in particular no entry
that was processed is refused as unparsable.
-/
import EventService.Guarantees.Settling
import EventService.Run.Reclaiming
import EventService.Run.Refusals

namespace App

open Store Prog

variable {P : Type} {S : Service P} {s : System P} {log : List (Event P)}

/-! ## What is filed -/

/-- The group had delivered the entry more than `max_deliveries` times. -/
def DeliveredTooOften (S : Service P) (log : List (Event P)) (id : Nat) : Prop :=
  ∃ ev ∈ log, ∃ g ∈ ev.after.stream.group, ∃ p ∈ g.pending, p.id = id ∧ S.settings.maxDeliveries < p.timesDelivered

/-- The calls are those of the handler that one of the deliveries was handed to, up to where it files the record. -/
structure FiledBy (S : Service P) (log : List (Event P)) (r : DlqRecord P) (m : QueuedMessage P)
    (σ : List (Call (@Op.Reply P))) : Prop where
  delivered : (m.messageId, m.number) ∈ deliveries log
  record : r = m.record r.reason
  made : ∃ worker loop, σ ⊆ callsFor worker loop log
  filing : ∃ k, After (handleOne S m) σ (.op (.deadLetter r) k)

/-- Why a record was filed: by the reclaim loop, for an entry that was delivered too often; or by the handler of one
of the entry's deliveries, which could not parse the payload or was told that there is no rate for the currency. -/
def Filed (S : Service P) (log : List (Event P)) (r : DlqRecord P) : Prop :=
  (r.reason = exceededReason S ∧ DeliveredTooOften S log r.originalId) ∨
  ∃ m σ, FiledBy S log r m σ ∧ ((∃ e, parse S m = .error e) ∨ ∃ event, parse S m = .ok event ∧
    ⟨.fetch (PyStr.upper event.currency), .error (.event .unknownCurrencyError r.reason)⟩ ∈ σ)

theorem deliveries_mono {log log' : List (Event P)} (h : log ⊆ log') : deliveries log ⊆ deliveries log' := by
  intro d hd
  obtain ⟨ev, hev, hd⟩ := List.mem_flatMap.1 hd
  exact List.mem_flatMap.2 ⟨ev, h hev, hd⟩

theorem Filed.mono {log log' : List (Event P)} {r : DlqRecord P} (h : log ⊆ log') : Filed S log r → Filed S log' r := by
  rintro (⟨hreason, ev, hev, htimes⟩ | ⟨m, σ, ⟨hdelivered, hrecord, ⟨worker, loop, hσ⟩, hfiling⟩, hcause⟩)
  · exact Or.inl ⟨hreason, ev, h hev, htimes⟩
  · refine Or.inr ⟨m, σ, ⟨deliveries_mono h hdelivered, hrecord, ⟨worker, loop, ?_⟩, hfiling⟩, hcause⟩
    exact List.Subset.trans hσ (callsFor_mono h)

/-- `XPENDING` tells what the pending list says. -/
theorem pending_of_xpending {w w' : World P} {consumer count : Nat} {wanted answer : List (Nat × Nat)} {c : Choice}
    (h : World.exec S (.xpending consumer count wanted) c w = some (.ok answer, w')) :
    ∀ a ∈ answer, ∃ g ∈ w'.stream.group, ∃ p ∈ g.pending, p.id = a.1 ∧ p.timesDelivered = a.2 := by
  intro a ha
  simp only [World.exec] at h
  split at h
  · rename_i answer' _ hans
    obtain ⟨hreply, rfl⟩ := Prod.mk.inj (Option.some.inj h)
    obtain rfl := Except.ok.inj hreply
    cases hg : w.stream.group with
    | none =>
      unfold Stream.pendingOf at hans
      rw [hg] at hans
      cases hans
    | some g => exact ⟨g, rfl, Stream.mem_pendingOf hans hg ha⟩
  all_goals cases (Prod.mk.inj (Option.some.inj h)).1

/-- What `XAUTOCLAIM` hands over is pending, and was delivered. -/
theorem pending_of_xautoclaim {w w' : World P} {consumer minIdleMs count : Nat} {r : List (Entry P × Nat) × List Nat}
    {c : Choice} (h : World.exec S (.xautoclaim consumer minIdleMs count) c w = some (.ok r, w')) :
    ∀ x ∈ r.1, ∃ g ∈ w'.stream.group, ∃ p ∈ g.pending, p.id = x.1.id ∧ 0 < p.timesDelivered := by
  intro x hx
  obtain ⟨g, -, rfl, hg'⟩ := exec_xautoclaim_ok h
  obtain ⟨p, -, hfind, hlt, p', hp', hid, htimes⟩ := (w.stream.claim_spec g consumer w.now minIdleMs count).taken x hx
  exact ⟨_, hg', p', hp', hid.trans (Stream.mem_entries_of_find hfind).2.symm, by omega⟩

/-- A message is reported as delivered too often because the answer to the lookup says so, or because there may be no
delivery at all. -/
theorem exhausted_of_claimStale {worker minIdleMs count : Nat} {τ : List (Call Op.Reply)}
    {messages : List (QueuedMessage P)} {deleted : List Nat}
    (h : Runs (claimStale worker minIdleMs count) τ (.ok (messages, deleted))) {m : QueuedMessage P}
    (hm : m ∈ messages) (hover : S.settings.maxDeliveries < m.deliveryCount) :
    (∃ consumer count wanted pending n, ⟨.xpending consumer count wanted, .ok pending⟩ ∈ τ ∧
        (m.messageId, n) ∈ pending ∧ S.settings.maxDeliveries < n) ∨
      ∃ consumer minIdleMs count claimed deleted, ⟨.xautoclaim consumer minIdleMs count, .ok (claimed, deleted)⟩ ∈ τ ∧
        m.messageId ∈ claimed.map (fun c => c.1.id) ∧ S.settings.maxDeliveries = 0 := by
  cases claimCalls_of_runs h with
  | nothing => cases hm
  | @counted claimed deleted hne pending =>
    obtain ⟨x, hx, rfl⟩ := List.mem_map.1 hm
    have hcount : S.settings.maxDeliveries <
        ((pending.filter fun entry => entry.1 ∈ (wantedOf claimed).map Prod.fst).lookup x.1.id).getD 1 := hover
    cases hl : (pending.filter fun entry => entry.1 ∈ (wantedOf claimed).map Prod.fst).lookup x.1.id with
    | some n =>
      rw [hl] at hcount
      have hfound := (List.mem_filter.1 (List.mem_of_lookup_eq_some hl)).1
      exact Or.inl ⟨_, _, _, pending, n, List.mem_cons_of_mem _ (List.mem_singleton_self _), hfound, hcount⟩
    | none =>
      rw [hl] at hcount
      exact Or.inr ⟨_, _, _, claimed, deleted, List.mem_cons_self .., List.mem_map.2 ⟨x, hx, rfl⟩,
        Nat.lt_one_iff.1 hcount⟩

/-- The loop that files a record has claimed the entry, and it was delivered too often: so says the answer to the
lookup, or there may be no delivery at all. -/
theorem exhausted_of_filing {worker : Nat} {loop : Loop} {τ : List (Call Op.Reply)} {r : DlqRecord P}
    {k : (Op.deadLetter r).Reply → Code P (Next P)} (h : After (round S worker loop) τ (.op (.deadLetter r) k)) :
    r.reason = exceededReason S ∧
      ((∃ consumer count wanted pending n, ⟨.xpending consumer count wanted, .ok pending⟩ ∈ τ ∧
          (r.originalId, n) ∈ pending ∧ S.settings.maxDeliveries < n) ∨
        ∃ consumer minIdleMs count claimed deleted, ⟨.xautoclaim consumer minIdleMs count, .ok (claimed, deleted)⟩ ∈ τ ∧
          r.originalId ∈ claimed.map (fun c => c.1.id) ∧ S.settings.maxDeliveries = 0) := by
  obtain ⟨reply, τ', x, hruns⟩ := h.exists_runs nonempty_reply
  have hmem : (⟨.deadLetter r, reply⟩ : Call Op.Reply) ∈ τ ++ ⟨.deadLetter r, reply⟩ :: τ' :=
    List.mem_append_right _ (List.mem_cons_self ..)
  have hnone : ¬∀ c ∈ τ ++ ⟨.deadLetter r, reply⟩ :: τ', c.op.settles = [] := fun hall => by
    cases hall _ hmem
  cases loop with
  | consume =>
    obtain ⟨next, -, hcalls⟩ := consumeCalls_of_runs hruns
    exact absurd (settles_of_consume hcalls) hnone
  | metrics =>
    obtain ⟨next, -, hcalls⟩ := metricsCalls_of_runs hruns
    exact absurd (settles_of_metrics hcalls) hnone
  | reclaim =>
    obtain ⟨next, -, hcalls⟩ := reclaimCalls_of_runs hruns
    generalize hcallsEq : τ ++ ⟨.deadLetter r, reply⟩ :: τ' = calls at hcalls hnone hmem
    have hclaiming : ∀ {claim : List (Call (@Op.Reply P))} {y}, Runs (claimStale worker S.settings.reclaimIdleMs
        S.settings.batchSize) claim y → ⟨.deadLetter r, reply⟩ ∉ reclaiming S worker claim := by
      intro claim y hclaim hin
      cases claimCalls_of_runs hclaim <;> simp [reclaiming] at hin
    cases hcalls with
    | stop | woken => simp at hmem
    | failed hclaim => exact absurd hmem (hclaiming hclaim)
    | givenUp hclaim hacked =>
      rcases List.mem_append.1 (show _ ∈ reclaiming S worker _ ++ _ from hmem) with hin | hin
      · exact absurd hin (hclaiming hclaim)
      · cases op_of_ack hacked _ hin
    | @claimed claim σ₁ ρ messages kept deleted n hclaim hacked hkept =>
      have hfiled : ⟨.deadLetter r, reply⟩ ∈ ρ := by
        rcases List.mem_append.1 (show _ ∈ reclaiming S worker claim ++ (σ₁ ++ ρ) from hmem) with hin | hin
        · exact absurd hin (hclaiming hclaim)
        · exact (List.mem_append.1 hin).resolve_left fun hin => by cases op_of_ack hacked _ hin
      have hpre : reclaiming S worker claim <+: τ :=
        prefix_of_append_cons_eq hcallsEq (hclaiming hclaim)
      obtain ⟨m, hm, hover, hop⟩ := (runs_retryable hkept).2.2 _ hfiled
      obtain rfl := Op.deadLetter.inj hop
      have hsub : claim ⊆ τ := fun c hc => hpre.subset (List.mem_append_right [_, _, _] hc)
      refine ⟨rfl, ?_⟩
      rcases exhausted_of_claimStale hclaim hm hover with ⟨consumer, count, wanted, pending, n, hcall, hn⟩ |
        ⟨consumer, minIdleMs, count, claimed, deleted, hcall, hclaimed⟩
      · exact Or.inl ⟨consumer, count, wanted, pending, n, hsub hcall, hn⟩
      · exact Or.inr ⟨consumer, minIdleMs, count, claimed, deleted, hsub hcall, hclaimed⟩

/-- Every record was filed for its reason. -/
theorem filed_of_call (h : System.Chronicle S s log) : ∀ l₁ ev, l₁ ++ [ev] <+: log → ∀ r, ev.call.op = .deadLetter r →
    Filed S l₁ r := by
  refine h.throughout fun s t log p o reply hlog _ _ hgoes r hop => ?_
  dsimp only at hop
  subst hop
  have hfrom := provenance_of_chronicle hlog
  have hsettles : (Op.deadLetter r : Op P).settles ≠ [] := by simp [Op.settles]
  cases hgoes with
  | client hcode hrequests hworkers => exact absurd (settles_of_serve (hfrom.requests _ _ _ hcode)) hsettles
  | booting hcode hworkers hrequests =>
    obtain ⟨τ, hafter⟩ := hfrom.booting _ _ hcode
    exact absurd (settles_of_ensureGroup hafter) hsettles
  | @running worker lanes loop _ k _ hup hcode hworkers hrequests =>
    have hlane := hfrom.lanes worker lanes loop hup
    rw [hcode] at hlane
    cases hlane with
    | running hafter hτ =>
      obtain ⟨hreason, hover⟩ := exhausted_of_filing hafter
      refine Or.inl ⟨hreason, ?_⟩
      rcases hover with ⟨_, _, _, pending, n, hmem, hfound, hlt⟩ |
        ⟨consumer, minIdleMs, count, claimed, deleted, hmem, hclaimed, hzero⟩
      · obtain ⟨⟨caller, call, before, after⟩, hev, -, rfl⟩ := mem_callsFor.1 (hτ hmem)
        obtain ⟨⟨c, hexec⟩, -⟩ := hlog.made _ hev
        obtain ⟨g, hg, q, hq, hid, htimes⟩ := pending_of_xpending hexec _ hfound
        exact ⟨_, hev, g, hg, q, hq, hid, htimes ▸ hlt⟩
      · -- there may be no delivery at all, and it was delivered once
        obtain ⟨⟨caller, call, before, after⟩, hev, -, rfl⟩ := mem_callsFor.1 (hτ hmem)
        obtain ⟨⟨c, hexec⟩, -⟩ := hlog.made _ hev
        obtain ⟨x, hx, hxid⟩ := List.mem_map.1 hclaimed
        obtain ⟨g, hg, p, hp, hid, hpos⟩ := pending_of_xautoclaim hexec x hx
        exact ⟨_, hev, g, hg, p, hp, hid.trans hxid, by omega⟩
  | @acking worker lanes loop _ k _ hup hcode hworkers hrequests =>
    have hlane := hfrom.lanes worker lanes loop hup
    rw [hcode] at hlane
    cases hlane with
    | acking hround hτ hresults hafter hσ =>
      obtain ⟨reply, τ', x, hruns⟩ := hafter.exists_runs nonempty_reply
      obtain ⟨-, ⟨-, heq⟩ | ⟨-, r', heq⟩⟩ := runs_ackDone hruns
      · simp at heq
      · have hlast := heq ▸ List.mem_append_right _ (List.mem_cons_self ..)
        cases List.mem_singleton.1 hlast
  | @handler worker lanes loop hs i x _ k _ hup hlane hx hcode hworkers hrequests =>
    have hfrom := hfrom.lanes worker lanes loop hup
    rw [hlane] at hfrom
    cases hfrom with
    | handling hround hτ hafter =>
      have hmem : x ∈ hs := List.mem_of_getElem? hx
      obtain ⟨σ, hσ, hafter⟩ := hafter x hmem
      rw [hcode] at hafter
      obtain ⟨hrecord, hcause⟩ := refused_of_deadLetter hafter
      obtain ⟨c, hc, hdelivered⟩ := delivered_of_handed hround (List.mem_map_of_mem hmem)
      obtain ⟨ev, hev, -, rfl⟩ := mem_callsFor.1 (hτ hc)
      exact Or.inr ⟨x.message, σ, ⟨List.mem_flatMap.2 ⟨ev, hev, hdelivered⟩, hrecord, ⟨worker, loop, hσ⟩, k, hafter⟩,
        hcause⟩

/-- A record in the dead-letter stream was there, or is what was to be filed. -/
theorem filed_of_exec {o : Op P} {c : Choice} {r : o.Reply} {w w' : World P}
    (h : World.exec S o c w = some (r, w')) : ∀ q' ∈ w'.dlq, ∀ f ∈ q'.added,
    (∃ q ∈ w.dlq, f ∈ q.added) ∨ o = .deadLetter f.payload := by
  rcases changed_of_exec h with rfl | hchanged
  · exact fun q hq f hf => Or.inl ⟨q, hq, hf⟩
  · cases hchanged with
    | @deadLetter entry k =>
      intro q' hq' f hf
      unfold World.deadLetterExec at hq'
      split at hq'
      · exact Or.inl ⟨q', hq', hf⟩
      · rename_i q hq
        obtain rfl := Option.some.inj hq'
        rw [Stream.added_addCapped] at hf
        rcases List.mem_append.1 hf with hf | hf
        · exact Or.inl ⟨q, hq, hf⟩
        · exact Or.inr (by rw [List.mem_singleton.1 hf])
    | xadd | xgroupCreate | xreadgroup | xautoclaim | xack | xpending | set | fetch | openSession | conflict
    | inserted | commit | close | record => exact fun q hq f hf => Or.inl ⟨q, hq, hf⟩

theorem filed_of_chronicle (h : System.Chronicle S s log) : ∀ q ∈ s.world.dlq, ∀ f ∈ q.added,
    ∃ l₁ ev, l₁ ++ [ev] <+: log ∧ ev.call.op = .deadLetter f.payload := by
  refine h.keeps (I := fun s log => ∀ q ∈ s.world.dlq, ∀ f ∈ q.added,
    ∃ l₁ ev, l₁ ++ [ev] <+: log ∧ ev.call.op = .deadLetter f.payload) ?_ ?_ ?_
  · intro q hq f hf
    rw [← Option.some.inj hq] at hf
    cases hf
  · rintro s t log p o reply - ih - ⟨c, hexec⟩ - q' hq' f hf
    rcases filed_of_exec hexec q' hq' f hf with ⟨q, hq, hold⟩ | hop
    · obtain ⟨l₁, ev, hpre, hop⟩ := ih q hq f hold
      exact ⟨l₁, ev, hpre.trans (List.prefix_append ..), hop⟩
    · exact ⟨log, _, List.prefix_rfl, hop⟩
  · intro s t log ih _ hidle _ q hq f hf
    exact ih q (hidle.dlq ▸ hq) f hf

/-! ## Stored and dead-lettered -/

/-- The two causes for which a processed entry is dead-lettered: the group had delivered it more than
`max_deliveries` times, or the source told the handler of one of its deliveries that it knows no rate for the
currency. -/
def DespiteProcessing (S : Service P) (log : List (Event P)) (r : DlqRecord P) : Prop :=
  (r.reason = exceededReason S ∧ DeliveredTooOften S log r.originalId) ∨
  ∃ event m σ, S.json.modelValidateJson r.payload = .ok event ∧ FiledBy S log r m σ ∧
    ⟨.fetch (PyStr.upper event.currency), .error (.event .unknownCurrencyError r.reason)⟩ ∈ σ

/-- Of the causes to dead-letter an entry that was processed, being unparsable is none. -/
theorem despiteProcessing_of_filed {w : World P} {r : DlqRecord P} (hr : Recorded S w r) (hfiled : Filed S log r)
    (hp : Processed S w r.originalId) : DespiteProcessing S log r := by
  obtain ⟨e, he, heid, event, -, hvalid, -⟩ := hp
  obtain ⟨-, f, hf, hfid, hpayload⟩ := hr
  have hef : e = f := Stream.added_unique he hf (heid.trans hfid.symm)
  rw [hef, hpayload] at hvalid
  rcases hfiled with hexceeded | ⟨m, σ, hby, ⟨e', hinvalid⟩ | ⟨event', hparse, hfetch⟩⟩
  · exact Or.inl hexceeded
  · -- the payload was parsed by the delivery that was processed
    have hsame : m.payload = r.payload := by rw [hby.record]; rfl
    unfold parse at hinvalid
    rw [hsame, hvalid] at hinvalid
    cases hinvalid
  · have hsame : m.payload = r.payload := by rw [hby.record]; rfl
    exact Or.inr ⟨event', m, σ, hsame ▸ parse_ok hparse, hby, hfetch⟩

/-- In every run: where some `process` returned an outcome for an entry, its event's row is committed, and the
entry is in the dead-letter stream only because it was delivered more than `max_deliveries` times, or because the
source reported its currency as unknown to one of its deliveries. -/
theorem stored_and_dead_lettered_only_if (h : System.Chronicle S s log) {id : Nat} (hid : id ∈ s.outcomes) :
    (∃ e ∈ s.world.stream.added, e.id = id ∧ ∃ event, e.payload = S.json.modelDumpJson event ∧
      s.world.table.Has event.id) ∧
    ∀ q ∈ s.world.dlq, ∀ f ∈ q.added, f.payload.originalId = id → DespiteProcessing S log f.payload := by
  have hok := ok_of_reachable h.reachable
  have hprocessed := hok.outcomes id hid
  obtain ⟨e, he, heid, event, hpayload, -, hrow⟩ := hprocessed
  refine ⟨⟨e, he, heid, event, hpayload, hrow⟩, fun q hq f hf hfid => ?_⟩
  obtain ⟨q', hq', hrecorded⟩ := hok.inv.parked
  obtain rfl : q' = q := Option.some.inj (hq'.symm.trans hq)
  obtain ⟨l₁, ev, hpre, hop⟩ := filed_of_chronicle h q' hq f hf
  have hfiled := (filed_of_call h l₁ ev hpre _ hop).mono ((List.prefix_append ..).trans hpre).subset
  exact despiteProcessing_of_filed (hrecorded f hf) hfiled (hfid ▸ hok.outcomes id hid)

/-- An event is stored and its acknowledgement fails; half a minute later the entry is claimed. -/
def unackedTrace : List Action :=
  Trace.publish 0 (Trace.document "a" (.finite false 5 0) "USD") ++ Trace.boot 0 ++
  Trace.calls 0 .consume 2 ++ [.move 0 .consume] ++ Trace.handles 0 .consume 0 6 ++
  [.move 0 .consume, .call 0 .consume Trace.refused, .tick 30000] ++ Trace.calls 0 .reclaim 6

/-- An event is stored at a rate the source told; when its entry is claimed, the cached rate has
expired and the source knows the currency no more. -/
def forgottenRateTrace : List Action :=
  Trace.publish 0 (Trace.document "a" (.finite false 5 0) "EUR") ++ Trace.boot 0 ++
  Trace.calls 0 .consume 2 ++ [.move 0 .consume] ++ Trace.handles 0 .consume 0 1 ++
  [.handle 0 .consume 0 (Trace.answered (.ok (.finite false 10850 (-4))))] ++
  Trace.handles 0 .consume 0 7 ++
  [.move 0 .consume, .call 0 .consume Trace.refused, .expire (cacheKey "EUR".toList), .tick 30000] ++
  Trace.calls 0 .reclaim 5 ++ [.move 0 .reclaim] ++ Trace.handles 0 .reclaim 0 1 ++
  [.handle 0 .reclaim 0 (Trace.answered
    (.error (.event .unknownCurrencyError "no exchange rate for EUR")))] ++
  Trace.handles 0 .reclaim 0 1

/-- `process` returned an outcome for the entry, its row is committed, and the dead-letter stream
holds its payload. -/
def storedAndDeadLettered (s : System EventIn) : Bool :=
  s.outcomes = [1] && s.world.table.rows.map Values.id = ["a".toList] &&
    (s.world.dlq.map fun q => q.entries.map fun f => (f.payload.originalId, f.payload.payload.id)) =
      some [(1, "a".toList)]

/-- A stored event is dead-lettered because it was delivered too often, or because its currency is
no longer known. -/
theorem stored_event_is_dead_lettered :
    (∃ s, System.Reachable (documentService { maxDeliveries := 1 }) s ∧ storedAndDeadLettered s = true) ∧
    ∃ s, System.Reachable (documentService {}) s ∧ storedAndDeadLettered s = true := by
  constructor
  · exact System.exists_reachable (documentService { maxDeliveries := 1 }) unackedTrace _
      (by decide +kernel)
  · exact System.exists_reachable (documentService {}) forgottenRateTrace _ (by decide +kernel)

theorem unackedTrace_is_explained :
    ∃ s log, System.Chronicle (documentService { maxDeliveries := 1 }) s log ∧ s.outcomes = [1] ∧
      (s.world.dlq.map fun q => q.added.map fun f => f.payload.originalId) = some [1] ∧
      ∀ q ∈ s.world.dlq, ∀ f ∈ q.added, f.payload.originalId = 1 →
        DespiteProcessing (documentService { maxDeliveries := 1 }) log f.payload := by
  obtain ⟨s, log, hlog, hp⟩ := System.exists_chronicle_of (documentService { maxDeliveries := 1 }) unackedTrace
    (fun s _ => s.outcomes = [1] &&
      decide ((s.world.dlq.map fun q => q.added.map fun f => f.payload.originalId) = some [1])) (by decide +kernel)
  simp only [Bool.and_eq_true, decide_eq_true_eq] at hp
  refine ⟨s, log, hlog, hp.1, hp.2, (stored_and_dead_lettered_only_if hlog ?_).2⟩
  rw [hp.1]
  decide

end App
