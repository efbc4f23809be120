/-
How often a message can be handed to the processor. The reclaim loop decides by a count that
`XPENDING` reports for as many of the worker's own entries as were claimed, so the count of a
claimed entry can be missing, and a missing count is taken for a first delivery. As long as no
lookup misses a claimed entry that was delivered too often, no message is handed over on a delivery
above `max_deliveries`: the round that claimed it dead-letters it instead, and if that fails, or a call
before it, the round leaves the message pending.
-/
import EventService.Guarantees.DeliveryCounts
import EventService.Run.Reclaiming

namespace App

open Store Prog

variable {P : Type} (S : Service P) {s : System P} {log : List (Event P)}

/-- No lookup left out a claimed entry whose delivery number was above `max_deliveries`. -/
def LookupsCover (w : World P) : Prop :=
  ∀ l ∈ w.lookups, ∀ c ∈ l.1, S.settings.maxDeliveries < c.2 → c.1 ∈ l.2.map Prod.fst

variable {S}

/-- Dead-lettering moves the message, or leaves everything as it was. -/
theorem deadLetter_moves_or_leaves {w w' : World P} {r : DlqRecord P} {c : Choice}
    {reply : Except Foreign Unit} (hi : Inv S w) (h : World.exec S (.deadLetter r) c w = some (reply, w')) :
    ((∃ q ∈ w'.dlq, ∃ f ∈ q.added, f.payload = r) ∧ ¬w'.stream.IsPending r.originalId) ∨ w' = w := by
  obtain ⟨q, hq, -⟩ := hi.parked
  have hmoved : (∃ q ∈ (w.deadLetterExec S c.trim r).2.dlq, ∃ f ∈ q.added, f.payload = r) ∧
      ¬(w.deadLetterExec S c.trim r).2.stream.IsPending r.originalId := by
    unfold World.deadLetterExec
    rw [hq]
    refine ⟨⟨_, rfl, ⟨q.lastId + 1, r⟩, ?_, rfl⟩, ?_⟩
    · rw [Stream.added_addCapped]
      exact List.mem_append_right _ (List.mem_singleton_self _)
    · exact Stream.not_isPending_ack (List.mem_singleton_self _)
  have heq := Option.some.inj h
  unfold Choice.command at heq
  split at heq
  · have hw : (w.deadLetterExec S c.trim r).2 = w' := congrArg Prod.snd heq
    exact Or.inl (hw ▸ hmoved)
  · exact Or.inr (congrArg Prod.snd heq).symm
  · have hw : (w.deadLetterExec S c.trim r).2 = w' := congrArg Prod.snd heq
    exact Or.inl (hw ▸ hmoved)

/-- A message that may be handled was not delivered too often if no lookup missed it. -/
theorem number_le_of_handed {w : World P} {m : QueuedMessage P} (hm : Handed S w m)
    (hpos : 1 ≤ S.settings.maxDeliveries) (hcover : LookupsCover S w) :
    m.number ≤ S.settings.maxDeliveries := by
  rcases hm.2 with hle | ⟨l, hl, hwanted, hmissed⟩
  · rwa [max_eq_right hpos] at hle
  · -- a lookup that missed it would have had to find it
    by_contra hlt
    exact hmissed (hcover l hl _ hwanted (not_le.1 hlt))

/-! ## A reclaim round -/

/-- What a reclaim round that is over has done about an exhausted entry it claimed: it was dead-lettered, which moved
it or changed nothing; or the round did not get that far, because its counts could not be looked up or what was
trimmed away could not be acknowledged. -/
def SetAside (S : Service P) (worker : Nat) (since : List (Event P)) (deleted : List Nat) (x : Entry P × Nat) : Prop :=
  (∃ ev ∈ since, ev.caller = .loop worker .reclaim ∧ ∃ r : DlqRecord P, ev.call.op = .deadLetter r ∧
    r.originalId = x.1.id ∧ r.payload = x.1.payload ∧ r.reason = exceededReason S ∧
    ((∃ q ∈ ev.after.dlq, ∃ f ∈ q.added, f.payload = r) ∧ ¬ev.after.stream.IsPending x.1.id ∨
      ev.after = ev.before)) ∨
  (∃ consumer count wanted e, (x.1.id, x.2) ∈ wanted ∧
    ⟨.xpending consumer count wanted, .error e⟩ ∈ callsBy (.loop worker .reclaim) since) ∨
  ∃ e, ⟨.xack deleted, .error e⟩ ∈ callsBy (.loop worker .reclaim) since

/-- What is claimed is in the stream, and what is reported as deleted is not. -/
theorem claimed_not_deleted {w w' : World P} {consumer minIdleMs count : Nat} {c : Choice}
    {claimed : List (Entry P × Nat)} {deleted : List Nat}
    (h : World.exec S (.xautoclaim consumer minIdleMs count) c w = some (.ok (claimed, deleted), w'))
    {x : Entry P × Nat} (hx : x ∈ claimed) : x.1.id ∉ deleted := by
  obtain ⟨g, -, heq, -⟩ := exec_xautoclaim_ok h
  obtain ⟨rfl, rfl⟩ := Prod.mk.inj heq
  have hspec := w.stream.claim_spec g consumer w.now minIdleMs count
  obtain ⟨p, -, hfind, -⟩ := hspec.taken x hx
  intro hdeleted
  have hnone := (hspec.gone x.1.id hdeleted).1
  rw [(Stream.mem_entries_of_find hfind).2, hfind] at hnone
  cases hnone

section Round

variable {since : List (Event P)} (hmade : ∀ ev ∈ since, ev.Made S ∧ Inv S ev.before)
include hmade

/-- Where the lookups cover what they have to, an entry that was delivered too often has a count that says so. -/
theorem exhausted_of_covered {p : Process} {consumer minIdleMs count consumer' count' : Nat}
    {claimed : List (Entry P × Nat)} {deleted : List Nat} {pending : List (Nat × Nat)}
    {calls calls' : List (Call Op.Reply)}
    (hlog : since.Pairwise fun ev ev' => Le ev.after ev'.before) (hle : ∀ ev ∈ since, Le ev.after s.world)
    (hcover : LookupsCover S s.world) (hcalls : callsBy p since = calls ++
      ⟨.xautoclaim consumer minIdleMs count, .ok (claimed, deleted)⟩ ::
        ⟨.xpending consumer' count' (wantedOf claimed), .ok pending⟩ :: calls')
    {x : Entry P × Nat} (hx : x ∈ claimed) (hover : S.settings.maxDeliveries < x.2) : S.settings.maxDeliveries <
      ((pending.filter fun entry => entry.1 ∈ (wantedOf claimed).map Prod.fst).lookup x.1.id).getD 1 := by
  obtain ⟨⟨caller, call, before, after⟩, hev, ⟨caller', call', before', after'⟩, hev', rfl, rfl, hlater⟩ :=
    exists_le_of_callsBy hlog hcalls
  obtain ⟨⟨c, hexec⟩, hinv⟩ := hmade _ hev
  obtain ⟨⟨c', hexec'⟩, hinv'⟩ := hmade _ hev'
  -- the entries asked for were delivered as often as the claim says, and the answer does not say less
  obtain ⟨-, -, hclaimed, -⟩ := exec_spec hinv (by trivial) hexec
  have hcounted : Pre S (.xpending consumer' count' (wantedOf claimed)) before' := by
    intro w hw
    obtain ⟨y, hy, rfl⟩ := List.mem_map.1 hw
    exact Counted.mono hlater (hclaimed y hy).2
  obtain ⟨-, -, hlookup, hcount⟩ := exec_spec hinv' hcounted hexec'
  have hwanted : (x.1.id, x.2) ∈ wantedOf claimed := List.mem_map_of_mem hx
  have hfound := hcover _ ((hle _ hev').lookups.subset hlookup) _ hwanted hover
  have hid : x.1.id ∈ (wantedOf claimed).map Prod.fst := List.mem_map.2 ⟨_, hwanted, rfl⟩
  rw [lookup_filter hid]
  cases hl : pending.lookup x.1.id with
  | none =>
    obtain ⟨a, ha, heq⟩ := List.mem_map.1 hfound
    have hne := List.lookup_eq_none_iff.1 hl a ha
    simp [heq] at hne
  | some n => exact hover.trans_le (hcount _ hwanted _ (List.mem_of_lookup_eq_some hl) rfl)

end Round

/-- A claim of something that succeeds is two calls, and says what they were answered with. -/
theorem counted_of_claimStale {worker consumer minIdleMs count minIdleMs' count' : Nat} {τ : List (Call (@Op.Reply P))}
    {messages : List (QueuedMessage P)} {claimed : List (Entry P × Nat)} {deleted deleted' : List Nat}
    (h : Runs (claimStale worker minIdleMs' count') τ (.ok (messages, deleted'))) (hne : claimed ≠ [])
    (hmem : ⟨.xautoclaim consumer minIdleMs count, .ok (claimed, deleted)⟩ ∈ τ) :
    ∃ pending, τ = [⟨.xautoclaim consumer minIdleMs count, .ok (claimed, deleted)⟩,
        ⟨.xpending worker (max (wantedOf claimed).length 1) (wantedOf claimed), .ok pending⟩] ∧
      messages = claimed.map (claimedMessage
        (pending.filter fun entry => entry.1 ∈ (wantedOf claimed).map Prod.fst)) ∧ deleted' = deleted := by
  cases claimCalls_of_runs h with
  | nothing =>
    cases List.mem_singleton.1 hmem
    exact absurd rfl hne
  | counted hne' pending =>
    rcases List.mem_cons.1 hmem with heq | hmem
    · cases heq
      exact ⟨pending, rfl, rfl, rfl⟩
    · cases List.mem_singleton.1 hmem

/-- What a reclaim round did that claimed something. -/
theorem claiming_of_reclaimCalls {worker consumer minIdleMs count : Nat} {τ : List (Call (@Op.Reply P))} {next : Next P}
    {claimed : List (Entry P × Nat)} {deleted : List Nat} (h : ReclaimCalls S worker τ next) (hne : claimed ≠ [])
    (hmem : ⟨.xautoclaim consumer minIdleMs count, .ok (claimed, deleted)⟩ ∈ τ) :
    ∃ reply ρ, τ = reclaiming S worker (⟨.xautoclaim consumer minIdleMs count, .ok (claimed, deleted)⟩ ::
        ⟨.xpending worker (max (wantedOf claimed).length 1) (wantedOf claimed), reply⟩ :: ρ) ∧
      ((∃ e, reply = .error e ∧ ρ = [] ∧ next = .again) ∨
        (∃ e, Runs (ack deleted) ρ (.error e) ∧ next = .again) ∨
        ∃ pending σ τ' n kept, reply = .ok pending ∧ ρ = σ ++ τ' ∧ Runs (ack deleted) σ (.ok n) ∧
          Runs (retryable S (claimed.map (claimedMessage
            (pending.filter fun entry => entry.1 ∈ (wantedOf claimed).map Prod.fst)))) τ' (.ok kept) ∧
          next = if kept = [] then .again else .handle kept) := by
  have hwaiting : ∀ {calls : List (Call (@Op.Reply P))},
      ⟨.xautoclaim consumer minIdleMs count, .ok (claimed, deleted)⟩ ∈ reclaiming S worker calls →
      ⟨.xautoclaim consumer minIdleMs count, .ok (claimed, deleted)⟩ ∈ calls := by
    intro calls hin
    simpa [reclaiming] using hin
  cases h with
  | stop | woken => simp at hmem
  | failed h =>
    cases claimCalls_of_runs h with
    | refused e => cases List.mem_singleton.1 (hwaiting hmem)
    | uncounted hne' e =>
      rcases List.mem_cons.1 (hwaiting hmem) with heq | hin
      · cases heq
        exact ⟨.error e, [], rfl, Or.inl ⟨e, rfl, rfl, rfl⟩⟩
      · cases List.mem_singleton.1 hin
  | givenUp h hacked =>
    have hin := (List.mem_append.1 (hwaiting hmem)).resolve_right fun hin => by cases op_of_ack hacked _ hin
    obtain ⟨pending, rfl, rfl, rfl⟩ := counted_of_claimStale h hne hin
    exact ⟨.ok pending, _, rfl, Or.inr (Or.inl ⟨_, hacked, rfl⟩)⟩
  | @claimed τ₁ σ τ' messages kept deleted' n h hacked hkept =>
    have hin : ⟨.xautoclaim consumer minIdleMs count, .ok (claimed, deleted)⟩ ∈ τ₁ := by
      rcases List.mem_append.1 (hwaiting hmem) with hin | hin
      · exact hin
      rcases List.mem_append.1 hin with hin | hin
      · cases op_of_ack hacked _ hin
      · obtain ⟨m, -, -, hop⟩ := (runs_retryable hkept).2.2 _ hin
        cases hop
    obtain ⟨pending, rfl, rfl, rfl⟩ := counted_of_claimStale h hne hin
    exact ⟨.ok pending, _, rfl, Or.inr (Or.inr ⟨pending, σ, τ', n, kept, rfl, rfl, hacked, hkept, rfl⟩)⟩

/-- No message that is kept has the id of an exhausted one, as the count depends on the id only. -/
theorem exhausted_not_kept {claimed : List (Entry P × Nat)} {counts : List (Nat × Nat)} {x : Entry P × Nat}
    (h : S.settings.maxDeliveries < (counts.lookup x.1.id).getD 1) : x.1.id ∉
      ((claimed.map (claimedMessage counts)).filter fun m => m.deliveryCount ≤ S.settings.maxDeliveries).map
        QueuedMessage.messageId := by
  intro hid
  obtain ⟨m, hm, hmid⟩ := List.mem_map.1 hid
  obtain ⟨hmem, hle⟩ := List.mem_filter.1 hm
  obtain ⟨y, -, rfl⟩ := List.mem_map.1 hmem
  have hcount : (claimedMessage counts y).deliveryCount ≤ S.settings.maxDeliveries := of_decide_eq_true hle
  rw [← hmid] at h
  exact absurd hcount (not_le.2 h)

/-- Within a round that claimed something only what was reported as deleted is acknowledged. -/
theorem acked_of_reclaimCalls {worker consumer minIdleMs count : Nat} {τ : List (Call (@Op.Reply P))} {next : Next P}
    {claimed : List (Entry P × Nat)} {deleted : List Nat} (h : ReclaimCalls S worker τ next) (hne : claimed ≠ [])
    (hmem : ⟨.xautoclaim consumer minIdleMs count, .ok (claimed, deleted)⟩ ∈ τ) {ids : List Nat}
    {r : Except Foreign Nat} (hin : ⟨.xack ids, r⟩ ∈ τ) : ids = deleted := by
  obtain ⟨reply, ρ, rfl, hend⟩ := claiming_of_reclaimCalls h hne hmem
  have hin : ⟨.xack ids, r⟩ ∈ ρ := by simpa [reclaiming] using hin
  rcases hend with ⟨e, -, rfl, -⟩ | ⟨e, hacked, -⟩ | ⟨pending, σ, τ', n, kept, -, rfl, hacked, hkept, -⟩
  · cases hin
  · exact Op.xack.inj (op_of_ack hacked _ hin)
  · rcases List.mem_append.1 hin with hin | hin
    · exact Op.xack.inj (op_of_ack hacked _ hin)
    · obtain ⟨m, -, -, hop⟩ := (runs_retryable hkept).2.2 _ hin
      cases hop

section Round

variable {since : List (Event P)} (hmade : ∀ ev ∈ since, ev.Made S ∧ Inv S ev.before)
  (hlog : since.Pairwise fun ev ev' => Le ev.after ev'.before) (hle : ∀ ev ∈ since, Le ev.after s.world)
  (hcover : LookupsCover S s.world) {worker consumer minIdleMs count : Nat} {τ σ : List (Call (@Op.Reply P))}
  {next : Next P} (hcalls : callsBy (.loop worker .reclaim) since = τ ++ σ) (hround : ReclaimCalls S worker τ next)
  {claimed : List (Entry P × Nat)} {deleted : List Nat}
  (hclaim : ⟨.xautoclaim consumer minIdleMs count, .ok (claimed, deleted)⟩ ∈ τ)
  {x : Entry P × Nat} (hx : x ∈ claimed) (hmany : S.settings.maxDeliveries < x.2)
include hmade hlog hle hcover hcalls hround hclaim hx hmany

/-- What a round hands over is not exhausted. -/
theorem not_handed_of_round {messages : List (QueuedMessage P)} (hnext : next = .handle messages) :
    x.1.id ∉ messages.map QueuedMessage.messageId := by
  obtain ⟨reply, ρ, rfl, hend⟩ := claiming_of_reclaimCalls hround (List.ne_nil_of_mem hx) hclaim
  rcases hend with ⟨e, -, -, heq⟩ | ⟨e, -, heq⟩ | ⟨pending, σ₁, τ', n, kept, rfl, rfl, -, hkept, heq⟩
  · cases heq.symm.trans hnext
  · cases heq.symm.trans hnext
  have hover := exhausted_of_covered hmade hlog hle hcover
    (hcalls.trans (List.append_assoc (reclaiming S worker []) _ _)) hx hmany
  obtain ⟨hfilter, -⟩ := runs_retryable hkept
  have hmessages : kept = messages := by
    split at heq
    · cases heq.symm.trans hnext
    · exact Next.handle.inj (heq.symm.trans hnext)
  rw [← hmessages, Except.ok.inj hfilter]
  exact exhausted_not_kept hover

/-- A round sets aside what it claimed of exhausted entries. -/
theorem setAside_of_round : SetAside S worker since deleted x := by
  obtain ⟨reply, ρ, rfl, hend⟩ := claiming_of_reclaimCalls hround (List.ne_nil_of_mem hx) hclaim
  rcases hend with ⟨e, rfl, -, -⟩ | ⟨e, hacked, -⟩ | ⟨pending, σ₁, τ', n, kept, rfl, rfl, -, hkept, -⟩
  · refine Or.inr (Or.inl ⟨worker, max (wantedOf claimed).length 1, wantedOf claimed, e, List.mem_map_of_mem hx, ?_⟩)
    rw [hcalls]
    exact List.mem_append_left _ (List.mem_append_right [_, _, _] (List.mem_cons_of_mem _ (List.mem_cons_self ..)))
  · obtain ⟨e', rfl⟩ := failed_of_ack hacked
    refine Or.inr (Or.inr ⟨e', ?_⟩)
    rw [hcalls]
    simp [reclaiming]
  · have hover := exhausted_of_covered hmade hlog hle hcover
      (hcalls.trans (List.append_assoc (reclaiming S worker []) _ _)) hx hmany
    obtain ⟨-, hdead, -⟩ := runs_retryable hkept
    obtain ⟨r, hr⟩ := hdead _ (List.mem_map_of_mem hx) hover
    have hin : ⟨.deadLetter _, r⟩ ∈ callsBy (.loop worker .reclaim) since := by
      rw [hcalls]
      exact List.mem_append_left _ (by simp [reclaiming, hr])
    obtain ⟨⟨caller, call, before, after⟩, hev, hcaller, rfl⟩ := mem_callsBy.1 hin
    obtain ⟨⟨c, hexec⟩, hinv⟩ := hmade _ hev
    exact Or.inl ⟨_, hev, hcaller, _, rfl, rfl, rfl, rfl, deadLetter_moves_or_leaves hinv hexec⟩

end Round

/-- The poison bound: in every run in which no lookup misses an exhausted entry, no handler works on a delivery
above `max_deliveries`; and whatever a reclaim loop has claimed since its round began, it has acknowledged none of
the entries that came on such a delivery, and has set them all aside when the round is over: they were
dead-lettered, and otherwise left pending. -/
theorem handed_over_at_most_max_deliveries (h : System.Chronicle S s log) (hpos : 1 ≤ S.settings.maxDeliveries)
    (hcover : LookupsCover S s.world) :
    (∀ worker loop, ∀ x ∈ s.handlers worker loop, x.message.number ≤ S.settings.maxDeliveries) ∧
    ∀ worker lanes, s.workers worker = .up lanes → ∃ before since, log = before ++ since ∧
      (lanes .reclaim).Since S worker .reclaim since ∧ ∀ consumer minIdleMs count claimed deleted,
        ⟨.xautoclaim consumer minIdleMs count, .ok (claimed, deleted)⟩ ∈ callsBy (.loop worker .reclaim) since →
          ∀ x ∈ claimed, S.settings.maxDeliveries < x.2 →
            (∀ ids r, ⟨.xack ids, r⟩ ∈ callsBy (.loop worker .reclaim) since → x.1.id ∉ ids) ∧
            ((lanes .reclaim).RoundOver → SetAside S worker since deleted x) := by
  refine ⟨fun worker loop x hx => number_le_of_handed ((ok_of_reachable h.reachable).handlers x hx).1 hpos hcover, ?_⟩
  intro worker lanes hup
  obtain ⟨before, since, rfl, hsince⟩ := since_of_chronicle h worker lanes .reclaim hup
  refine ⟨before, since, rfl, hsince, fun consumer minIdleMs count claimed deleted hclaim x hx hmany => ?_⟩
  have hsub : since ⊆ before ++ since := List.subset_append_right ..
  have hmade : ∀ ev ∈ since, ev.Made S ∧ Inv S ev.before := fun ev hev => h.made ev (hsub hev)
  have hlog := (List.pairwise_append.1 h.pairwise_le).2.1
  have hle : ∀ ev ∈ since, Le ev.after s.world := fun ev hev => h.le ev (hsub hev)
  have hdisjoint : x.1.id ∉ deleted := by
    obtain ⟨⟨caller, call, world, after⟩, hev, -, rfl⟩ := mem_callsBy.1 hclaim
    obtain ⟨c, hexec⟩ := (hmade _ hev).1
    exact claimed_not_deleted hexec hx
  obtain ⟨τ, σ, ρ, y, hcalls, hruns, hover, hacks⟩ := hsince.calls
  obtain ⟨next, rfl, hround⟩ := reclaimCalls_of_runs hruns
  have hclaimed : ⟨.xautoclaim consumer minIdleMs count, .ok (claimed, deleted)⟩ ∈ τ := by
    refine (List.mem_append.1 (hcalls ▸ hclaim)).resolve_right fun hin => ?_
    obtain ⟨-, messages, ids, -, -, hop⟩ := hacks _ hin
    cases hop
  refine ⟨fun ids r hin => ?_, fun hdone => ?_⟩
  · rcases List.mem_append.1 (hcalls ▸ hin) with hin | hin
    · -- an acknowledgement of the round itself is one of what was trimmed away
      rw [acked_of_reclaimCalls hround (List.ne_nil_of_mem hx) (List.mem_append_left _ hclaimed)
        (List.mem_append_left _ hin)]
      exact hdisjoint
    · obtain ⟨rfl, messages, ids', hnext, hids, hop⟩ := hacks _ hin
      rw [List.append_nil] at hround
      rw [Op.xack.inj hop]
      exact fun hid => not_handed_of_round hmade hlog hle hcover hcalls hround hclaimed hx hmany
        (Except.ok.inj hnext) (hids hid)
  · rw [hover hdone, List.append_nil] at hround
    exact setAside_of_round hmade hlog hle hcover hcalls hround hclaimed hx hmany

/-- Two entries are read, one at a time, and the replies are lost. Half a minute later the first is
claimed and the lookup of its count fails; at the next round the second is claimed, and the lookup,
which asks for one entry only, answers with the first. -/
def uncountedTrace : List Action :=
  Trace.publish 0 (Trace.document "a" (.finite false 5 0) "USD") ++
  Trace.publish 1 (Trace.document "b" (.finite false 7 0) "USD") ++ Trace.boot 0 ++
  [.call 0 .consume {}, .call 0 .consume Trace.lost, .call 0 .consume {}, .move 0 .consume,
   .call 0 .consume {}, .call 0 .consume Trace.lost, .call 0 .consume {}, .move 0 .consume, .tick 30000] ++
  Trace.calls 0 .reclaim 4 ++ [.call 0 .reclaim Trace.refused, .move 0 .reclaim, .tick 5000] ++
  Trace.calls 0 .reclaim 5 ++ [.move 0 .reclaim, .handle 0 .reclaim 0 {}]

/-- With `max_deliveries` 1 the second delivery of an entry is handed to the processor. -/
theorem second_delivery_is_handed_over :
    ∃ s, System.Reachable (documentService { batchSize := 1, maxDeliveries := 1 }) s ∧
      (s.handlers 0 .reclaim).map (fun x => (x.message.messageId, x.message.number, x.started)) =
        [(2, 2, true)] := by
  obtain ⟨s, hs, hp⟩ := System.exists_reachable (documentService { batchSize := 1, maxDeliveries := 1 })
    uncountedTrace (fun s =>
      (s.handlers 0 .reclaim).map (fun x => (x.message.messageId, x.message.number, x.started)) =
        [(2, 2, true)]) (by decide +kernel)
  exact ⟨s, hs, of_decide_eq_true hp⟩

/-- With `max_deliveries` 1: an entry is read and the reply is lost; half a minute later it is claimed, and the
round dead-letters it. -/
def countedTrace : List Action :=
  Trace.publish 0 (Trace.document "a" (.finite false 5 0) "USD") ++ Trace.boot 0 ++
  [.call 0 .consume {}, .call 0 .consume Trace.lost, .call 0 .consume {}, .move 0 .consume, .tick 30000] ++
  Trace.calls 0 .reclaim 6

/-- The claimed entries of a call, with the delivery numbers. -/
def claimedIn : Call (@Op.Reply EventIn) → List (Nat × Nat)
  | ⟨.xautoclaim _ _ _, .ok (claimed, _)⟩ => wantedOf claimed
  | _ => []

/-- The first calls of a round: it is not told to stop, or it is; it sleeps; and what comes then. -/
def beginning : Call (@Op.Reply EventIn) → Nat
  | ⟨.stopIsSet _, false⟩ => 0
  | ⟨.stopIsSet _, true⟩ => 1
  | ⟨.sleep _, _⟩ => 2
  | _ => 3

/-- The loop has made a single round, which is over, and has claimed the entry on its second delivery; the
dead-letter stream holds it. -/
def roundMade (s : System EventIn) (log : List (Event EventIn)) : Bool :=
  (match s.workers 0 with
    | .up lanes => match lanes .reclaim with
      | .running (.ret _) => true
      | _ => false
    | _ => false) &&
  (callsBy (.loop 0 .reclaim) log).map beginning = [0, 2, 0, 3, 3, 3] &&
  (callsBy (.loop 0 .reclaim) log).flatMap claimedIn = [(1, 2)] &&
  decide (∀ l ∈ s.world.lookups, ∀ c ∈ l.1, 1 < c.2 → c.1 ∈ l.2.map Prod.fst) &&
  decide (∃ q ∈ s.world.dlq, ∃ f ∈ q.entries, f.payload.originalId = 1)

/-- Where nobody was told to stop, and only one round slept, there is nothing in front of a round. -/
theorem eq_nil_of_beginning {before round : List Nat} (after : List Nat)
    (h : before ++ (round ++ after) = [0, 2, 0, 3, 3, 3]) (hround : 1 ∈ round ∨ ∃ rest, round = 0 :: 2 :: rest) :
    before = [] := by
  rcases hround with hone | ⟨rest, rfl⟩
  · have hmem : 1 ∈ [0, 2, 0, 3, 3, 3] := h ▸ List.mem_append_right _ (List.mem_append_left _ hone)
    exact absurd hmem (by decide)
  · have hlen := congrArg List.length h
    simp only [List.length_append, List.length_cons, List.length_nil] at hlen
    rcases before with _ | ⟨a, _ | ⟨b, _ | ⟨c, _ | ⟨d, _ | ⟨e, before⟩⟩⟩⟩⟩
    · rfl
    · simp at h
    · simp at h
    · simp at h
    · simp at h
    · simp only [List.length_cons] at hlen
      omega

theorem second_delivery_is_dead_lettered : ∃ s log before since deleted x,
    System.Chronicle (documentService { maxDeliveries := 1 }) s log ∧ log = before ++ since ∧ x.1.id = 1 ∧ x.2 = 2 ∧
      SetAside (documentService { maxDeliveries := 1 }) 0 since deleted x ∧
      ∃ q ∈ s.world.dlq, ∃ f ∈ q.entries, f.payload.originalId = 1 := by
  obtain ⟨s, log, hlog, hp⟩ := System.exists_chronicle_of (documentService { maxDeliveries := 1 }) countedTrace
    roundMade (by decide +kernel)
  unfold roundMade at hp
  simp only [Bool.and_eq_true, decide_eq_true_eq] at hp
  obtain ⟨⟨⟨⟨hover, hmade⟩, hclaimed⟩, hcover⟩, hparked⟩ := hp
  split at hover
  swap
  · cases hover
  rename_i lanes hup
  split at hover
  swap
  · cases hover
  rename_i next hlane
  have hover : (lanes .reclaim).RoundOver := hlane ▸ trivial
  obtain ⟨before, since, rfl, hsince, haside⟩ :=
    (handed_over_at_most_max_deliveries hlog (by decide) hcover).2 0 lanes hup
  obtain ⟨τ, σ, ρ, y, hcalls, hruns, hwhole, -⟩ := hsince.calls
  rw [hwhole hover, List.append_nil] at hruns
  -- the round that is over is the only one
  have hfirst : callsBy (.loop 0 .reclaim) before = [] := by
    rw [callsBy_append, hcalls, List.map_append, List.map_append] at hmade
    obtain ⟨next'', -, hreclaim⟩ := reclaimCalls_of_runs hruns
    refine List.map_eq_nil_iff.1 (eq_nil_of_beginning (σ.map beginning) hmade ?_)
    cases hreclaim with
    | stop => exact Or.inl (by simp [beginning])
    | woken => exact Or.inl (by simp [beginning])
    | failed | givenUp | claimed => exact Or.inr ⟨_, rfl⟩
  rw [callsBy_append, hfirst, List.nil_append] at hclaimed
  have hmem : (1, 2) ∈ (callsBy (.loop 0 .reclaim) since).flatMap claimedIn := hclaimed ▸ List.mem_singleton_self _
  obtain ⟨c, hc, hin⟩ := List.mem_flatMap.1 hmem
  unfold claimedIn at hin
  split at hin
  · obtain ⟨x, hx, heq⟩ := List.mem_map.1 hin
    obtain ⟨hid, hnumber⟩ := Prod.mk.inj heq
    exact ⟨s, _, before, since, _, x, hlog, rfl, hid, hnumber, (haside _ _ _ _ _ hc x hx (hnumber ▸ by decide)).2 hover,
      hparked⟩
  · cases hin

end App
