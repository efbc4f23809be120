/-
What the rounds of a worker's loops do, call by call: what `read` and `claim_stale` obtain, and what
becomes of it before the round is over. No round ends with an exception, whatever its calls are answered.
-/
import EventService.Model.System
import EventService.Run.Attempts

namespace App

open Prog Store

variable {P : Type}

/-! ## Reading and acknowledging -/

/-- A message as `read` reports it. -/
def readMessage (e : Entry P) : QueuedMessage P where
  messageId := e.id
  payload := e.payload
  number := 1

theorem runs_read {consumer count : Nat} {τ : List (Call Op.Reply)} {x : Except Exn (List (QueuedMessage P))}
    (h : Runs (read consumer count) τ x) :
    ∃ r, τ = [⟨.xreadgroup consumer count, r⟩] ∧ x = (raised r).map (List.map readMessage) := by
  unfold read at h
  rcases runs_bind_iff.1 h with ⟨e, hread, rfl⟩ | ⟨entries, τ₁, τ₂, rfl, hread, hret⟩
  · obtain ⟨r, rfl, hr⟩ := runs_ask_lift_iff.1 hread
    exact ⟨r, rfl, by rw [← hr]; rfl⟩
  · obtain ⟨rfl, rfl⟩ := runs_ret_iff.1 hret
    obtain ⟨r, rfl, hr⟩ := runs_ask_lift_iff.1 hread
    exact ⟨r, List.append_nil _, by rw [← hr]; rfl⟩

/-- Acknowledging no ids is no call. -/
theorem runs_ack {ids : List Nat} {τ : List (Call (@Op.Reply P))} {x : Except Exn Nat} (h : Runs (ack ids) τ x) :
    (ids = [] ∧ τ = [] ∧ x = .ok 0) ∨ (ids ≠ [] ∧ ∃ r, τ = [⟨.xack ids, r⟩] ∧ x = raised r) := by
  unfold ack at h
  split at h
  · rename_i hnil
    obtain ⟨rfl, rfl⟩ := runs_ret_iff.1 h
    exact Or.inl ⟨hnil, rfl, rfl⟩
  · rename_i hne
    obtain ⟨r, rfl, rfl⟩ := runs_ask_lift_iff.1 h
    exact Or.inr ⟨hne, r, rfl, rfl⟩

/-- So any call it makes acknowledges them. -/
theorem op_of_ack {ids : List Nat} {τ : List (Call (@Op.Reply P))} {x : Except Exn Nat} (h : Runs (ack ids) τ x) :
    ∀ c ∈ τ, c.op = .xack ids := by
  intro c hc
  rcases runs_ack h with ⟨-, rfl, -⟩ | ⟨-, r, rfl, -⟩
  · cases hc
  · rw [List.mem_singleton.1 hc]

/-- It raises what its call raised. -/
theorem failed_of_ack {ids : List Nat} {τ : List (Call (@Op.Reply P))} {e : Exn} (h : Runs (ack ids) τ (.error e)) :
    ∃ e', τ = [⟨.xack ids, .error e'⟩] := by
  rcases runs_ack h with ⟨-, -, heq⟩ | ⟨-, r, rfl, heq⟩
  · cases heq
  · cases r with
    | ok n => cases heq
    | error e' => exact ⟨e', rfl⟩

/-- `_handle_batch` ends with one acknowledgement of what the handlers returned, or with none. -/
theorem runs_ackDone {results : List (Option Nat)} {τ : List (Call (@Op.Reply P))} {x : Except Exn Unit}
    (h : Runs (ackDone results) τ x) :
    x = .ok () ∧ ((results.filterMap id = [] ∧ τ = []) ∨
      (results.filterMap id ≠ [] ∧ ∃ r, τ = [⟨.xack (results.filterMap id), r⟩])) := by
  unfold ackDone at h
  dsimp only at h
  split at h
  · rename_i hnil
    obtain ⟨rfl, rfl⟩ := runs_ret_iff.1 h
    exact ⟨rfl, Or.inl ⟨hnil, rfl⟩⟩
  · rename_i hne
    obtain ⟨y, τ₁, τ₂, rfl, hack, hret⟩ := runs_attempt_bind_iff.1 h
    obtain ⟨rfl, rfl⟩ := runs_ret_iff.1 hret
    rcases runs_ack hack with ⟨hnil, -⟩ | ⟨-, r, rfl, -⟩
    · exact absurd hnil hne
    · exact ⟨rfl, Or.inr ⟨hne, r, List.append_nil _⟩⟩

/-! ## Handlers -/

/-- No handler ends with an exception. -/
theorem handleOne_returns {S : Service P} {m : QueuedMessage P} {calls : List (Call Op.Reply)} {x : Except Exn (Option Nat)}
    (h : Runs (handleOne S m) calls x) : ∃ r, x = .ok r := by
  rcases handled_cases h with ⟨-, -, heq, -⟩ | ⟨e, τ, r, -, -, heq, -⟩ | ⟨-, -, heq, -⟩
  · exact ⟨_, heq⟩
  · exact ⟨_, heq⟩
  · exact ⟨_, heq⟩

/-- What a handler returned it ended with. -/
theorem runs_of_result {S : Service P} {m : QueuedMessage P} {h : Handler P} {calls : List (Call Op.Reply)}
    {r : Option Nat} (hcode : After (handleOne S m) calls h.code) (hr : h.result = some r) :
    Runs (handleOne S m) calls (.ok r) := by
  unfold Handler.result at hr
  split at hr
  · rename_i r' hret
    rw [hret] at hcode
    rw [← Option.some.inj hr]
    simpa using hcode.runs (.ret r')
  · cases hr
  · cases hr

/-! ## Claiming -/

/-- What stands at the beginning and is not that thing stands in front of it. -/
theorem prefix_of_append_cons_eq {α : Type} {l m l' m' : List α} {a : α} (h : l ++ a :: m = l' ++ m') (ha : a ∉ l') :
    l' <+: l := by
  rcases List.append_eq_append_iff.1 h with ⟨n, rfl, hn⟩ | ⟨n, rfl, -⟩
  · cases n with
    | nil => exact ⟨[], by rw [List.append_nil, List.append_nil]⟩
    | cons c n =>
      rw [(List.cons.inj hn).1] at ha
      exact absurd (List.mem_append_right _ (List.mem_cons_self ..)) ha
  · exact ⟨n, rfl⟩

/-- A message as `claim_stale` reports it, given the counts that were looked up. -/
def claimedMessage (counts : List (Nat × Nat)) (c : Entry P × Nat) : QueuedMessage P where
  messageId := c.1.id
  payload := c.1.payload
  deliveryCount := (counts.lookup c.1.id).getD 1
  number := c.2

/-- The entries whose counts are looked up. -/
def wantedOf (claimed : List (Entry P × Nat)) : List (Nat × Nat) := claimed.map fun c => (c.1.id, c.2)

/-- Looking up the counts of some entries is one call. -/
theorem runs_deliveryCounts {consumer : Nat} {wanted : List (Nat × Nat)} {τ : List (Call (@Op.Reply P))}
    {x : Except Exn (List (Nat × Nat))} (hne : wanted ≠ []) (h : Runs (deliveryCounts consumer wanted) τ x) :
    ∃ r, τ = [⟨.xpending consumer (max wanted.length 1) wanted, r⟩] ∧
      x = (raised r).map (List.filter fun entry => entry.1 ∈ wanted.map Prod.fst) := by
  unfold deliveryCounts at h
  rw [if_neg hne] at h
  rcases runs_bind_iff.1 h with ⟨e, hcall, rfl⟩ | ⟨pending, τ₁, τ₂, rfl, hcall, hret⟩
  · obtain ⟨r, rfl, hr⟩ := runs_ask_lift_iff.1 hcall
    exact ⟨r, rfl, by rw [← hr]; rfl⟩
  · obtain ⟨rfl, rfl⟩ := runs_ret_iff.1 hret
    obtain ⟨r, rfl, hr⟩ := runs_ask_lift_iff.1 hcall
    exact ⟨r, List.append_nil _, by rw [← hr]; rfl⟩

/-- What `claim_stale` does: first it claims, and if that is anything, it looks up the counts. -/
inductive ClaimCalls (consumer minIdleMs count : Nat) :
    List (Call (@Op.Reply P)) → Except Exn (List (QueuedMessage P) × List Nat) → Prop
  | refused (e : Foreign) : ClaimCalls consumer minIdleMs count
    [⟨.xautoclaim consumer minIdleMs count, .error e⟩] (.error (.foreign e))
  | nothing (deleted : List Nat) : ClaimCalls consumer minIdleMs count
    [⟨.xautoclaim consumer minIdleMs count, .ok ([], deleted)⟩] (.ok ([], deleted))
  | uncounted {claimed : List (Entry P × Nat)} {deleted : List Nat} (h : claimed ≠ []) (e : Foreign) :
    ClaimCalls consumer minIdleMs count
      [⟨.xautoclaim consumer minIdleMs count, .ok (claimed, deleted)⟩,
        ⟨.xpending consumer (max (wantedOf claimed).length 1) (wantedOf claimed), .error e⟩]
      (.error (.foreign e))
  | counted {claimed : List (Entry P × Nat)} {deleted : List Nat} (h : claimed ≠ []) (pending : List (Nat × Nat)) :
    ClaimCalls consumer minIdleMs count
      [⟨.xautoclaim consumer minIdleMs count, .ok (claimed, deleted)⟩,
        ⟨.xpending consumer (max (wantedOf claimed).length 1) (wantedOf claimed), .ok pending⟩]
      (.ok (claimed.map (claimedMessage (pending.filter fun entry => entry.1 ∈ (wantedOf claimed).map Prod.fst)),
        deleted))

theorem claimCalls_of_runs {consumer minIdleMs count : Nat} {τ : List (Call Op.Reply)}
    {x : Except Exn (List (QueuedMessage P) × List Nat)} (h : Runs (claimStale consumer minIdleMs count) τ x) :
    ClaimCalls consumer minIdleMs count τ x := by
  unfold claimStale autoclaim at h
  rcases runs_bind_iff.1 h with ⟨e, hclaim, rfl⟩ | ⟨⟨claimed, deleted⟩, τ₁, τ₂, rfl, hclaim, hrest⟩
  · obtain ⟨r, rfl, hr⟩ := runs_ask_lift_iff.1 hclaim
    cases r with
    | ok a => cases hr
    | error e' =>
      rw [Except.error.inj hr]
      exact .refused e'
  · obtain ⟨r, rfl, hr⟩ := runs_ask_lift_iff.1 hclaim
    obtain rfl := raised_ok_iff.1 hr.symm
    by_cases hnone : claimed = []
    · -- nothing was claimed, so nothing is looked up
      subst hnone
      obtain ⟨rfl, rfl⟩ := runs_ret_iff.1 hrest
      exact .nothing deleted
    · simp only [hnone, if_false] at hrest
      have hwanted : wantedOf claimed ≠ [] := by simpa [wantedOf] using hnone
      rcases runs_bind_iff.1 hrest with ⟨e, hcounts, rfl⟩ | ⟨counts, τ₃, τ₄, rfl, hcounts, hret⟩
      · obtain ⟨r, rfl, hr⟩ := runs_deliveryCounts hwanted hcounts
        cases r with
        | ok a => cases hr
        | error e' =>
          rw [Except.error.inj hr]
          exact .uncounted hnone e'
      · obtain ⟨rfl, rfl⟩ := runs_ret_iff.1 hret
        obtain ⟨r, rfl, hr⟩ := runs_deliveryCounts hwanted hcounts
        cases r with
        | ok pending =>
          rw [Except.ok.inj hr]
          exact .counted hnone pending
        | error e => cases hr

/-- `claim_stale` that returns has claimed what it returns. -/
theorem runs_claimStale_ok {consumer minIdleMs count : Nat} {τ : List (Call Op.Reply)}
    {messages : List (QueuedMessage P)} {deleted : List Nat}
    (h : Runs (claimStale consumer minIdleMs count) τ (.ok (messages, deleted))) :
    ∃ claimed counts τ', τ = ⟨.xautoclaim consumer minIdleMs count, .ok (claimed, deleted)⟩ :: τ' ∧
      messages = claimed.map (claimedMessage counts) := by
  cases claimCalls_of_runs h with
  | nothing => exact ⟨[], [], [], rfl, rfl⟩
  | counted hne pending => exact ⟨_, _, _, rfl, rfl⟩

/-! ## Rounds -/

variable (S : Service P)

/-- A round of the consume loop: it returns, backs off, hands over what it read, or goes round again. -/
inductive ConsumeCalls (worker : Nat) : List (Call (@Op.Reply P)) → Next P → Prop
  | stop : ConsumeCalls worker [⟨.stopIsSet worker, true⟩] .stop
  | failed (e : Foreign) : ConsumeCalls worker
    [⟨.stopIsSet worker, false⟩, ⟨.xreadgroup worker S.settings.batchSize, .error e⟩, ⟨.sleep 1, ()⟩] .again
  | read {entries : List (Entry P)} (h : entries ≠ []) : ConsumeCalls worker
    [⟨.stopIsSet worker, false⟩, ⟨.xreadgroup worker S.settings.batchSize, .ok entries⟩]
    (.handle (entries.map readMessage))
  | paced : ConsumeCalls worker
    [⟨.stopIsSet worker, false⟩, ⟨.xreadgroup worker S.settings.batchSize, .ok []⟩,
      ⟨.sleep S.settings.idlePollInterval, ()⟩] .again
  | polled : ConsumeCalls worker
    [⟨.stopIsSet worker, false⟩, ⟨.xreadgroup worker S.settings.batchSize, .ok []⟩] .again

/-- The calls of a reclaim round that begins to claim. -/
def reclaiming (worker : Nat) (calls : List (Call (@Op.Reply P))) : List (Call (@Op.Reply P)) :=
  ⟨.stopIsSet worker, false⟩ :: ⟨.sleep S.settings.reclaimInterval, ()⟩ :: ⟨.stopIsSet worker, false⟩ :: calls

/-- A round of the reclaim loop: it returns, fails, gives up what it claimed because the ids that were
trimmed away could not be acknowledged, or goes on with the messages that may still be handled. -/
inductive ReclaimCalls (worker : Nat) : List (Call (@Op.Reply P)) → Next P → Prop
  | stop : ReclaimCalls worker [⟨.stopIsSet worker, true⟩] .stop
  | woken : ReclaimCalls worker
    [⟨.stopIsSet worker, false⟩, ⟨.sleep S.settings.reclaimInterval, ()⟩, ⟨.stopIsSet worker, true⟩] .stop
  | failed {τ : List (Call Op.Reply)} {e : Exn}
    (h : Runs (claimStale worker S.settings.reclaimIdleMs S.settings.batchSize) τ (.error e)) :
    ReclaimCalls worker (reclaiming S worker τ) .again
  | givenUp {τ σ : List (Call Op.Reply)} {messages : List (QueuedMessage P)} {deleted : List Nat} {e : Exn}
    (h : Runs (claimStale worker S.settings.reclaimIdleMs S.settings.batchSize) τ (.ok (messages, deleted)))
    (hack : Runs (ack deleted) σ (.error e)) :
    ReclaimCalls worker (reclaiming S worker (τ ++ σ)) .again
  | claimed {τ σ τ' : List (Call Op.Reply)} {messages kept : List (QueuedMessage P)} {deleted : List Nat} {n : Nat}
    (h : Runs (claimStale worker S.settings.reclaimIdleMs S.settings.batchSize) τ (.ok (messages, deleted)))
    (hack : Runs (ack deleted) σ (.ok n)) (hkept : Runs (retryable S messages) τ' (.ok kept)) :
    ReclaimCalls worker (reclaiming S worker (τ ++ (σ ++ τ'))) (if kept = [] then .again else .handle kept)

/-- A round of the metrics loop: it returns, or shows what the queue says and sleeps. -/
inductive MetricsCalls (worker : Nat) : List (Call (@Op.Reply P)) → Next P → Prop
  | stop : MetricsCalls worker [⟨.stopIsSet worker, true⟩] .stop
  | shown {τ : List (Call Op.Reply)} {y : Except Exn QueueStats} (h : Runs stats τ y) :
    MetricsCalls worker (⟨.stopIsSet worker, false⟩ ::
      (τ ++ [⟨.sleep S.settings.metricsRefreshInterval, ()⟩])) .again

variable {S} {worker : Nat} {τ : List (Call (@Op.Reply P))} {x : Except Exn (Next P)}

theorem consumeCalls_of_runs (h : Runs (consumeRound S worker) τ x) :
    ∃ next, x = .ok next ∧ ConsumeCalls S worker τ next := by
  unfold consumeRound stopIsSet at h
  obtain ⟨asked, τ₁, rfl, hrest⟩ := runs_op_iff.1 h
  cases asked with
  | true =>
    obtain ⟨rfl, rfl⟩ := runs_ret_iff.1 hrest
    exact ⟨_, rfl, .stop⟩
  | false =>
    obtain ⟨y, τ₂, τ₃, rfl, hread, hnext⟩ := runs_attempt_bind_iff.1 hrest
    obtain ⟨r, rfl, rfl⟩ := runs_read hread
    cases r with
    | error e =>
      obtain ⟨_, τ₄, rfl, hret⟩ := runs_op_iff.1 hnext
      obtain ⟨rfl, rfl⟩ := runs_ret_iff.1 hret
      exact ⟨_, rfl, .failed e⟩
    | ok entries =>
      change Runs (if entries.map readMessage ≠ [] then _ else _) τ₃ x at hnext
      split at hnext
      · rename_i hne
        obtain ⟨rfl, rfl⟩ := runs_ret_iff.1 hnext
        exact ⟨_, rfl, .read (by simpa using hne)⟩
      · rename_i hnil
        obtain rfl : entries = [] := by simpa using hnil
        split at hnext
        · obtain ⟨_, τ₄, rfl, hret⟩ := runs_op_iff.1 hnext
          obtain ⟨rfl, rfl⟩ := runs_ret_iff.1 hret
          exact ⟨_, rfl, .paced⟩
        · obtain ⟨rfl, rfl⟩ := runs_ret_iff.1 hnext
          exact ⟨_, rfl, .polled⟩

/-- The messages that were delivered too often are dead-lettered, and the others kept. -/
theorem runs_retryable {messages : List (QueuedMessage P)} {y : Except Exn (List (QueuedMessage P))}
    (h : Runs (retryable S messages) τ y) :
    y = .ok (messages.filter fun m => m.deliveryCount ≤ S.settings.maxDeliveries) ∧
      (∀ m ∈ messages, S.settings.maxDeliveries < m.deliveryCount →
        ∃ r, ⟨.deadLetter (m.record (exceededReason S)), r⟩ ∈ τ) ∧
      ∀ c ∈ τ, ∃ m ∈ messages, S.settings.maxDeliveries < m.deliveryCount ∧
        c.op = .deadLetter (m.record (exceededReason S)) := by
  induction messages generalizing τ y with
  | nil =>
    obtain ⟨rfl, rfl⟩ := runs_ret_iff.1 h
    exact ⟨rfl, by simp, by simp⟩
  | cons m messages ih =>
    unfold retryable at h
    split at h
    · rename_i hover
      rcases runs_bind_iff.1 h with ⟨e, hdead, -⟩ | ⟨_, τ₁, τ₂, rfl, hdead, hrest⟩
      · obtain ⟨r, -, heq⟩ := runs_tryDeadLetter hdead
        cases heq
      · obtain ⟨r, rfl, -⟩ := runs_tryDeadLetter hdead
        obtain ⟨rfl, hothers, hcalls⟩ := ih hrest
        refine ⟨?_, ?_, ?_⟩
        · rw [List.filter_cons_of_neg (by simpa using hover)]
        · intro m' hm' hover'
          rcases List.mem_cons.1 hm' with rfl | hm'
          · exact ⟨r, List.mem_append_left _ (List.mem_singleton.2 rfl)⟩
          · obtain ⟨r', hr'⟩ := hothers m' hm' hover'
            exact ⟨r', List.mem_append_right _ hr'⟩
        · intro c hc
          rcases List.mem_append.1 hc with hc | hc
          · rw [List.mem_singleton.1 hc]
            exact ⟨m, List.mem_cons_self .., hover, rfl⟩
          · obtain ⟨m', hm', hc⟩ := hcalls c hc
            exact ⟨m', List.mem_cons_of_mem _ hm', hc⟩
    · rename_i hwithin
      rcases runs_bind_iff.1 h with ⟨e, hrest, -⟩ | ⟨kept, τ₁, τ₂, rfl, hrest, hret⟩
      · cases (ih hrest).1
      · obtain ⟨rfl, rfl⟩ := runs_ret_iff.1 hret
        obtain ⟨hkept, hothers, hcalls⟩ := ih hrest
        rw [List.append_nil]
        refine ⟨?_, ?_, fun c hc => ?_⟩
        · rw [List.filter_cons_of_pos (by simpa using hwithin), Except.ok.inj hkept]
        · intro m' hm' hover
          rcases List.mem_cons.1 hm' with rfl | hm'
          · exact absurd hover hwithin
          · exact hothers m' hm' hover
        · obtain ⟨m', hm', hc⟩ := hcalls c hc
          exact ⟨m', List.mem_cons_of_mem _ hm', hc⟩

/-- What the reclaim loop may fail with: the claim, or the acknowledgement behind it. -/
theorem runs_reclaim {y : Except Exn (List (QueuedMessage P))} (h : Runs (reclaim S worker) τ y) :
    (∃ e, Runs (claimStale worker S.settings.reclaimIdleMs S.settings.batchSize) τ (.error e) ∧ y = .error e) ∨
    ∃ messages deleted τ₁ σ z, τ = τ₁ ++ σ ∧
      Runs (claimStale worker S.settings.reclaimIdleMs S.settings.batchSize) τ₁ (.ok (messages, deleted)) ∧
      Runs (ack deleted) σ z ∧ y = z.map fun _ => messages := by
  unfold reclaim at h
  rcases runs_bind_iff.1 h with ⟨e, hclaim, rfl⟩ | ⟨⟨messages, deleted⟩, τ₁, τ₂, rfl, hclaim, hrest⟩
  · exact Or.inl ⟨e, hclaim, rfl⟩
  refine Or.inr ⟨messages, deleted, τ₁, τ₂, ?_⟩
  by_cases hnil : deleted = []
  · subst hnil
    obtain ⟨rfl, rfl⟩ := runs_ret_iff.1 hrest
    exact ⟨.ok 0, rfl, hclaim, .ret 0, rfl⟩
  · simp only [ne_eq, hnil, not_false_eq_true, if_true] at hrest
    rcases runs_bind_iff.1 hrest with ⟨e, hack, rfl⟩ | ⟨n, σ, τ₃, rfl, hack, hret⟩
    · exact ⟨.error e, rfl, hclaim, hack, rfl⟩
    · obtain ⟨rfl, rfl⟩ := runs_ret_iff.1 hret
      rw [List.append_nil]
      exact ⟨.ok n, rfl, hclaim, hack, rfl⟩

theorem reclaimCalls_of_runs (h : Runs (reclaimRound S worker) τ x) :
    ∃ next, x = .ok next ∧ ReclaimCalls S worker τ next := by
  unfold reclaimRound stopIsSet at h
  obtain ⟨asked, τ₁, rfl, hrest⟩ := runs_op_iff.1 h
  cases asked with
  | true =>
    obtain ⟨rfl, rfl⟩ := runs_ret_iff.1 hrest
    exact ⟨_, rfl, .stop⟩
  | false =>
    obtain ⟨_, τ₂, rfl, hawake⟩ := runs_op_iff.1 hrest
    obtain ⟨asked', τ₃, rfl, hrest'⟩ := runs_op_iff.1 hawake
    cases asked' with
    | true =>
      obtain ⟨rfl, rfl⟩ := runs_ret_iff.1 hrest'
      exact ⟨_, rfl, .woken⟩
    | false =>
      obtain ⟨y, τ₄, τ₅, rfl, hreclaim, hnext⟩ := runs_attempt_bind_iff.1 hrest'
      rcases runs_reclaim hreclaim with ⟨e, hclaim, rfl⟩ | ⟨messages, deleted, τ₆, σ, z, rfl, hclaim, hack, rfl⟩
      · obtain ⟨rfl, rfl⟩ := runs_ret_iff.1 hnext
        rw [List.append_nil]
        exact ⟨_, rfl, .failed hclaim⟩
      cases z with
      | error e =>
        obtain ⟨rfl, rfl⟩ := runs_ret_iff.1 hnext
        rw [List.append_nil]
        exact ⟨_, rfl, .givenUp hclaim hack⟩
      | ok n =>
        change Runs (if messages = [] then _ else _) τ₅ x at hnext
        split at hnext
        · rename_i hnil
          subst hnil
          obtain ⟨rfl, rfl⟩ := runs_ret_iff.1 hnext
          exact ⟨_, rfl, List.append_assoc τ₆ σ [] ▸ .claimed hclaim hack (.ret [])⟩
        · rcases runs_bind_iff.1 hnext with ⟨e, hkept, -⟩ | ⟨kept, τ', τ₇, rfl, hkept, hend⟩
          · cases (runs_retryable hkept).1
          refine ⟨if kept = [] then .again else .handle kept, ?_⟩
          split at hend
          · rename_i hne
            obtain ⟨rfl, rfl⟩ := runs_ret_iff.1 hend
            rw [List.append_nil]
            exact ⟨by rw [if_neg hne], List.append_assoc τ₆ σ τ' ▸ .claimed hclaim hack hkept⟩
          · rename_i hnil
            obtain ⟨rfl, rfl⟩ := runs_ret_iff.1 hend
            rw [List.append_nil]
            exact ⟨by rw [if_pos (by simpa using hnil)], List.append_assoc τ₆ σ τ' ▸ .claimed hclaim hack hkept⟩

theorem metricsCalls_of_runs (h : Runs (metricsRound S worker) τ x) :
    ∃ next, x = .ok next ∧ MetricsCalls S worker τ next := by
  unfold metricsRound stopIsSet at h
  obtain ⟨asked, τ₁, rfl, hrest⟩ := runs_op_iff.1 h
  cases asked with
  | true =>
    obtain ⟨rfl, rfl⟩ := runs_ret_iff.1 hrest
    exact ⟨_, rfl, .stop⟩
  | false =>
    obtain ⟨y, τ₂, τ₃, rfl, hstats, hnext⟩ := runs_attempt_bind_iff.1 hrest
    obtain ⟨_, τ₄, rfl, hret⟩ := runs_op_iff.1 hnext
    obtain ⟨rfl, rfl⟩ := runs_ret_iff.1 hret
    exact ⟨_, rfl, .shown hstats⟩

end App
