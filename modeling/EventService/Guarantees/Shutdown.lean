/-
Whether a worker survives everything and stops cleanly. Whatever its calls are answered, in whatever order
its loops go on and whenever the stop arrives, no exception leaves a loop, and a loop returns only after
the stop. When `run` returns, every message that was read or claimed was driven to the end of its handling,
unless a reclaim pass gave up messages it had claimed: it acknowledges the ids that were trimmed away
before it handles any message, and if that raises, it goes round again and none of them is handled.
-/
import EventService.Run.Workers

namespace App

open Prog

variable {P : Type}

/-! ## What is promised -/

/-- An exception has left the code. -/
def hasRaised {α : Type} : Code P α → Bool
  | .raise _ => true
  | .ret _ | .op _ _ => false

/-- An exception has left the code of a round, of a handler, or of an acknowledgement. -/
def Lane.hasRaised : Lane P → Bool
  | running code => App.hasRaised code
  | handling handlers => handlers.any fun h => App.hasRaised h.code
  | acking code => App.hasRaised code
  | stopped => false

/-- Among these calls are those of a `read` or of a `claim_stale` that returned the message. -/
inductive Obtained (S : Service P) (worker : Nat) (calls : List (Call (@Op.Reply P))) (m : QueuedMessage P) : Prop
  | read {τ₁ τ τ₂ : List (Call Op.Reply)} {messages : List (QueuedMessage P)} (hcalls : calls = τ₁ ++ τ ++ τ₂)
    (hread : Runs (read worker S.settings.batchSize) τ (.ok messages)) (hm : m ∈ messages)
  | claimed {τ₁ τ τ₂ : List (Call Op.Reply)} {messages : List (QueuedMessage P)} {deleted : List Nat}
    (hcalls : calls = τ₁ ++ τ ++ τ₂)
    (hclaim : Runs (claimStale worker S.settings.reclaimIdleMs S.settings.batchSize) τ (.ok (messages, deleted)))
    (hm : m ∈ messages)

/-- The message was driven to the end of its handling: its handler returned its id and this was acknowledged
or was to be, its handler dead-lettered it or tried to, its handler left it pending for an error that is
not permanent, or it was dead-lettered because it was delivered too often. -/
inductive Driven (S : Service P) (m : QueuedMessage P) (pass : Pass P) : Prop
  | acked {τ : List (Call Op.Reply)} {ids : List Nat} {r : Except Foreign Nat} (hm : (m, τ) ∈ pass.handled)
    (hhandled : Runs (handleOne S m) τ (.ok (some m.messageId))) (hack : ⟨.xack ids, r⟩ ∈ pass.acknowledgement)
    (hid : m.messageId ∈ ids)
  | deadLettered {τ : List (Call Op.Reply)} {reason : String} {r : Except Foreign Unit}
    (hm : (m, τ) ∈ pass.handled) (hhandled : Runs (handleOne S m) τ (.ok none))
    (hcall : ⟨.deadLetter (m.record reason), r⟩ ∈ τ)
  | leftPending {τ : List (Call Op.Reply)} {e : Exn} (hm : (m, τ) ∈ pass.handled)
    (hhandled : Runs (handleEvent S m) τ (.error e)) (he : e.isPermanent = false)
  | exceeded {r : Except Foreign Unit} (hlimit : S.settings.maxDeliveries < m.deliveryCount)
    (hcall : ⟨.deadLetter (m.record (exceededReason S)), r⟩ ∈ pass.calls)

/-- Among these calls, the acknowledgement of the ids that were trimmed away raised behind a `claim_stale` that
returned messages. -/
def GivenUp (S : Service P) (worker : Nat) (calls : List (Call (@Op.Reply P))) : Prop :=
  ∃ τ₁ τ σ τ₂ messages deleted e, calls = τ₁ ++ (τ ++ σ) ++ τ₂ ∧ messages ≠ [] ∧
    Runs (claimStale worker S.settings.reclaimIdleMs S.settings.batchSize) τ (.ok (messages, deleted)) ∧
    Runs (ack deleted) σ (.error e)

/-- No exception leaves a loop, a loop returns only after the stop was requested, and when `run` returns
nothing that was read or claimed is abandoned midway. -/
structure StopsCleanly (S : Service P) (worker : Nat) (c : EventConsumer P) : Prop where
  survived : ∀ loop, (c.stages loop).lane.hasRaised = false
  requested : ∀ loop, (c.stages loop).hasStopped = true → c.stop = true
  driven : c.returned = true → ∀ loop, ∀ pass ∈ c.past loop, ∀ m, Obtained S worker pass.calls m →
    Driven S m pass

variable {S : Service P} {worker : Nat} {loop : Loop} {stop : Bool}

/-! ## Surviving -/

/-- What ends with no exception has raised none. -/
theorem hasRaised_eq_false {α : Type} {p code : Code P α} {calls : List (Call Op.Reply)}
    (hcode : After p calls code) (h : ∀ τ x, Runs p τ x → ∃ a, x = .ok a) : hasRaised code = false := by
  cases code with
  | ret a => rfl
  | op o k => rfl
  | raise e =>
    obtain ⟨a, heq⟩ := h _ _ (hcode.runs (.raise e))
    cases heq

theorem StageAt.survived {stage : Stage P} (h : StageAt S worker loop stop stage) : stage.lane.hasRaised = false := by
  cases h with
  | running hcode _ => exact hasRaised_eq_false hcode fun _ _ => round_returns
  | handling _ hcode =>
    refine List.any_eq_false.2 fun x hx => ?_
    obtain ⟨h, hh, rfl⟩ := List.mem_map.1 hx
    rw [hasRaised_eq_false (hcode h hh) fun _ _ => handleOne_returns]
    exact Bool.false_ne_true
  | acking _ _ hcode => exact hasRaised_eq_false hcode fun _ _ hack => ⟨(), (runs_ackDone hack).1⟩
  | stopped _ => rfl

theorem StageAt.requested {stage : Stage P} (h : StageAt S worker loop stop stage)
    (hstopped : stage.hasStopped = true) : stop = true := by
  cases h with
  | running | handling | acking => cases hstopped
  | stopped hstop => exact hstop

/-! ## What a round obtains -/

/-- What a call of a loop is for. -/
inductive Purpose
  | read
  | claim
  | acknowledge
  | park
  | other
  deriving DecidableEq

def Op.purpose : Op P → Purpose
  | .xreadgroup _ _ => .read
  | .xautoclaim _ _ _ | .xpending _ _ _ => .claim
  | .xack _ => .acknowledge
  | .deadLetter _ => .park
  | .xadd _ | .xgroupCreate | .xlen | .xlenDlq | .xinfoGroups | .get _ | .set _ _ | .fetch _ | .openSession
  | .execute _ _ | .commit _ | .close _ | .now | .uniform _ | .sleep _ | .stopIsSet _ | .record _ _ => .other

theorem purpose_of_claimStale {consumer minIdleMs count : Nat} {τ : List (Call Op.Reply)}
    {x : Except Exn (List (QueuedMessage P) × List Nat)} (h : Runs (claimStale consumer minIdleMs count) τ x) :
    ∀ c ∈ τ, c.op.purpose = .claim := by
  cases claimCalls_of_runs h <;> simp [Op.purpose]

theorem purpose_of_ack {ids : List Nat} {τ : List (Call (@Op.Reply P))} {x : Except Exn Nat}
    (h : Runs (ack ids) τ x) : ∀ c ∈ τ, c.op.purpose = .acknowledge := by
  intro c hc
  rw [op_of_ack h c hc]
  rfl

theorem purpose_of_retryable {messages : List (QueuedMessage P)} {τ : List (Call Op.Reply)}
    {x : Except Exn (List (QueuedMessage P))} (h : Runs (retryable S messages) τ x) :
    ∀ c ∈ τ, c.op.purpose = .park := by
  intro c hc
  obtain ⟨m, -, -, hop⟩ := (runs_retryable h).2.2 c hc
  rw [hop]
  rfl

theorem purpose_of_stats {τ : List (Call (@Op.Reply P))} {x : Except Exn QueueStats} (h : Runs stats τ x) :
    ∀ c ∈ τ, c.op.purpose = .other := by
  refine h.only (A := fun o => o.purpose = .other) ?_
  unfold stats
  refine Only.bind (only_ask_lift rfl) fun _ => ?_
  refine Only.bind (only_ask_lift rfl) fun _ => ?_
  refine Only.bind (only_ask_lift rfl) fun groups => ?_
  cases groups <;> trivial

/-- A claim that returned, its calls all among those of a claim, is that claim. -/
theorem ClaimCalls.unique {consumer minIdleMs count : Nat} {τ τ' : List (Call Op.Reply)}
    {x : Except Exn (List (QueuedMessage P) × List Nat)} {y : List (QueuedMessage P) × List Nat}
    (h : ClaimCalls consumer minIdleMs count τ x) (h' : ClaimCalls consumer minIdleMs count τ' (.ok y))
    (hsub : ∀ c ∈ τ', c ∈ τ) : x = .ok y := by
  cases h' with
  | nothing deleted =>
    have hclaim := hsub _ (List.mem_cons_self ..)
    cases h with
    | refused e => simp at hclaim
    | nothing deleted' =>
      obtain rfl : deleted = deleted' := by simpa using hclaim
      rfl
    | uncounted hne e => simp [hne.symm] at hclaim
    | counted hne pending => simp [hne.symm] at hclaim
  | counted hne pending =>
    have hclaim := hsub _ (List.mem_cons_self ..)
    have hcount := hsub _ (List.mem_cons_of_mem _ (List.mem_cons_self ..))
    cases h with
    | refused e => simp at hclaim
    | nothing deleted' => simp [hne] at hclaim
    | uncounted hne' e => simp at hcount
    | counted hne' pending' =>
      obtain ⟨rfl, rfl⟩ : _ ∧ _ := by simpa using hclaim
      obtain rfl : pending = pending' := by simpa using hcount
      rfl

theorem mem_reclaiming {calls : List (Call (@Op.Reply P))} {c : Call (@Op.Reply P)}
    (hc : c ∈ reclaiming S worker calls) : c.op.purpose = .other ∨ c ∈ calls := by
  rcases List.mem_cons.1 hc with rfl | hc
  · exact Or.inl rfl
  rcases List.mem_cons.1 hc with rfl | hc
  · exact Or.inl rfl
  rcases List.mem_cons.1 hc with rfl | hc
  · exact Or.inl rfl
  · exact Or.inr hc

/-- The calls of a reclaim round that are for claiming are those of its claim. -/
theorem mem_claim {τ rest : List (Call (@Op.Reply P))} {c : Call (@Op.Reply P)}
    (hrest : ∀ c ∈ rest, c.op.purpose ≠ .claim) (hc : c ∈ reclaiming S worker (τ ++ rest))
    (hp : c.op.purpose = .claim) : c ∈ τ := by
  rcases mem_reclaiming hc with hother | hc
  · cases hp.symm.trans hother
  rcases List.mem_append.1 hc with hc | hc
  · exact hc
  · exact absurd hp (hrest c hc)

/-- So a claim among them that returned is the one the round made. -/
theorem claim_unique {τ rest τ₁ τ' τ₂ : List (Call Op.Reply)} {consumer minIdleMs count : Nat}
    {x : Except Exn (List (QueuedMessage P) × List Nat)} {y : List (QueuedMessage P) × List Nat}
    (h : Runs (claimStale consumer minIdleMs count) τ x) (hrest : ∀ c ∈ rest, c.op.purpose ≠ .claim)
    (h' : Runs (claimStale consumer minIdleMs count) τ' (.ok y))
    (hcalls : reclaiming S worker (τ ++ rest) = τ₁ ++ τ' ++ τ₂) : x = .ok y := by
  refine (claimCalls_of_runs h).unique (claimCalls_of_runs h') fun c hc => ?_
  have hmem : c ∈ reclaiming S worker (τ ++ rest) := by
    rw [hcalls]
    simp [hc]
  exact mem_claim hrest hmem (purpose_of_claimStale h' c hc)

/-- What `read` returned came with the call it made. -/
theorem exists_read {calls τ₁ τ τ₂ : List (Call Op.Reply)} {messages : List (QueuedMessage P)} {count : Nat}
    (hcalls : calls = τ₁ ++ τ ++ τ₂) (h : Runs (read worker count) τ (.ok messages)) :
    ∃ entries, ⟨.xreadgroup worker count, .ok entries⟩ ∈ calls ∧ messages = entries.map readMessage := by
  obtain ⟨r, rfl, heq⟩ := runs_read h
  cases r with
  | error e => cases heq
  | ok entries =>
    rw [hcalls]
    exact ⟨entries, by simp, Except.ok.inj heq⟩

/-- What `claim_stale` returned came with a call that claims. -/
theorem exists_claiming {calls τ₁ τ τ₂ : List (Call Op.Reply)} {consumer minIdleMs count : Nat}
    {y : List (QueuedMessage P) × List Nat} (hcalls : calls = τ₁ ++ τ ++ τ₂)
    (h : Runs (claimStale consumer minIdleMs count) τ (.ok y)) : ∃ c ∈ calls, c.op.purpose = .claim := by
  have hmem : ∀ c ∈ τ, c ∈ calls := by
    intro c hc
    rw [hcalls]
    exact List.mem_append_left _ (List.mem_append_right _ hc)
  obtain ⟨messages, deleted⟩ := y
  obtain ⟨claimed, counts, τ', rfl, -⟩ := runs_claimStale_ok h
  exact ⟨_, hmem _ (List.mem_cons_self ..), rfl⟩

/-- A round of the consume loop does not claim. -/
theorem ConsumeCalls.not_claim {calls : List (Call Op.Reply)} {next : Next P} (h : ConsumeCalls S worker calls next) :
    ∀ c ∈ calls, c.op.purpose ≠ .claim := by
  cases h <;> simp [Op.purpose]

/-- It hands over everything it obtained. -/
theorem handed_of_consume {calls : List (Call Op.Reply)} {next : Next P} {m : QueuedMessage P}
    (h : ConsumeCalls S worker calls next) (hm : Obtained S worker calls m) :
    ∃ messages, next = .handle messages ∧ m ∈ messages := by
  cases hm with
  | read hcalls hread hm =>
    obtain ⟨entries, hmem, rfl⟩ := exists_read hcalls hread
    cases h with
    | stop | failed => simp at hmem
    | read hne =>
      obtain rfl : entries = _ := by simpa using hmem
      exact ⟨_, rfl, hm⟩
    | paced | polled =>
      obtain rfl : entries = [] := by simpa using hmem
      cases hm
  | claimed hcalls hclaim _ =>
    obtain ⟨c, hc, hp⟩ := exists_claiming hcalls hclaim
    exact absurd hp (h.not_claim c hc)

/-- A round of the reclaim loop does not read. -/
theorem ReclaimCalls.not_read {calls : List (Call Op.Reply)} {next : Next P} (h : ReclaimCalls S worker calls next) :
    ∀ c ∈ calls, c.op.purpose ≠ .read := by
  have hbegin : ∀ {τ : List (Call (@Op.Reply P))}, (∀ c ∈ τ, c.op.purpose ≠ .read) →
      ∀ c ∈ reclaiming S worker τ, c.op.purpose ≠ .read := by
    intro τ hτ c hc
    rcases mem_reclaiming hc with hother | hc
    · simp [hother]
    · exact hτ c hc
  cases h with
  | stop | woken => simp [Op.purpose]
  | failed h => exact hbegin fun c hc => by simp [purpose_of_claimStale h c hc]
  | givenUp h hack =>
    refine hbegin fun c hc => ?_
    rcases List.mem_append.1 hc with hc | hc
    · simp [purpose_of_claimStale h c hc]
    · simp [purpose_of_ack hack c hc]
  | claimed h hack hkept =>
    refine hbegin fun c hc => ?_
    rcases List.mem_append.1 hc with hc | hc
    · simp [purpose_of_claimStale h c hc]
    rcases List.mem_append.1 hc with hc | hc
    · simp [purpose_of_ack hack c hc]
    · simp [purpose_of_retryable hkept c hc]

/-- A reclaim round whose acknowledgement raises behind a claim gives up what it claimed. -/
theorem givenUp_of_reclaim {τ σ : List (Call Op.Reply)} {messages : List (QueuedMessage P)} {deleted : List Nat}
    {e : Exn} (h : Runs (claimStale worker S.settings.reclaimIdleMs S.settings.batchSize) τ (.ok (messages, deleted)))
    (hne : messages ≠ []) (hack : Runs (ack deleted) σ (.error e)) :
    GivenUp S worker (reclaiming S worker (τ ++ σ)) := by
  refine ⟨reclaiming S worker [], τ, σ, [], messages, deleted, e, ?_, hne, h, hack⟩
  rw [List.append_nil]
  rfl

/-- A round of the reclaim loop that gives nothing up hands over what it obtained, but for the messages it
dead-letters. -/
theorem handed_of_reclaim {calls : List (Call Op.Reply)} {next : Next P} {m : QueuedMessage P}
    (h : ReclaimCalls S worker calls next) (hnever : ¬GivenUp S worker calls) (hm : Obtained S worker calls m) :
    (S.settings.maxDeliveries < m.deliveryCount ∧
      ∃ r, ⟨.deadLetter (m.record (exceededReason S)), r⟩ ∈ calls) ∨ ∃ kept, next = .handle kept ∧ m ∈ kept := by
  cases hm with
  | read hcalls hread _ =>
    obtain ⟨entries, hmem, -⟩ := exists_read hcalls hread
    exact absurd rfl (h.not_read _ hmem)
  | @claimed τ₁ τ' τ₂ _ _ hcalls hclaim hm =>
    obtain ⟨c, hc, hp⟩ := exists_claiming hcalls hclaim
    cases h with
    | stop =>
      rw [List.mem_singleton.1 hc] at hp
      cases hp
    | woken =>
      simp only [List.mem_cons, List.not_mem_nil, or_false] at hc
      rcases hc with rfl | rfl | rfl <;> cases hp
    | @failed τ e h =>
      rw [← List.append_nil τ] at hcalls
      cases claim_unique h (by simp) hclaim hcalls
    | @givenUp τ σ messages deleted e h hack =>
      have heq := claim_unique h (fun c hc => by simp [purpose_of_ack hack c hc]) hclaim hcalls
      obtain ⟨rfl, rfl⟩ := Prod.mk.inj (Except.ok.inj heq)
      exact absurd (givenUp_of_reclaim h (List.ne_nil_of_mem hm) hack) hnever
    | @claimed τ σ τ'' messages kept deleted n h hack hretry =>
      have hrest : ∀ c ∈ σ ++ τ'', c.op.purpose ≠ .claim := by
        intro c hc
        rcases List.mem_append.1 hc with hc | hc
        · simp [purpose_of_ack hack c hc]
        · simp [purpose_of_retryable hretry c hc]
      have heq := claim_unique h hrest hclaim hcalls
      obtain ⟨rfl, rfl⟩ := Prod.mk.inj (Except.ok.inj heq)
      obtain ⟨hkept, hover, -⟩ := runs_retryable hretry
      obtain rfl := Except.ok.inj hkept
      by_cases hlimit : S.settings.maxDeliveries < m.deliveryCount
      · obtain ⟨r, hr⟩ := hover m hm hlimit
        exact Or.inl ⟨hlimit, r, by simp [reclaiming, hr]⟩
      · have hmem : m ∈ messages.filter fun m => m.deliveryCount ≤ S.settings.maxDeliveries := by
          simpa [hm] using hlimit
        exact Or.inr ⟨_, if_neg (List.ne_nil_of_mem hmem), hmem⟩

/-- A round of the metrics loop obtains nothing. -/
theorem MetricsCalls.purposes {calls : List (Call Op.Reply)} {next : Next P} (h : MetricsCalls S worker calls next) :
    ∀ c ∈ calls, c.op.purpose = .other := by
  cases h with
  | stop => simp [Op.purpose]
  | shown hstats =>
    intro c hc
    rcases List.mem_cons.1 hc with rfl | hc
    · rfl
    rcases List.mem_append.1 hc with hc | hc
    · exact purpose_of_stats hstats c hc
    · rw [List.mem_singleton.1 hc]
      rfl

/-- A round that gives nothing up hands over what it obtained, but for the messages it dead-letters. -/
theorem handed_of_round {calls : List (Call Op.Reply)} {next : Next P} {m : QueuedMessage P}
    (h : Runs (round S worker loop) calls (.ok next)) (hnever : ¬GivenUp S worker calls)
    (hm : Obtained S worker calls m) :
    (S.settings.maxDeliveries < m.deliveryCount ∧
      ∃ r, ⟨.deadLetter (m.record (exceededReason S)), r⟩ ∈ calls) ∨ ∃ kept, next = .handle kept ∧ m ∈ kept := by
  cases loop with
  | consume =>
    obtain ⟨next, heq, hround⟩ := consumeCalls_of_runs h
    obtain rfl := Except.ok.inj heq
    exact Or.inr (handed_of_consume hround hm)
  | reclaim =>
    obtain ⟨next, heq, hround⟩ := reclaimCalls_of_runs h
    obtain rfl := Except.ok.inj heq
    exact handed_of_reclaim hround hnever hm
  | metrics =>
    obtain ⟨next, heq, hround⟩ := metricsCalls_of_runs h
    have hother := hround.purposes
    cases hm with
    | read hcalls hread _ =>
      obtain ⟨entries, hmem, -⟩ := exists_read hcalls hread
      cases hother _ hmem
    | claimed hcalls hclaim _ =>
      obtain ⟨c, hc, hp⟩ := exists_claiming hcalls hclaim
      cases hp.symm.trans (hother c hc)

/-! ## What becomes of it -/

/-- A message that was handed over is driven to the end of its handling. -/
theorem driven_of_handled {calls acknowledgement : List (Call Op.Reply)}
    {handled : List (QueuedMessage P × List (Call Op.Reply))} {results : List (Option Nat)} {m : QueuedMessage P}
    (hresults : List.Forall₂ (fun m r => Runs (handleOne S m.1) m.2 (.ok r)) handled results)
    (hack : Runs (ackDone results) acknowledgement (.ok ())) (hm : m ∈ handled.map Prod.fst) :
    Driven S m ⟨calls, handled, acknowledgement⟩ := by
  obtain ⟨⟨_, τ⟩, hmem, rfl⟩ := List.mem_map.1 hm
  obtain ⟨i, hi, hget⟩ := List.mem_iff_getElem.1 hmem
  have hi' : i < results.length := hresults.length_eq ▸ hi
  have hruns := List.Forall₂.get hresults hi hi'
  simp only [List.get_eq_getElem, hget] at hruns
  rcases runs_handleOne hruns with ⟨outcome, -, hr⟩ | ⟨e, τ₁, r, -, -, rfl, hr⟩ | ⟨e, hperm, hevent, -⟩
  · have hid : _ ∈ results.filterMap id :=
      List.mem_filterMap.2 ⟨_, List.getElem_mem hi', Except.ok.inj hr⟩
    rw [hr] at hruns
    rcases (runs_ackDone hack).2 with ⟨hnil, -⟩ | ⟨-, r, rfl⟩
    · rw [hnil] at hid
      cases hid
    · exact .acked hmem hruns (List.mem_singleton.2 rfl) hid
  · rw [hr] at hruns
    exact .deadLettered hmem hruns (List.mem_append_right _ (List.mem_singleton.2 rfl))
  · exact .leftPending hmem hevent hperm

/-- A pass that gives nothing up abandons nothing. -/
theorem PassAt.driven {pass : Pass P} {m : QueuedMessage P} (h : PassAt S worker loop pass)
    (hnever : ¬GivenUp S worker pass.calls) (hm : Obtained S worker pass.calls m) : Driven S m pass := by
  cases h with
  | round hcalls hnext =>
    rcases handed_of_round hcalls hnever hm with ⟨hlimit, r, hcall⟩ | ⟨kept, rfl, -⟩
    · exact .exceeded hlimit hcall
    · exact absurd rfl (hnext kept)
  | batch hcalls hresults hack =>
    rcases handed_of_round hcalls hnever hm with ⟨hlimit, r, hcall⟩ | ⟨kept, heq, hmem⟩
    · exact .exceeded hlimit hcall
    · rw [← Next.handle.inj heq] at hmem
      exact driven_of_handled hresults hack hmem

/-- The only acknowledgement of a round is that of a reclaim pass; if it raises, the loop goes round again. -/
theorem givingUp_of_round {calls : List (Call Op.Reply)} {next : Next P} {ids : List Nat} {e : Foreign}
    (h : Runs (round S worker loop) calls (.ok next)) (hmem : ⟨.xack ids, .error e⟩ ∈ calls) :
    next = .again ∧ ∃ τ σ messages deleted e', calls = reclaiming S worker (τ ++ σ) ∧
      Runs (claimStale worker S.settings.reclaimIdleMs S.settings.batchSize) τ (.ok (messages, deleted)) ∧
      Runs (ack deleted) σ (.error e') := by
  cases loop with
  | consume =>
    obtain ⟨next, heq, hround⟩ := consumeCalls_of_runs h
    cases hround <;> simp at hmem
  | metrics =>
    obtain ⟨next, heq, hround⟩ := metricsCalls_of_runs h
    cases hround.purposes _ hmem
  | reclaim =>
    obtain ⟨next', heq, hround⟩ := reclaimCalls_of_runs h
    obtain rfl := Except.ok.inj heq
    cases hround with
    | stop | woken => simp at hmem
    | failed hclaim =>
      rcases mem_reclaiming hmem with hother | hmem
      · cases hother
      · cases purpose_of_claimStale hclaim _ hmem
    | givenUp hclaim hack => exact ⟨rfl, _, _, _, _, _, rfl, hclaim, hack⟩
    | claimed hclaim hack hkept =>
      rcases mem_reclaiming hmem with hother | hmem
      · cases hother
      rcases List.mem_append.1 hmem with hmem | hmem
      · cases purpose_of_claimStale hclaim _ hmem
      rcases List.mem_append.1 hmem with hmem | hmem
      · -- that acknowledgement did not raise
        rcases runs_ack hack with ⟨-, rfl, -⟩ | ⟨-, r, rfl, hr⟩
        · cases hmem
        · obtain rfl := raised_ok_iff.1 hr.symm
          simp at hmem
      · cases purpose_of_retryable hkept _ hmem

/-- Messages that are given up came with an acknowledgement that raised. -/
theorem GivenUp.exists_ack {calls : List (Call Op.Reply)} (h : GivenUp S worker calls) :
    ∃ ids e, ⟨.xack ids, .error e⟩ ∈ calls := by
  obtain ⟨τ₁, τ, σ, τ₂, messages, deleted, e, rfl, -, -, hack⟩ := h
  obtain ⟨e', rfl⟩ := failed_of_ack hack
  exact ⟨deleted, e', by simp⟩

/-- A pass that gives messages up abandons them. -/
theorem PassAt.abandoned {pass : Pass P} (h : PassAt S worker loop pass) (hgiven : GivenUp S worker pass.calls) :
    ∃ m, Obtained S worker pass.calls m ∧ ¬Driven S m pass := by
  obtain ⟨ids, e, hmem⟩ := hgiven.exists_ack
  obtain ⟨τ₁, τ, σ, τ₂, messages, deleted, e', hcalls, hne, hclaim, -⟩ := hgiven
  obtain ⟨m, hm⟩ := List.exists_mem_of_ne_nil messages hne
  refine ⟨m, .claimed (by rw [hcalls, List.append_assoc, List.append_assoc, ← List.append_assoc]) hclaim hm, ?_⟩
  cases h with
  | batch hcalls' _ _ => cases (givingUp_of_round hcalls' hmem).1
  | round hcalls' _ =>
    obtain ⟨-, τ', σ', _, _, _, rfl, hclaim', hack'⟩ := givingUp_of_round hcalls' hmem
    rintro (⟨hhandled, -⟩ | ⟨hhandled, -⟩ | ⟨hhandled, -⟩ | ⟨-, hcall⟩)
    · cases hhandled
    · cases hhandled
    · cases hhandled
    · rcases mem_reclaiming hcall with hother | hcall
      · cases hother
      rcases List.mem_append.1 hcall with hcall | hcall
      · cases purpose_of_claimStale hclaim' _ hcall
      · cases purpose_of_ack hack' _ hcall

/-! ## A clean stop -/

/-- A worker survives and stops cleanly if and only if none of its reclaim passes gave up messages: whatever
its calls are answered, in whatever order its loops and handlers go on, and whenever the stop arrives. -/
theorem EventConsumer.stops_cleanly_iff {c : EventConsumer P} (h : Run S worker (start S worker) c) :
    StopsCleanly S worker c ↔
      (c.returned = true → ∀ loop, ∀ pass ∈ c.past loop, ¬GivenUp S worker pass.calls) := by
  have hi := inv_run h
  constructor
  · intro hclean hreturned loop pass hpass hgiven
    obtain ⟨m, hm, hnot⟩ := (hi.past loop pass hpass).abandoned hgiven
    exact hnot (hclean.driven hreturned loop pass hpass m hm)
  · intro hnever
    refine ⟨fun loop => (hi.stages loop).survived, fun loop => (hi.stages loop).requested, ?_⟩
    intro hreturned loop pass hpass m hm
    exact (hi.past loop pass hpass).driven (hnever hreturned loop pass hpass) hm

/-! ## Two shutdowns -/

namespace Trace

/-- Every call succeeds, and there is nothing to read or to claim. -/
def quiet : (o : Op EventIn) → o.Reply
  | .xadd _ => .ok 1
  | .xgroupCreate => .ok ()
  | .xreadgroup _ _ => .ok []
  | .xautoclaim _ _ _ => .ok ([], [])
  | .xpending _ _ _ => .ok []
  | .xack ids => .ok ids.length
  | .deadLetter _ => .ok ()
  | .xlen => .ok 0
  | .xlenDlq => .ok 0
  | .xinfoGroups => .ok none
  | .get _ => .ok none
  | .set _ _ => .ok ()
  | .fetch _ => .ok (.finite false 1 0)
  | .openSession => .ok 0
  | .execute _ _ => .ok 1
  | .commit _ => .ok ()
  | .close _ => .ok ()
  | .now => 0
  | .uniform _ => 0
  | .sleep _ => ()
  | .stopIsSet _ => false
  | .record _ _ => ()

/-- Redis is not to be reached. -/
def unreachable : (o : Op EventIn) → o.Reply
  | .xreadgroup _ _ => .error ⟨.redisError, "Connection refused"⟩
  | .xack _ => .error ⟨.redisError, "Connection refused"⟩
  | o => quiet o

/-- One that is stored, one without a currency, and one whose rate is not to be had for now. -/
def threeEntries : (o : Op EventIn) → o.Reply
  | .xreadgroup _ _ => .ok [⟨1, document "a" (.finite false 5 0) "USD"⟩, ⟨2, document "b" (.finite false 6 0) "123"⟩,
      ⟨3, document "c" (.finite false 7 0) "EUR"⟩]
  | o => quiet o

/-- The rate source is down. -/
def noRate : (o : Op EventIn) → o.Reply
  | .fetch _ => .error (.event .rateUnavailableError "down")
  | o => quiet o

/-- One entry that was delivered twice, and one that was trimmed away. -/
def staleAndTrimmed : (o : Op EventIn) → o.Reply
  | .xautoclaim _ _ _ => .ok ([(⟨2, document "a" (.finite false 5 0) "USD"⟩, 2)], [1])
  | .xpending _ _ _ => .ok [(2, 2)]
  | o => quiet o

/-- A loop finds the stop requested and returns. -/
def leave (loop : Loop) : List (ConsumerAction EventIn) := [.call loop quiet, .move loop]

end Trace

/-- A read fails, the next one returns three entries, and the stop arrives while they are handled. -/
def stoppedInABatch : List (ConsumerAction EventIn) := List.flatten [
  List.replicate 3 (.call .consume Trace.unreachable),
  [.move .consume],
  List.replicate 2 (.call .consume Trace.threeEntries),
  [.move .consume, .handle .consume 2 Trace.noRate, .handle .consume 0 Trace.quiet, .requestStop],
  [.handle .consume 1 Trace.unreachable, .handle .consume 2 Trace.noRate],
  List.replicate 5 (.handle .consume 0 Trace.quiet),
  [.move .consume, .call .consume Trace.unreachable, .move .consume],
  Trace.leave .consume, Trace.leave .reclaim, Trace.leave .metrics]

/-- No round acknowledged anything. -/
def acknowledgesNothing (c : EventConsumer EventIn) : Bool :=
  [Loop.consume, .reclaim, .metrics].all fun loop =>
    (c.past loop).all fun pass => pass.calls.all fun call => call.op.purpose ≠ .acknowledge

theorem not_givenUp {calls : List (Call Op.Reply)} (h : ∀ c ∈ calls, c.op.purpose ≠ .acknowledge) :
    ¬GivenUp S worker calls := by
  intro hgiven
  obtain ⟨ids, e, hmem⟩ := hgiven.exists_ack
  exact h _ hmem rfl

/-- The worker survives both failures, and drives the three messages of the batch to three different ends
before it stops. -/
theorem stops_cleanly_in_a_batch :
    ∃ c, EventConsumer.Run (documentService { maxAttempts := 1 }) 0
        (EventConsumer.start (documentService { maxAttempts := 1 }) 0) c ∧
      c.returned = true ∧ (c.past .consume).map (fun pass => pass.handled.length) = [0, 3, 0] ∧
      StopsCleanly (documentService { maxAttempts := 1 }) 0 c := by
  obtain ⟨c, hrun, hp⟩ := Steps.exists_run (EventConsumer.step (documentService { maxAttempts := 1 }) 0)
    (EventConsumer.start (documentService { maxAttempts := 1 }) 0) stoppedInABatch
    (fun c => c.returned && (c.past .consume).map (fun pass => pass.handled.length) = [0, 3, 0] &&
      acknowledgesNothing c) (by decide +kernel)
  simp only [Bool.and_eq_true, decide_eq_true_eq] at hp
  obtain ⟨⟨hreturned, hhandled⟩, hnothing⟩ := hp
  refine ⟨c, hrun, hreturned, hhandled, (EventConsumer.stops_cleanly_iff hrun).2 fun _ loop pass hpass => ?_⟩
  refine not_givenUp fun call hcall => ?_
  have hloop : loop ∈ [Loop.consume, .reclaim, .metrics] := by cases loop <;> simp
  have hall := List.all_eq_true.1 (List.all_eq_true.1 (List.all_eq_true.1 hnothing loop hloop) pass hpass) call hcall
  simpa using hall

/-- A pass claims an entry, fails to acknowledge the one that was trimmed away, and then the stop arrives. -/
def stoppedAfterGivingUp : List (ConsumerAction EventIn) := List.flatten [
  List.replicate 5 (.call .reclaim Trace.staleAndTrimmed),
  [.call .reclaim Trace.unreachable, .move .reclaim, .requestStop],
  Trace.leave .consume, Trace.leave .reclaim, Trace.leave .metrics]

/-- The acknowledgement failed. -/
def isFailedAck (c : Call (@Op.Reply P)) : Bool :=
  match c with
  | ⟨.xack _, .error _⟩ => true
  | _ => false

/-- Delivery counts were looked up. -/
def isLookup (c : Call (@Op.Reply P)) : Bool :=
  match c.op with
  | .xpending _ _ _ => true
  | _ => false

theorem purpose_of_isLookup {c : Call (@Op.Reply P)} (h : isLookup c = true) : c.op.purpose = .claim := by
  unfold isLookup at h
  split at h
  · rename_i hop
    rw [hop]
    rfl
  · cases h

/-- What was looked up was claimed. -/
theorem claimed_of_lookup {consumer minIdleMs count : Nat} {τ : List (Call Op.Reply)}
    {messages : List (QueuedMessage P)} {deleted : List Nat} {c : Call Op.Reply}
    (h : Runs (claimStale consumer minIdleMs count) τ (.ok (messages, deleted))) (hc : c ∈ τ)
    (hlookup : isLookup c = true) : messages ≠ [] := by
  cases claimCalls_of_runs h with
  | counted hne pending => simpa using hne
  | nothing =>
    rw [List.mem_singleton.1 hc] at hlookup
    cases hlookup

/-- A pass that claimed something and then failed to acknowledge has given it up. -/
theorem givenUp_of_calls {pass : Pass P} (h : PassAt S worker loop pass)
    (hack : pass.calls.any isFailedAck = true) (hlookup : pass.calls.any isLookup = true) :
    GivenUp S worker pass.calls := by
  obtain ⟨c, hc, hfailed⟩ := List.any_eq_true.1 hack
  unfold isFailedAck at hfailed
  split at hfailed
  · rename_i ids e
    obtain ⟨next, hcalls⟩ : ∃ next, Runs (round S worker loop) pass.calls (.ok next) := by
      cases h with
      | round hcalls _ => exact ⟨_, hcalls⟩
      | batch hcalls _ _ => exact ⟨_, hcalls⟩
    obtain ⟨-, τ, σ, messages, deleted, e', heq, hclaim, hraised⟩ := givingUp_of_round hcalls hc
    obtain ⟨d, hd, hlooked⟩ := List.any_eq_true.1 hlookup
    have hrest : ∀ c ∈ σ, c.op.purpose ≠ .claim := fun c hc => by simp [purpose_of_ack hraised c hc]
    rw [heq] at hd ⊢
    have hmem := mem_claim hrest hd (purpose_of_isLookup hlooked)
    exact givenUp_of_reclaim hclaim (claimed_of_lookup hclaim hmem hlooked) hraised
  · cases hfailed

/-- The claimed entry was never handled, and the worker has stopped. -/
theorem claimed_entry_is_abandoned :
    ∃ c, Steps.runActions (EventConsumer.step (documentService {}) 0) (EventConsumer.start (documentService {}) 0)
        stoppedAfterGivingUp = some c ∧
      c.returned = true ∧ ¬StopsCleanly (documentService {}) 0 c := by
  obtain ⟨c, hc, hp⟩ := (Option.any_eq_true (fun c => EventConsumer.returned c &&
      (c.past .reclaim).any fun pass => pass.calls.any isFailedAck && pass.calls.any isLookup) _).1
    (show (Steps.runActions (EventConsumer.step (documentService {}) 0) (EventConsumer.start (documentService {}) 0)
      stoppedAfterGivingUp).any _ = true by decide +kernel)
  obtain ⟨hreturned, hgiven⟩ := Bool.and_eq_true_iff.1 hp
  obtain ⟨pass, hpass, hcalls⟩ := List.any_eq_true.1 hgiven
  obtain ⟨hack, hlookup⟩ := Bool.and_eq_true_iff.1 hcalls
  have hat := (EventConsumer.inv_run (Steps.run_of_runActions hc)).past .reclaim pass hpass
  obtain ⟨m, hm, hnot⟩ := hat.abandoned (givenUp_of_calls hat hack hlookup)
  exact ⟨c, hc, hreturned, fun hclean => hnot (hclean.driven hreturned .reclaim pass hpass m hm)⟩

/-! ## The whole service -/

theorem hasStopped_of_lane {stage : Stage P} (h : stage.lane = .stopped) : stage.hasStopped = true := by
  cases stage with
  | stopped => rfl
  | running | handling | acking => cases h

/-- In the whole service too, no exception leaves a loop of a worker, and a loop has returned only if the
worker was asked to stop. -/
theorem System.worker_survives {s : System P} (hs : Reachable S s) {lanes : Loop → Lane P}
    (hup : s.workers worker = .up lanes) (loop : Loop) :
    (lanes loop).hasRaised = false ∧ (lanes loop = .stopped → worker ∈ s.world.stops) := by
  obtain ⟨c, hrun, hf⟩ := exists_consumer hs hup
  obtain rfl := Worker.up.inj (hf.lanes.symm.trans hup)
  have hat := (EventConsumer.inv_run hrun).stages loop
  refine ⟨hat.survived, fun hstopped => ?_⟩
  have hflag := hat.requested (hasStopped_of_lane hstopped)
  rw [hf.stop] at hflag
  exact of_decide_eq_true hflag

end App
