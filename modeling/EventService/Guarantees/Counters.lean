/-
The counters tell the truth. Every message of a batch is counted once, as processed if its id goes into the one
acknowledgement behind the batch and as failed if not; retries, lookups and parked messages are counted as
often as they happen; and every request is counted by the answer that its client gets.
-/
import EventService.Run.Metering
import EventService.Guarantees.Intake
import EventService.Guarantees.Shutdown

namespace App

open Prog

variable {P : Type} {S : Service P} {worker : Nat}

/-! ## Passes -/

/-- The updates of the metrics in a pass that is over: those of its round, and those of each handler. -/
structure Pass.Updates (S : Service P) (worker : Nat) (loop : Loop) (pass : Pass P) (own : List Metric)
    (batch : List (List Metric)) : Prop where
  own : (Metered.round S worker loop).Marking pass.calls own
  batch : List.Forall₂ (fun handled ms => (Metered.handleOne S handled.1).Marking handled.2 ms) pass.handled batch

/-- The ids that were acknowledged by these calls. -/
def acknowledged (calls : List (Call (@Op.Reply P))) : List Nat :=
  calls.flatMap fun call => match call with
    | ⟨.xack ids, _⟩ => ids
    | ⟨_, _⟩ => []

/-- What was counted in a pass is what was done in it: the round updates the gauges with the numbers it was
told, or counts the messages it parked; each handler counts its retries, lookups and parked message, in
their order; and each message is counted once, as processed if its id is among those acknowledged
together. -/
structure TrueCounts (loop : Loop) (pass : Pass P) (own : List Metric) (batch : List (List Metric)) : Prop where
  round : own = roundMetrics pass.calls loop
  called : List.Forall₂ (fun handled ms => ms.filter Metric.isOfCall = handled.2.filterMap countedAs) pass.handled batch
  observed : batch.flatten.count .processingSeconds = pass.handled.length
  settled : batch.flatten.countP Metric.isProcessed + batch.flatten.countP Metric.isFailed = pass.handled.length
  processed : batch.flatten.countP Metric.isProcessed = (acknowledged pass.acknowledgement).length

variable {loop : Loop} {pass : Pass P} {own own' : List Metric} {batch batch' : List (List Metric)}

/-- The calls of a pass tell its updates. -/
theorem Pass.Updates.unique (h : pass.Updates S worker loop own batch) (h' : pass.Updates S worker loop own' batch') :
    own' = own ∧ batch' = batch := by
  refine ⟨h'.own.unique h.own, ?_⟩
  exact List.right_unique_forall₂' (fun _ _ _ hms hms' => hms.unique hms') h'.batch h.batch

/-- What the handlers of a batch update, with what they returned. -/
theorem exists_updates {handled : List (QueuedMessage P × List (Call (@Op.Reply P)))} {results : List (Option Nat)}
    (h : List.Forall₂ (fun m r => Runs (handleOne S m.1) m.2 (.ok r)) handled results) :
    ∃ batch, List.Forall₂ (fun handled ms => (Metered.handleOne S handled.1).Marking handled.2 ms) handled batch ∧
      List.Forall₂ CountedOnce batch results := by
  induction h with
  | nil => exact ⟨[], .nil, .nil⟩
  | @cons m r handled results hruns _ ih =>
    obtain ⟨batch, hmarking, hcounted⟩ := ih
    rw [← erase_handleOne] at hruns
    obtain ⟨σ, hmetered, hcalls⟩ := exists_runs_of_erase hruns
    obtain ⟨r', hr, hone⟩ := countedOnce_handleOne hmetered
    obtain rfl := Except.ok.inj hr
    exact ⟨marks σ :: batch, .cons ⟨σ, _, hmetered, hcalls, rfl⟩ hmarking, .cons hone hcounted⟩

theorem called_of_marking {m : QueuedMessage P} {τ : List (Call (@Op.Reply P))} {ms : List Metric}
    (h : (Metered.handleOne S m).Marking τ ms) : ms.filter Metric.isOfCall = τ.filterMap countedAs := by
  obtain ⟨σ, x, hruns, rfl, rfl⟩ := h
  exact tallies_handleOne m _ _ hruns

/-- The counts of a batch are the sums of those of its handlers. -/
theorem counts_of_batch {batch : List (List Metric)} {results : List (Option Nat)}
    (h : List.Forall₂ CountedOnce batch results) :
    batch.flatten.count .processingSeconds = results.length ∧
      batch.flatten.countP Metric.isProcessed = (results.filterMap id).length ∧
      batch.flatten.countP Metric.isProcessed + batch.flatten.countP Metric.isFailed = results.length := by
  induction h with
  | nil => exact ⟨rfl, rfl, rfl⟩
  | @cons ms r batch results hms _ ih =>
    obtain ⟨hobserved, hprocessed, hsettled⟩ := ih
    have hone := hms.processed
    have hfailed := hms.failed
    rw [List.flatten_cons, List.count_append, List.countP_append, List.countP_append, hms.observed, hobserved,
      List.length_cons]
    cases r with
    | none =>
      show _ ∧ _ = (results.filterMap id).length ∧ _
      simp only [Option.toList_none, List.length_nil] at hone hfailed
      omega
    | some i =>
      show _ ∧ _ = (i :: results.filterMap id).length ∧ _
      rw [List.length_cons]
      simp only [Option.toList_some, List.length_singleton] at hone hfailed
      omega

theorem acknowledged_of_ackDone {results : List (Option Nat)} {τ : List (Call (@Op.Reply P))} {x : Except Exn Unit}
    (h : Runs (ackDone results) τ x) : acknowledged τ = results.filterMap id := by
  rcases (runs_ackDone h).2 with ⟨hnil, rfl⟩ | ⟨-, r, rfl⟩
  · rw [hnil]
    rfl
  · exact List.append_nil _

theorem counted_of_pass (h : PassAt S worker loop pass) :
    ∃ own batch, pass.Updates S worker loop own batch ∧ TrueCounts loop pass own batch := by
  have hround {τ : List (Call (@Op.Reply P))} {x : Except Exn (Next P)} (hruns : Runs (round S worker loop) τ x) :
      (Metered.round S worker loop).Marking τ (roundMetrics τ loop) := by
    rw [← erase_round] at hruns
    obtain ⟨σ, hmetered, rfl⟩ := exists_runs_of_erase hruns
    exact ⟨σ, _, hmetered, rfl, marks_round hmetered⟩
  cases h with
  | round hcalls hnext =>
    refine ⟨_, [], ⟨hround hcalls, .nil⟩, ?_⟩
    exact ⟨rfl, .nil, rfl, rfl, rfl⟩
  | @batch τ acknowledgement handled results hcalls hresults hack =>
    obtain ⟨batch, hmarking, hcounted⟩ := exists_updates hresults
    obtain ⟨hobserved, hprocessed, hsettled⟩ := counts_of_batch hcounted
    refine ⟨_, batch, ⟨hround hcalls, hmarking⟩, rfl, hmarking.imp fun _ _ => called_of_marking, ?_, ?_, ?_⟩
    · rw [hobserved]
      exact hresults.length_eq.symm
    · rw [hsettled]
      exact hresults.length_eq.symm
    · rw [hprocessed, acknowledged_of_ackDone hack]

/-- The counters tell the truth. In every run of a worker, whatever its calls are answered, the calls of each
pass tell which metrics the code with its metrics has updated in it, and what was counted is what was done. -/
theorem counters_tell_the_truth {c : EventConsumer P}
    (h : EventConsumer.Run S worker (EventConsumer.start S worker) c) (loop : Loop) (pass : Pass P)
    (hpass : pass ∈ c.past loop) : ∃ own batch, pass.Updates S worker loop own batch ∧
      (∀ own' batch', pass.Updates S worker loop own' batch' → own' = own ∧ batch' = batch) ∧
      TrueCounts loop pass own batch := by
  obtain ⟨own, batch, hupdates, htrue⟩ := counted_of_pass ((EventConsumer.inv_run h).past loop pass hpass)
  exact ⟨own, batch, hupdates, fun _ _ h' => hupdates.unique h', htrue⟩

/-- The read fails once; then one message of three is processed, the acknowledgement fails, and the batch is
counted all the same. -/
theorem stoppedInABatch_is_counted : ∃ (c : EventConsumer EventIn) (pass : Pass EventIn) (own : List Metric)
    (batch : List (List Metric)), EventConsumer.Run (documentService { maxAttempts := 1 }) 0
      (EventConsumer.start (documentService { maxAttempts := 1 }) 0) c ∧ pass ∈ c.past .consume ∧
    pass.Updates (documentService { maxAttempts := 1 }) 0 .consume own batch ∧
    batch.flatten.countP Metric.isProcessed = 1 ∧ batch.flatten.countP Metric.isFailed = 2 := by
  obtain ⟨c, hrun, hp⟩ := Steps.exists_run (EventConsumer.step (documentService { maxAttempts := 1 }) 0)
    (EventConsumer.start (documentService { maxAttempts := 1 }) 0) stoppedInABatch
    (fun c => (c.past .consume).any fun pass =>
      pass.handled.length = 3 && (acknowledged pass.acknowledgement).length = 1) (by decide +kernel)
  obtain ⟨pass, hpass, hcounts⟩ := List.any_eq_true.1 hp
  simp only [Bool.and_eq_true, decide_eq_true_eq] at hcounts
  obtain ⟨own, batch, hupdates, -, htrue⟩ := counters_tell_the_truth hrun .consume pass hpass
  have hprocessed := htrue.processed
  have hsettled := htrue.settled
  exact ⟨c, pass, own, batch, hrun, hpass, hupdates, by omega, by omega⟩

/-! ## Requests -/

/-- The updates behind an answer. -/
def Response.updates : Response → List Metric
  | .started => []
  | .accepted _ _ => [.eventsReceived 1]
  | .batchAccepted _ messageIds => [.eventsReceived messageIds.length]
  | .failed 422 _ => []
  | .failed 413 _ => [.eventsRejected "batch_too_large"]
  | .failed 503 _ => [.eventsRejected "queue_unavailable"]
  | .failed _ _ => [.eventsRejected "internal_error"]

variable {σ : List (Call (Marked.Reply Metric (@Op.Reply P)))} {response : Response}

/-- An update and an answer. -/
theorem marks_of_answer {m : Metric} {x : Except Exn Response}
    (h : Runs ((Metered.count m).bind fun _ => .ret response : Metered P Response) σ x) :
    x = .ok response ∧ marks σ = [m] := by
  obtain ⟨σ₁, rfl, hend⟩ := runs_leave_bind_iff.1 h
  obtain ⟨rfl, rfl⟩ := runs_ret_iff.1 hend
  exact ⟨rfl, rfl⟩

theorem marks_complained {renders : Bool}
    (h : Runs (Metered.complained renders : Metered P Response) σ (.ok response)) : marks σ = response.updates := by
  cases renders with
  | false =>
    obtain ⟨heq, hone⟩ := marks_of_answer h
    rw [hone, Except.ok.inj heq]
    rfl
  | true =>
    obtain ⟨rfl, heq⟩ := runs_ret_iff.1 h
    rw [Except.ok.inj heq]
    rfl

theorem marks_respond {α : Type} {p : Code P α} {f : α → Response} {received : Nat}
    (h : Runs (Metered.respond p f received) σ (.ok response))
    (hreceived : ∀ τ a, Runs p τ (.ok a) → (f a).updates = [.eventsReceived received]) : marks σ = response.updates := by
  unfold Metered.respond at h
  rcases runs_bind_iff.1 h with ⟨e, -, heq⟩ | ⟨y, σ₁, σ₂, rfl, hruns, hrest⟩
  · cases heq
  obtain ⟨hcalls, hmarks⟩ := runs_bare_iff.1 hruns
  rw [marks_append, hmarks, List.nil_append]
  rcases y with (⟨cls, text⟩ | e) | a
  · obtain ⟨heq, hone⟩ := marks_of_answer hrest
    rw [hone, Except.ok.inj heq]
    rfl
  · dsimp only at hrest
    split at hrest
    · obtain ⟨heq, hone⟩ := marks_of_answer hrest
      rw [hone, Except.ok.inj heq]
      rfl
    · obtain ⟨heq, hone⟩ := marks_of_answer hrest
      rw [hone, Except.ok.inj heq]
      rfl
  · obtain ⟨heq, hone⟩ := marks_of_answer hrest
    obtain ⟨y, hy, hp⟩ := runs_attempt_iff.1 hcalls
    rw [hone, Except.ok.inj heq, hreceived _ a (Except.ok.inj hy ▸ hp)]

theorem marks_serve {r : Request} (h : Runs (Metered.serve S r) σ (.ok response)) : marks σ = response.updates := by
  cases r with
  | startup =>
    obtain ⟨hcalls, hmarks⟩ := runs_bare_iff.1 h
    rcases runs_bind_iff.1 hcalls with ⟨e, -, heq⟩ | ⟨_, τ₁, τ₂, -, -, hret⟩
    · cases heq
    · rw [hmarks, Except.ok.inj (runs_ret_iff.1 hret).2]
      rfl
  | event body =>
    change Runs (Metered.receiveEvent S body) σ (.ok response) at h
    unfold Metered.receiveEvent at h
    rcases hbody : validate body with (_ | _) | event
    all_goals rw [hbody] at h
    · exact marks_complained h
    · obtain ⟨heq, hone⟩ := marks_of_answer h
      rw [hone, Except.ok.inj heq]
      rfl
    · exact marks_respond h fun _ _ _ => rfl
  | events bodies =>
    change Runs (Metered.receiveEvents S bodies) σ (.ok response) at h
    unfold Metered.receiveEvents at h
    split at h
    · obtain ⟨rfl, heq⟩ := runs_ret_iff.1 h
      rw [Except.ok.inj heq]
      rfl
    · rcases hbodies : validateAll bodies with (_ | _) | events
      all_goals rw [hbodies] at h
      · exact marks_complained h
      · obtain ⟨heq, hone⟩ := marks_of_answer h
        rw [hone, Except.ok.inj heq]
        rfl
      · dsimp only at h
        split at h
        · obtain ⟨heq, hone⟩ := marks_of_answer h
          rw [hone, Except.ok.inj heq]
          rfl
        · refine marks_respond h fun τ ids hids => ?_
          -- there is an id for each event
          obtain ⟨replies, hlen, -, hreplies⟩ := runs_publishMany_iff.1 hids
          have hlength : ids.length = events.length := by
            rw [← hlen, firstError_ok (raised_ok_iff.1 hreplies.symm), List.length_map]
          rw [← hlength]
          rfl

/-- Each request is counted by its answer. In every run of the service, the calls that were made for a request
that was answered tell its updates: it has received as many events as the client was given ids, or was
rejected for the reason that the status says, or neither, if the body was not valid and could be shown. -/
theorem requests_are_counted {s : System P} {log : List (Event P)} (h : System.Chronicle S s log) {i : Nat} {r : Request}
    (hi : s.requests[i]? = some (r, .ret response)) :
    (Metered.serve S r).Marking (callsBy (.client i) log) response.updates ∧
      ∀ ms, (Metered.serve S r).Marking (callsBy (.client i) log) ms → ms = response.updates := by
  have hruns := ((provenance_of_chronicle h).requests i r _ hi).runs (.ret response)
  rw [List.append_nil, ← erase_serve] at hruns
  obtain ⟨σ, hmetered, hcalls⟩ := exists_runs_of_erase hruns
  have hmarking : (Metered.serve S r).Marking (callsBy (.client i) log) response.updates :=
    ⟨σ, _, hmetered, hcalls, marks_serve hmetered⟩
  exact ⟨hmarking, fun ms hms => hms.unique hmarking⟩

/-- A batch of which a part was appended is counted as rejected. -/
theorem partialBatchRun_is_counted : ∃ (s : System EventIn) (log : List (Event EventIn)) (i : Nat) (r : Request),
    System.Chronicle (documentService {}) s log ∧ s.world.stream.added.length = 3 ∧
    s.requests[i]? = some (r, .ret queueUnavailable) ∧
    (Metered.serve (documentService {}) r).Marking (callsBy (.client i) log) [.eventsRejected "queue_unavailable"] := by
  obtain ⟨s, log, h, hp⟩ := System.exists_chronicle_of (documentService {}) partialBatchRun
    (fun s _ => queueUnavailable ∈ s.answers && s.world.stream.added.length = 3) (by decide +kernel)
  simp only [Bool.and_eq_true, decide_eq_true_eq] at hp
  obtain ⟨⟨r, code⟩, hr, hanswer⟩ := List.mem_filterMap.1 hp.1
  obtain ⟨i, hi⟩ := List.mem_iff_getElem?.1 hr
  cases code with
  | op | raise => cases hanswer
  | ret response =>
    rw [Option.some.inj hanswer] at hi
    exact ⟨s, log, i, r, h, hp.2, hi, (requests_are_counted h hi).1⟩

end App
