/-
The code with its metrics, without them. Erasing the updates leaves the code as it is in the other modules, so
it makes the same calls. And the updates between the calls are those the calls tell: a handler counts its
retries, its lookups and its parked message, and what became of its message once; a round sets the gauges or
counts the messages it parked.
-/
import EventService.Model.Metrics
import EventService.Run.Passes

namespace App

open Prog

variable {P : Type} {S : Service P} {worker : Nat}

/-! ## Without the metrics -/

@[simp] theorem erase_getRate (currency : PyStr) : (Metered.getRate S currency).erase = getRate S currency := by
  unfold Metered.getRate getRate
  dsimp only
  split
  · rfl
  · rw [bind_eq, erase_bind, erase_bare]
    refine congrArg _ (funext fun cached => ?_)
    cases cached with
    | some cached => rfl
    | none =>
      show (Prog.op _ _ : Code P Decimal) = .op _ _
      refine congrArg _ (funext fun r => ?_)
      rcases r with e | rate
      · rcases e with ⟨cls, text⟩ | e
        · cases cls <;> rfl
        · rfl
      · show ((Metered.plain (writeCache S _ rate)).bind fun _ => _).erase = _
        rw [erase_bind, erase_bare]
        rfl

@[simp] theorem erase_process (event : TransactionEvent) : (Metered.process S event).erase = process S event := by
  unfold Metered.process process
  simp only [bind_eq, erase_bind, erase_bare, erase_getRate, erase_ofExcept]
  congr 1
  funext rate
  congr 1
  funext _
  congr 1
  funext amountUsd
  congr 1
  funext now
  congr 1
  funext inserted
  cases inserted <;> rfl

theorem erase_retryFrom {α : Type} (operation : Metered P α) (maxAttempts : Nat) (baseDelay maxDelay : ℚ)
    (onRetry : Metered P Unit) (last : Option Exn) (remaining : Nat) :
    (Metered.retryFrom operation maxAttempts baseDelay maxDelay onRetry last remaining).erase =
      retryFrom operation.erase maxAttempts baseDelay maxDelay onRetry.erase last remaining := by
  induction remaining generalizing last with
  | zero =>
    unfold Metered.retryFrom retryFrom
    cases last <;> rfl
  | succ remaining ih =>
    unfold Metered.retryFrom retryFrom
    simp only [bind_eq, erase_bind, erase_attempt]
    congr 1
    funext x
    cases x with
    | ok a => rfl
    | error e =>
      simp only [erase_ite, erase_raise, erase_bind, erase_bare, ih]

@[simp] theorem erase_handleEvent (m : QueuedMessage P) : (Metered.handleEvent S m).erase = handleEvent S m := by
  unfold Metered.handleEvent handleEvent Metered.retryTransient retryTransient
  simp only [bind_eq, erase_bind, erase_ofExcept, erase_ite, erase_raise, erase_retryFrom, erase_process, erase_leave]
  rfl

@[simp] theorem erase_tryDeadLetter (m : QueuedMessage P) (reason : String) :
    (Metered.tryDeadLetter m reason).erase = tryDeadLetter m reason := by
  unfold Metered.tryDeadLetter tryDeadLetter
  simp only [bind_eq, erase_bind, erase_attempt, erase_bare, erase_leave]
  unfold deadLetter
  show Prog.op _ _ = Prog.op _ _
  refine congrArg _ (funext fun r => ?_)
  cases r <;> rfl

/-- A handler without its metrics is the handler. -/
@[simp] theorem erase_handleOne (m : QueuedMessage P) : (Metered.handleOne S m).erase = handleOne S m := by
  unfold Metered.handleOne handleOne
  simp only [bind_eq, erase_bind, erase_attempt, erase_handleEvent]
  congr 1
  funext x
  cases x with
  | ok outcome => rfl
  | error e =>
    simp only [erase_ite, erase_bind, erase_leave, erase_tryDeadLetter, ret_bind]
    split
    · rfl
    · split <;> rfl

@[simp] theorem erase_retryable (messages : List (QueuedMessage P)) :
    (Metered.retryable S messages).erase = retryable S messages := by
  induction messages with
  | nil => rfl
  | cons message messages ih =>
    unfold Metered.retryable retryable
    simp only [bind_eq, erase_ite, erase_bind, erase_tryDeadLetter, ih]
    rfl

theorem erase_reclaimRound : (Metered.reclaimRound S worker).erase = reclaimRound S worker := by
  unfold Metered.reclaimRound reclaimRound
  rw [bind_eq, erase_bind, erase_bare]
  refine congrArg _ (funext fun stop => ?_)
  cases stop with
  | true => rfl
  | false =>
    -- the pause, and the second look at the stop flag
    show Prog.op _ _ = Prog.op _ _
    refine congrArg _ (funext fun _ => ?_)
    show Prog.op _ _ = Prog.op _ _
    refine congrArg _ (funext fun stop => ?_)
    cases stop with
    | true => rfl
    | false =>
      show (Prog.bind (Metered.plain (reclaim S worker).attempt) _).erase = Prog.bind (reclaim S worker).attempt _
      rw [erase_bind, erase_bare]
      refine congrArg _ (funext fun x => ?_)
      cases x with
      | error e => rfl
      | ok messages =>
        simp only [bind_eq, erase_ite, erase_bind, erase_retryable]
        rfl

theorem erase_metricsRound : (Metered.metricsRound S worker).erase = metricsRound S worker := by
  unfold Metered.metricsRound metricsRound
  rw [bind_eq, erase_bind, erase_bare]
  refine congrArg _ (funext fun stop => ?_)
  cases stop with
  | true => rfl
  | false =>
    -- what the gauges are set to does not matter behind them
    have hshown : ((Metered.plain stats).bind fun health => Metered.setGauges health : Metered P Unit).erase =
        stats.bind fun _ => .ret () := by
      rw [erase_bind, erase_bare]
      rfl
    show (Prog.bind (Prog.attempt (Prog.bind _ _)) _).erase = Prog.bind (Prog.attempt stats) _
    rw [erase_bind, erase_attempt, hshown, attempt_map, bind_assoc]
    rfl

/-- No round of a loop does anything else for its metrics. -/
@[simp] theorem erase_round (loop : Loop) : (Metered.round S worker loop).erase = round S worker loop := by
  cases loop with
  | consume => exact erase_bare _
  | reclaim => exact erase_reclaimRound
  | metrics => exact erase_metricsRound

theorem erase_respond {α : Type} (p : Code P α) (f : α → Response) (received : Nat) :
    (Metered.respond p f received).erase = respond p f := by
  unfold Metered.respond respond
  rw [bind_eq, erase_bind, erase_bare]
  refine congrArg _ (funext fun x => ?_)
  rcases x with (⟨cls, text⟩ | e) | a
  · rfl
  · dsimp only
    split <;> rfl
  · rfl

theorem erase_complained (renders : Bool) :
    (Metered.complained renders : Metered P Response).erase = .ret (App.complained renders) := by
  cases renders
  · rfl
  · rfl

/-- A request is served as it is without the metrics. -/
@[simp] theorem erase_serve (r : Request) : (Metered.serve S r).erase = serve S r := by
  cases r with
  | startup => exact erase_bare _
  | event body =>
    show (Metered.receiveEvent S body).erase = receiveEvent S body
    unfold Metered.receiveEvent receiveEvent
    rcases validate body with (_ | _) | event
    · exact erase_complained _
    · rfl
    · exact erase_respond _ _ _
  | events bodies =>
    show (Metered.receiveEvents S bodies).erase = receiveEvents S bodies
    unfold Metered.receiveEvents receiveEvents
    rw [erase_ite]
    split
    · rfl
    · rcases validateAll bodies with (_ | _) | events
      · exact erase_complained _
      · rfl
      · show (if _ then _ else _ : Metered P Response).erase = if _ then _ else _
        rw [erase_ite, erase_respond]
        rfl

/-! ## Handlers -/

/-- The metrics that are counted for a call, or for an attempt that is made again. -/
def Metric.isOfCall : Metric → Bool
  | .eventsRetried | .eventsDeadLettered | .rateLookups .fetched | .rateLookups .failed => true
  | .eventsReceived _ | .eventsRejected _ | .eventsProcessed _ | .eventsFailed _ | .processingSeconds | .queueLag _
  | .queuePending _ | .queueLength _ | .dlqLength _ | .rateLookups .cacheHit => false

def Metric.isProcessed : Metric → Bool
  | .eventsProcessed _ => true
  | .eventsReceived _ | .eventsRejected _ | .eventsFailed _ | .eventsRetried | .eventsDeadLettered | .processingSeconds
  | .queueLag _ | .queuePending _ | .queueLength _ | .dlqLength _ | .rateLookups _ => false

def Metric.isFailed : Metric → Bool
  | .eventsFailed _ => true
  | .eventsReceived _ | .eventsRejected _ | .eventsProcessed _ | .eventsRetried | .eventsDeadLettered | .processingSeconds
  | .queueLag _ | .queuePending _ | .queueLength _ | .dlqLength _ | .rateLookups _ => false

/-- How a message that was parked is counted. -/
def parkedAs : Call (@Op.Reply P) → Option Metric
  | ⟨.deadLetter _, .ok _⟩ => some .eventsDeadLettered
  | ⟨_, _⟩ => none

/-- How a call of a handler is counted: it pauses only between two attempts. -/
def countedAs : Call (@Op.Reply P) → Option Metric
  | ⟨.sleep _, _⟩ => some .eventsRetried
  | ⟨.fetch _, .ok _⟩ => some (.rateLookups .fetched)
  | ⟨.fetch _, .error _⟩ => some (.rateLookups .failed)
  | ⟨.deadLetter _, .ok _⟩ => some .eventsDeadLettered
  | ⟨_, _⟩ => none

/-- The call is not counted. -/
abbrev Op.Uncounted (o : Op P) : Prop := ∀ r, countedAs ⟨o, r⟩ = none

theorem uncounted_readCache (currency : PyStr) : (readCache S currency).Only Op.Uncounted := by
  unfold readCache
  split
  · refine Only.bind (only_perform fun _ => rfl) fun r => ?_
    rcases r with e | _ | raw
    · dsimp only
      split <;> trivial
    · trivial
    · trivial
  · trivial

theorem uncounted_writeCache (currency : PyStr) (rate : Decimal) :
    (writeCache S currency rate).Only Op.Uncounted := by
  unfold writeCache
  split
  · refine Only.bind (only_perform fun _ => rfl) fun r => ?_
    rcases r with e | u
    · dsimp only
      split <;> trivial
    · trivial
  · trivial

theorem uncounted_store (values : Values) : (store S values).Only Op.Uncounted := by
  unfold store withSession
  refine Only.bind (Only.attempt (Only.bind (only_ask_lift fun _ => rfl) fun session => ?_)) fun written => ?_
  · refine Only.bind (Only.attempt ?_) fun ended => Only.bind (only_ask_lift fun _ => rfl) fun _ => only_ofExcept _
    refine Only.bind ?_ fun _ => Only.bind (only_ask_lift fun _ => rfl) fun _ => trivial
    unfold insertIfAbsent
    exact Only.bind (only_ask_lift fun _ => rfl) fun _ => trivial
  · cases written with
    | ok inserted => trivial
    | error e => exact only_ofExcept _

theorem tallies_getRate (currency : PyStr) :
    (Metered.getRate S currency).Tallies Metric.isOfCall countedAs [] := by
  unfold Metered.getRate
  dsimp only
  split
  · exact tallies_leave_other rfl (tallies_ret _)
  · refine (tallies_bare (uncounted_readCache _)).bind fun cached => ?_
    cases cached with
    | some cached => exact tallies_leave_other rfl (tallies_ret _)
    | none =>
      -- each way out of the lookup leaves the mark that the call owes
      refine tallies_perform_bind fun r => ?_
      rcases r with e | rate
      · rcases e with ⟨cls, text⟩ | e
        · cases cls <;> exact tallies_leave_owed rfl (tallies_raise _)
        · exact tallies_leave_owed rfl (tallies_raise _)
      · exact tallies_leave_owed rfl ((tallies_bare (uncounted_writeCache _ _)).bind fun _ => tallies_ret _)

theorem tallies_process (event : TransactionEvent) :
    (Metered.process S event).Tallies Metric.isOfCall countedAs [] := by
  unfold Metered.process
  refine (tallies_getRate _).bind fun rate => ?_
  refine (tallies_bare (only_perform fun _ => rfl)).bind fun _ => ?_
  refine (tallies_ofExcept _).bind fun amountUsd => ?_
  refine (tallies_bare (only_perform fun _ => rfl)).bind fun now => ?_
  refine (tallies_bare (uncounted_store _)).bind fun inserted => ?_
  cases inserted <;> exact tallies_ret _

theorem tallies_retryFrom {α : Type} {operation : Metered P α} {maxAttempts : Nat} {baseDelay maxDelay : ℚ}
    (h : operation.Tallies Metric.isOfCall countedAs []) (last : Option Exn) (remaining : Nat) :
    (Metered.retryFrom operation maxAttempts baseDelay maxDelay (Metered.count .eventsRetried) last remaining).Tallies
      Metric.isOfCall countedAs [] := by
  induction remaining generalizing last with
  | zero =>
    unfold Metered.retryFrom
    cases last <;> exact tallies_raise _
  | succ remaining ih =>
    unfold Metered.retryFrom
    refine h.attempt.bind fun x => ?_
    cases x with
    | ok a => exact tallies_ret a
    | error e =>
      dsimp only
      split
      · split
        · exact tallies_raise _
        · -- the attempt that is made again is counted in front of its pause
          refine (tallies_bare (only_backoffDelay _ fun _ _ => rfl)).bind fun delay => ?_
          exact tallies_leave_ahead rfl (fun _ => rfl) fun _ => ih _
      · exact tallies_raise _

theorem tallies_handleEvent (m : QueuedMessage P) :
    (Metered.handleEvent S m).Tallies Metric.isOfCall countedAs [] := by
  unfold Metered.handleEvent Metered.retryTransient
  refine (tallies_ofExcept _).bind fun event => ?_
  split
  · exact tallies_raise _
  · exact tallies_retryFrom (tallies_process event) none _

/-- A message is counted as parked if the dead-letter stream confirmed it. -/
theorem tallies_tryDeadLetter {f : Call (@Op.Reply P) → Option Metric} {keep : Metric → Bool} {m : QueuedMessage P}
    {reason : String} (hkeep : keep .eventsDeadLettered = true)
    (hf : ∀ entry r, f ⟨.deadLetter entry, r⟩ = parkedAs ⟨.deadLetter entry, r⟩) :
    (Metered.tryDeadLetter m reason).Tallies keep f [] := by
  unfold Metered.tryDeadLetter deadLetter
  refine Tallies.bind (Tallies.attempt ?_) fun _ => tallies_ret _
  have hcall : ((Metered.plain (ask (.deadLetter (m.record reason)))).bind fun r =>
      (Metered.plain (lift r)).bind fun _ => Metered.count .eventsDeadLettered).Tallies keep f [] := by
    refine tallies_perform_bind fun r => ?_
    rw [hf]
    rcases r with e | u
    · exact tallies_raise _
    · exact tallies_leave_owed hkeep (tallies_ret ())
  exact hcall

theorem tallies_handleOne (m : QueuedMessage P) : (Metered.handleOne S m).Tallies Metric.isOfCall countedAs [] := by
  unfold Metered.handleOne
  refine (tallies_handleEvent m).attempt.bind fun x => ?_
  cases x with
  | ok outcome => exact tallies_leave_other rfl (tallies_leave_other rfl (tallies_ret _))
  | error e =>
    dsimp only
    split
    · refine tallies_leave_other rfl ((tallies_tryDeadLetter rfl fun _ r => ?_).bind fun _ => ?_)
      · cases r <;> rfl
      · exact tallies_leave_other rfl (tallies_ret _)
    · split <;> exact tallies_leave_other rfl (tallies_leave_other rfl (tallies_ret _))

/-- Not one of the metrics that a handler updates once. -/
abbrev Metric.Inner (m : Metric) : Prop := m.isProcessed = false ∧ m.isFailed = false ∧ m ≠ .processingSeconds

theorem inner_getRate (currency : PyStr) : (Metered.getRate S currency).Only (Leaves Metric.Inner) := by
  have hlookup (result : LookupResult) : (Metered.count (.rateLookups result) : Metered P Unit).Only (Leaves Metric.Inner) :=
    only_leave (by simp [Metric.Inner, Metric.isProcessed, Metric.isFailed])
  unfold Metered.getRate
  dsimp only
  split
  · exact Only.bind (hlookup _) fun _ => trivial
  · refine Only.bind (only_bare _ _) fun cached => ?_
    cases cached with
    | some cached => exact Only.bind (hlookup _) fun _ => trivial
    | none =>
      refine Only.bind (only_bare _ _) fun r => ?_
      rcases r with e | rate
      · rcases e with ⟨cls, text⟩ | e
        · cases cls <;> exact Only.bind (hlookup _) fun _ => trivial
        · exact Only.bind (hlookup _) fun _ => trivial
      · exact Only.bind (hlookup _) fun _ => Only.bind (only_bare _ _) fun _ => trivial

theorem inner_process (event : TransactionEvent) : (Metered.process S event).Only (Leaves Metric.Inner) := by
  unfold Metered.process
  refine Only.bind (inner_getRate _) fun rate => Only.bind (only_bare _ _) fun _ => ?_
  refine Only.bind (only_ofExcept _) fun amountUsd => Only.bind (only_bare _ _) fun now => ?_
  refine Only.bind (only_bare _ _) fun inserted => ?_
  cases inserted <;> trivial

theorem inner_retryFrom {α : Type} {operation : Metered P α} {maxAttempts : Nat} {baseDelay maxDelay : ℚ}
    (h : operation.Only (Leaves Metric.Inner)) (last : Option Exn) (remaining : Nat) :
    (Metered.retryFrom operation maxAttempts baseDelay maxDelay (Metered.count .eventsRetried) last remaining).Only
      (Leaves Metric.Inner) := by
  induction remaining generalizing last with
  | zero =>
    unfold Metered.retryFrom
    cases last <;> trivial
  | succ remaining ih =>
    unfold Metered.retryFrom
    refine Only.bind h.attempt fun x => ?_
    cases x with
    | ok a => trivial
    | error e =>
      dsimp only
      split
      · split
        · trivial
        · refine Only.bind (only_bare _ _) fun delay => Only.bind (only_leave ?_) fun _ => ?_
          · simp [Metric.Inner, Metric.isProcessed, Metric.isFailed]
          · exact Only.bind (only_bare _ _) fun _ => ih _
      · trivial

theorem inner_handleEvent (m : QueuedMessage P) : (Metered.handleEvent S m).Only (Leaves Metric.Inner) := by
  unfold Metered.handleEvent Metered.retryTransient
  refine Only.bind (only_ofExcept _) fun event => ?_
  split
  · trivial
  · exact inner_retryFrom (inner_process event) none _

theorem marks_tryDeadLetter {m : QueuedMessage P} {reason : String} {σ : List (Call (Marked.Reply Metric (@Op.Reply P)))}
    {x : Except Exn Unit} (h : Runs (Metered.tryDeadLetter m reason) σ x) :
    x = .ok () ∧ (marks σ = [] ∨ marks σ = [.eventsDeadLettered]) := by
  have hruns := h.erase
  rw [erase_tryDeadLetter] at hruns
  obtain ⟨r, hcalls, rfl⟩ := runs_tryDeadLetter hruns
  have htallies : (Metered.tryDeadLetter m reason).Tallies (fun _ => true) parkedAs [] :=
    tallies_tryDeadLetter rfl fun _ _ => rfl
  have hmarks := htallies _ _ h
  rw [hcalls, List.filter_eq_self.2 fun _ _ => rfl] at hmarks
  refine ⟨rfl, ?_⟩
  rw [hmarks]
  rcases r with e | u
  · exact Or.inl rfl
  · exact Or.inr rfl

/-- How a handler is counted: its time once, and the message as processed if its id is returned, and as
failed if not. -/
structure CountedOnce (ms : List Metric) (r : Option Nat) : Prop where
  observed : ms.count .processingSeconds = 1
  processed : ms.countP Metric.isProcessed = r.toList.length
  failed : ms.countP Metric.isFailed + r.toList.length = 1

theorem CountedOnce.behind {inner ms : List Metric} {r : Option Nat} (hinner : ∀ m ∈ inner, m.Inner)
    (h : CountedOnce ms r) : CountedOnce (inner ++ ms) r where
  observed := by
    rw [List.count_append, List.count_eq_zero.2 fun hm => (hinner _ hm).2.2 rfl, h.observed]
  processed := by
    rw [List.countP_append, List.countP_eq_zero.2 fun m hm => by simp [(hinner m hm).1], h.processed, Nat.zero_add]
  failed := by
    rw [List.countP_append, List.countP_eq_zero.2 fun m hm => by simp [(hinner m hm).2.1], Nat.zero_add, h.failed]

/-- Two updates and the end of the handler. -/
theorem marks_of_updates {m m' : Metric} {r : Option Nat} {σ : List (Call (Marked.Reply Metric (@Op.Reply P)))}
    {x : Except Exn (Option Nat)}
    (h : Runs ((Metered.count m).bind fun _ => (Metered.count m').bind fun _ => .ret r : Metered P (Option Nat)) σ x) :
    x = .ok r ∧ marks σ = [m, m'] := by
  obtain ⟨σ₁, rfl, hrest⟩ := runs_leave_bind_iff.1 h
  obtain ⟨σ₂, rfl, hend⟩ := runs_leave_bind_iff.1 hrest
  obtain ⟨rfl, rfl⟩ := runs_ret_iff.1 hend
  exact ⟨rfl, rfl⟩

theorem countedOnce_handleOne {m : QueuedMessage P} {σ : List (Call (Marked.Reply Metric (@Op.Reply P)))}
    {x : Except Exn (Option Nat)} (h : Runs (Metered.handleOne S m) σ x) : ∃ r, x = .ok r ∧ CountedOnce (marks σ) r := by
  unfold Metered.handleOne at h
  obtain ⟨y, σ₁, σ₂, rfl, hevent, hrest⟩ := runs_attempt_bind_iff.1 h
  rw [marks_append]
  -- it is the updates behind the event that count
  have hinner := hevent.marks_of_only (inner_handleEvent m)
  cases y with
  | ok outcome =>
    obtain ⟨rfl, hmarks⟩ := marks_of_updates hrest
    exact ⟨_, rfl, .behind hinner (hmarks ▸ ⟨rfl, rfl, rfl⟩)⟩
  | error e =>
    dsimp only at hrest
    split at hrest
    · obtain ⟨σ₃, rfl, hdead⟩ := runs_leave_bind_iff.1 hrest
      rcases runs_bind_iff.1 hdead with ⟨e', hruns, -⟩ | ⟨_, σ₄, σ₅, rfl, hruns, htail⟩
      · cases (marks_tryDeadLetter hruns).1
      · obtain ⟨σ₆, rfl, hend⟩ := runs_leave_bind_iff.1 htail
        obtain ⟨rfl, rfl⟩ := runs_ret_iff.1 hend
        refine ⟨_, rfl, .behind hinner ?_⟩
        show CountedOnce (_ :: marks (σ₄ ++ _)) none
        rw [marks_append]
        rcases (marks_tryDeadLetter hruns).2 with hnone | hone
        · rw [hnone]
          exact ⟨rfl, rfl, rfl⟩
        · rw [hone]
          exact ⟨rfl, rfl, rfl⟩
    · split at hrest
      · obtain ⟨rfl, hmarks⟩ := marks_of_updates hrest
        exact ⟨_, rfl, .behind hinner (hmarks ▸ ⟨rfl, rfl, rfl⟩)⟩
      · obtain ⟨rfl, hmarks⟩ := marks_of_updates hrest
        exact ⟨_, rfl, .behind hinner (hmarks ▸ ⟨rfl, rfl, rfl⟩)⟩

/-! ## Rounds -/

/-- What the gauges are set to in a round of the metrics loop: nothing, unless all three calls are answered. -/
def gaugesOf : List (Call (@Op.Reply P)) → List Metric
  | [_, ⟨.xlen, .ok length⟩, ⟨.xlenDlq, .ok dlqLength⟩, ⟨.xinfoGroups, .ok group⟩, _] =>
    [.queueLength length, .queuePending (group.getD (0, 0)).1, .queueLag (group.getD (0, 0)).2, .dlqLength dlqLength]
  | _ => []

/-- The updates of a round: the gauges, or the messages that were parked. -/
def roundMetrics (calls : List (Call (@Op.Reply P))) : Loop → List Metric
  | .metrics => gaugesOf calls
  | .consume | .reclaim => calls.filterMap parkedAs

theorem tallies_retryable (messages : List (QueuedMessage P)) :
    (Metered.retryable S messages).Tallies (fun _ => true) parkedAs [] := by
  induction messages with
  | nil => exact tallies_ret _
  | cons message messages ih =>
    unfold Metered.retryable
    split
    · exact (tallies_tryDeadLetter rfl fun _ _ => rfl).bind fun _ => ih
    · exact ih.bind fun _ => tallies_ret _

theorem unparked_consumeRound : (consumeRound S worker).Only fun o => ∀ r, parkedAs ⟨o, r⟩ = none := by
  unfold consumeRound stopIsSet read
  refine Only.bind (only_perform fun _ => rfl) fun stop => ?_
  cases stop with
  | true => trivial
  | false =>
    refine Only.bind (Only.attempt (Only.bind (only_ask_lift fun _ => rfl) fun _ => trivial)) fun x => ?_
    rcases x with e | messages
    · exact Only.bind (only_perform fun _ => rfl) fun _ => trivial
    · dsimp only
      split
      · trivial
      · split
        · exact Only.bind (only_perform fun _ => rfl) fun _ => trivial
        · trivial

theorem unparked_reclaim : (reclaim S worker).Only fun o => ∀ r, parkedAs ⟨o, r⟩ = none := by
  have hack (ids : List Nat) : (ack ids : Code P Nat).Only fun o => ∀ r, parkedAs ⟨o, r⟩ = none := by
    unfold ack
    split
    · trivial
    · exact only_ask_lift fun _ => rfl
  unfold reclaim claimStale autoclaim deliveryCounts
  refine Only.bind (Only.bind (only_ask_lift fun _ => rfl) ?_) ?_
  · rintro ⟨claimed, deleted⟩
    dsimp only
    split
    · trivial
    · refine Only.bind ?_ fun counts => trivial
      split
      · trivial
      · exact Only.bind (only_ask_lift fun _ => rfl) fun pending => trivial
  · rintro ⟨messages, deleted⟩
    dsimp only
    split
    · exact Only.bind (hack _) fun _ => trivial
    · trivial

theorem tallies_reclaimRound : (Metered.reclaimRound S worker).Tallies (fun _ => true) parkedAs [] := by
  unfold Metered.reclaimRound stopIsSet
  refine (tallies_bare (only_perform fun _ => rfl)).bind fun stop => ?_
  cases stop with
  | true => exact tallies_ret _
  | false =>
    refine (tallies_bare (only_perform fun _ => rfl)).bind fun _ => ?_
    refine (tallies_bare (only_perform fun _ => rfl)).bind fun stop => ?_
    cases stop with
    | true => exact tallies_ret _
    | false =>
      refine (tallies_bare (Only.attempt unparked_reclaim)).bind fun x => ?_
      rcases x with e | messages
      · exact tallies_ret _
      · dsimp only
        split
        · exact tallies_ret _
        · refine (tallies_retryable messages).bind fun kept => ?_
          split <;> exact tallies_ret _

/-- The three calls of `stats`, and what becomes of them. -/
theorem runs_stats {τ : List (Call (@Op.Reply P))} {y : Except Exn QueueStats} (h : Runs stats τ y) :
    (∃ length dlqLength group, τ = [⟨.xlen, .ok length⟩, ⟨.xlenDlq, .ok dlqLength⟩, ⟨.xinfoGroups, .ok group⟩] ∧
      y = .ok ⟨length, (group.getD (0, 0)).1, (group.getD (0, 0)).2, dlqLength⟩) ∨
    (∃ e, y = .error e) ∧ ∀ first last, gaugesOf (first :: (τ ++ [last])) = [] := by
  unfold stats at h
  obtain ⟨length, τ₁, rfl, h₁⟩ := runs_op_iff.1 h
  rcases length with e | length
  · obtain ⟨rfl, rfl⟩ := runs_raise_iff.1 h₁
    exact Or.inr ⟨⟨_, rfl⟩, fun _ _ => rfl⟩
  · obtain ⟨dlqLength, τ₂, rfl, h₂⟩ := runs_op_iff.1 h₁
    rcases dlqLength with e | dlqLength
    · obtain ⟨rfl, rfl⟩ := runs_raise_iff.1 h₂
      exact Or.inr ⟨⟨_, rfl⟩, fun _ _ => rfl⟩
    · obtain ⟨group, τ₃, rfl, h₃⟩ := runs_op_iff.1 h₂
      rcases group with e | group
      · obtain ⟨rfl, rfl⟩ := runs_raise_iff.1 h₃
        exact Or.inr ⟨⟨_, rfl⟩, fun _ _ => rfl⟩
      · refine Or.inl ⟨length, dlqLength, group, ?_⟩
        rcases group with _ | ⟨pending, lag⟩
        · obtain ⟨rfl, rfl⟩ := runs_ret_iff.1 h₃
          exact ⟨rfl, rfl⟩
        · obtain ⟨rfl, rfl⟩ := runs_ret_iff.1 h₃
          exact ⟨rfl, rfl⟩

theorem marks_metricsRound {σ : List (Call (Marked.Reply Metric (@Op.Reply P)))} {x : Except Exn (Next P)}
    (h : Runs (Metered.metricsRound S worker) σ x) : marks σ = gaugesOf (calls σ) := by
  unfold Metered.metricsRound stopIsSet at h
  obtain ⟨stop, σ₁, rfl, h₁⟩ := runs_op_iff.1 h
  cases stop with
  | true =>
    obtain ⟨rfl, rfl⟩ := runs_ret_iff.1 h₁
    rfl
  | false =>
    obtain ⟨y, σ₂, σ₃, rfl, hshown, hsleep⟩ := runs_attempt_bind_iff.1 h₁
    obtain ⟨_, σ₄, rfl, hend⟩ := runs_op_iff.1 hsleep
    obtain ⟨rfl, rfl⟩ := runs_ret_iff.1 hend
    show marks (σ₂ ++ _) = gaugesOf (_ :: calls (σ₂ ++ _))
    rw [marks_append, calls_append]
    rcases runs_bind_iff.1 hshown with ⟨e, hstats, rfl⟩ | ⟨health, σ₅, σ₆, rfl, hstats, hset⟩
    · obtain ⟨hcalls, hmarks⟩ := runs_bare_iff.1 hstats
      rcases runs_stats hcalls with ⟨_, _, _, -, heq⟩ | ⟨-, hnone⟩
      · cases heq
      · rw [hmarks]
        exact (hnone _ _).symm
    · obtain ⟨hcalls, hmarks⟩ := runs_bare_iff.1 hstats
      obtain ⟨σ₇, rfl, h₇⟩ := runs_leave_bind_iff.1 hset
      obtain ⟨σ₈, rfl, h₈⟩ := runs_leave_bind_iff.1 h₇
      obtain ⟨σ₉, rfl, h₉⟩ := runs_leave_bind_iff.1 h₈
      obtain ⟨_, _, rfl, hret⟩ := runs_op_iff.1 h₉
      obtain ⟨rfl, -⟩ := runs_ret_iff.1 hret
      rcases runs_stats hcalls with ⟨length, dlqLength, group, hτ, heq⟩ | ⟨⟨e, heq⟩, -⟩
      · obtain rfl := Except.ok.inj heq
        rw [marks_append, calls_append, hmarks, hτ]
        rfl
      · cases heq

/-- The updates of a round are told by its calls. -/
theorem marks_round {loop : Loop} {σ : List (Call (Marked.Reply Metric (@Op.Reply P)))} {x : Except Exn (Next P)}
    (h : Runs (Metered.round S worker loop) σ x) : marks σ = roundMetrics (calls σ) loop := by
  have hall : ∀ ms : List Metric, ms.filter (fun _ => true) = ms := fun ms => List.filter_eq_self.2 fun _ _ => rfl
  cases loop with
  | consume =>
    have htallies : (Metered.plain (consumeRound S worker)).Tallies (fun _ => true) parkedAs [] :=
      tallies_bare unparked_consumeRound
    rw [← hall (marks σ)]
    exact htallies _ _ h
  | reclaim =>
    rw [← hall (marks σ)]
    exact tallies_reclaimRound _ _ h
  | metrics => exact marks_metricsRound h

end App
