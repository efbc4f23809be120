/-
The attempts at one message. The calls `retry_transient` makes are those of its attempts, with a random
delay between any two: every attempt but the last fails with a transient error, and what the last one
ends with is what the code around it sees. The calls determine where each attempt ends.
-/
import EventService.Run.Retrying
import EventService.Model.Consumer

namespace App

open Prog

variable {P : Type}

/-! ## Retrying -/

/-- The calls are those of attempts with these results, and of the delays between them. -/
inductive Attempts {α : Type} (operation : Code P α) : List (Call (@Op.Reply P)) → List (Except Exn α) → Prop
  | last {τ : List (Call Op.Reply)} {x : Except Exn α} (h : Runs operation τ x) : Attempts operation τ [x]
  | again {τ τ' : List (Call Op.Reply)} {x : Except Exn α} {xs : List (Except Exn α)} {hi delay : ℚ}
    (h : Runs operation τ x) (h' : Attempts operation τ' xs) :
    Attempts operation (τ ++ ⟨.uniform hi, delay⟩ :: ⟨.sleep delay, ()⟩ :: τ') (x :: xs)

/-- The attempts that a run of `retry_transient` with the result `x` consists of. A result that is no transient
failure decides it, and `x` is the result of an attempt, unless no delay could be drawn before the next one. -/
structure Retried {α : Type} (operation : Code P α) (maxAttempts : Nat) (τ : List (Call (@Op.Reply P)))
    (xs : List (Except Exn α)) (x : Except Exn α) : Prop where
  attempts : Attempts operation τ xs
  length : xs.length ≤ maxAttempts
  decided : ∀ y ∈ xs, (∀ e, y = .error e → e.isTransient = false) → y = x
  result : x ∈ xs ∨ x = .error intTooLarge

theorem Attempts.ne_nil {α : Type} {operation : Code P α} {τ : List (Call Op.Reply)} {xs : List (Except Exn α)}
    (h : Attempts operation τ xs) : xs ≠ [] := by
  cases h <;> simp

/-- The calls determine the attempts. -/
theorem Attempts.unique {α : Type} {operation : Code P α} {τ : List (Call Op.Reply)} {xs ys : List (Except Exn α)}
    (h : Attempts operation τ xs) (h' : Attempts operation τ ys) : xs = ys := by
  induction h generalizing ys with
  | @last τ x h =>
    generalize hτ : τ = σ at h'
    cases h' with
    | last h' =>
      rw [(h.prefix_unique h' (congrArg (· ++ []) hτ)).2]
    | again h' _ =>
      -- the first attempt ends before its trace does
      obtain ⟨hτ', -⟩ := h.prefix_unique h' ((List.append_nil _).trans hτ)
      rw [hτ'] at hτ
      simp at hτ
  | @again τ τ' x xs hi delay h htail ih =>
    generalize hτ : τ ++ ⟨.uniform hi, delay⟩ :: ⟨.sleep delay, ()⟩ :: τ' = σ at h'
    cases h' with
    | last h' =>
      obtain ⟨hτ', -⟩ := h.prefix_unique h' (hτ.trans (List.append_nil _).symm)
      rw [hτ'] at hτ
      simp at hτ
    | again h' htail' =>
      obtain ⟨rfl, rfl⟩ := h.prefix_unique h' hτ
      obtain ⟨-, hrest⟩ := List.cons.inj (List.append_cancel_left hτ)
      obtain ⟨-, rfl⟩ := List.cons.inj hrest
      rw [ih htail']

variable {α : Type} {operation : Code P α} {maxAttempts : Nat} {baseDelay maxDelay : ℚ}

/-- One attempt ends the loop, or fails with a transient error and is followed by the others, if it can be. -/
theorem runs_retryFrom_succ {remaining : Nat} {last : Option Exn} {τ : List (Call Op.Reply)} {x : Except Exn α}
    (hlt : remaining < maxAttempts)
    (h : Runs (retryFrom operation maxAttempts baseDelay maxDelay (pure ()) last (remaining + 1)) τ x) :
    Runs operation τ x ∨
      (∃ e τ₁ τ₂ hi delay, 0 < remaining ∧ e.isTransient = true ∧
        τ = τ₁ ++ ⟨.uniform hi, delay⟩ :: ⟨.sleep delay, ()⟩ :: τ₂ ∧ Runs operation τ₁ (.error e) ∧
        Runs (retryFrom operation maxAttempts baseDelay maxDelay (pure ()) (some e) remaining) τ₂ x) ∨
      ∃ e, e.isTransient = true ∧ Runs operation τ (.error e) ∧ x = .error intTooLarge := by
  obtain ⟨i, hi⟩ : ∃ i, i + remaining + 1 = maxAttempts := ⟨maxAttempts - remaining - 1, by omega⟩
  have hreturns : (pure () : Code P Unit).NeverRaises := trivial
  rcases (runs_retryFrom_succ_iff hi hreturns).1 h with
    ⟨hlast, -⟩ | ⟨e, τ₁, delay, τ₂, τ₃, ⟨hpos, -⟩, htrans, hop, hhook, rfl, hrest⟩ | ⟨e, -, htrans, hop, rfl⟩
  · exact Or.inl hlast
  · obtain ⟨rfl, -⟩ := runs_ret_iff.1 hhook
    exact Or.inr (Or.inl ⟨e, τ₁, τ₃, _, delay, hpos, htrans, rfl, hop, hrest⟩)
  · exact Or.inr (Or.inr ⟨e, htrans, hop, rfl⟩)

/-- A transient failure decides nothing. -/
theorem eq_of_transient {e : Exn} {x : Except Exn α} (htrans : e.isTransient = true)
    (hend : ∀ e', (.error e : Except Exn α) = .error e' → e'.isTransient = false) : .error e = x := by
  rw [hend e rfl] at htrans
  cases htrans

/-- The attempts that are left, by how many there may be. -/
theorem retried_of_retryFrom {remaining : Nat} {last : Option Exn} {τ : List (Call Op.Reply)} {x : Except Exn α}
    (hlt : remaining < maxAttempts)
    (h : Runs (retryFrom operation maxAttempts baseDelay maxDelay (pure ()) last (remaining + 1)) τ x) :
    ∃ xs, Retried operation (remaining + 1) τ xs x := by
  have hone : ∀ {n τ}, Runs operation τ x → Retried operation (n + 1) τ [x] x := fun hop =>
    ⟨.last hop, by simp, by simp, Or.inl (List.mem_singleton_self x)⟩
  have hstuck : ∀ {n τ e}, e.isTransient = true → Runs operation τ (.error e) → x = .error intTooLarge →
      Retried operation (n + 1) τ [.error e] x := fun htrans hop hx =>
    ⟨.last hop, by simp, fun y hy hend => by
      rw [List.mem_singleton.1 hy] at hend ⊢
      exact eq_of_transient htrans hend, Or.inr hx⟩
  induction remaining generalizing last τ with
  | zero =>
    rcases runs_retryFrom_succ hlt h with hop | ⟨e, τ₁, τ₂, hi, delay, hpos, -⟩ | ⟨e, htrans, hop, hx⟩
    · exact ⟨[x], hone hop⟩
    · omega
    · exact ⟨[.error e], hstuck htrans hop hx⟩
  | succ remaining ih =>
    rcases runs_retryFrom_succ hlt h with
      hop | ⟨e, τ₁, τ₂, hi, delay, -, htrans, rfl, hop, hrest⟩ | ⟨e, htrans, hop, hx⟩
    · exact ⟨[x], hone hop⟩
    · obtain ⟨xs, hxs⟩ := ih (by omega) hrest
      refine ⟨.error e :: xs, .again hop hxs.attempts, ?_, ?_, ?_⟩
      · simpa using hxs.length
      · intro y hy hend
        rcases List.mem_cons.1 hy with rfl | hy
        · exact eq_of_transient htrans hend
        · exact hxs.decided y hy hend
      · exact hxs.result.imp_left (List.mem_cons_of_mem _)
    · exact ⟨[.error e], hstuck htrans hop hx⟩

/-- `retry_transient` consists of at least one attempt and at most so many, unless none is allowed. -/
theorem retried_of_retryTransient {τ : List (Call Op.Reply)} {x : Except Exn α} (hpos : 1 ≤ maxAttempts)
    (h : Runs (retryTransient operation maxAttempts baseDelay maxDelay (pure ())) τ x) :
    ∃ xs, Retried operation maxAttempts τ xs x := by
  unfold retryTransient at h
  rw [if_neg (by omega)] at h
  obtain ⟨remaining, rfl⟩ : ∃ remaining, maxAttempts = remaining + 1 := ⟨maxAttempts - 1, by omega⟩
  exact retried_of_retryFrom (Nat.lt_succ_self _) h

/-! ## What processing does not touch -/

/-- Calls that have nothing to do with a stream. -/
def Op.offStream : Op P → Bool
  | .get _ | .set _ _ | .fetch _ | .openSession | .execute _ _ | .commit _ | .close _ | .now | .uniform _
  | .sleep _ | .stopIsSet _ | .record _ _ => true
  | .xadd _ | .xgroupCreate | .xreadgroup _ _ | .xautoclaim _ _ _ | .xpending _ _ _ | .xack _ | .deadLetter _
  | .xlen | .xlenDlq | .xinfoGroups => false

/-- Such a call leaves the stream as it is. -/
theorem stream_of_exec {S : Service P} {o : Op P} {c : Choice} {w w' : World P} {r : o.Reply}
    (ho : o.offStream = true) (h : World.exec S o c w = some (r, w')) : w'.stream = w.stream := by
  rcases changed_of_exec h with rfl | hchanged
  · rfl
  · cases hchanged with
    | xadd | xgroupCreate | xreadgroup | xautoclaim | xpending | xack | deadLetter => cases ho
    | set | fetch | openSession | conflict | inserted | commit | close | record => rfl

/-- A call that processing the event may make: it touches no stream, and a row it writes is the event's. -/
def Op.Works (event : TransactionEvent) (o : Op P) : Prop :=
  o.offStream = true ∧ ∀ session stmt, o = .execute session stmt →
    ∃ usd rate now, stmt.values = event.values usd rate now

/-- The code makes no other calls. -/
abbrev Works {α : Type} (event : TransactionEvent) (p : Code P α) : Prop := p.Only (Op.Works event)

variable {S : Service P} {event : TransactionEvent}

theorem Op.works {o : Op P} (h : o.offStream = true) (hne : ∀ session stmt, o ≠ .execute session stmt) :
    o.Works event := ⟨h, fun session stmt ho => absurd ho (hne session stmt)⟩

theorem works_ask_lift {β : Type} {o : Op P} {f : o.Reply → Except Foreign β} (h : o.Works event) :
    Works event ((ask o).bind fun r => lift (f r)) := only_ask_lift h

theorem works_readCache (currency : PyStr) : Works event (readCache S currency) := by
  unfold readCache
  split
  · refine Only.bind (only_perform (Op.works rfl (by simp))) fun r => ?_
    rcases r with e | _ | raw
    · dsimp only
      split <;> trivial
    · trivial
    · trivial
  · trivial

theorem works_writeCache (currency : PyStr) (rate : Decimal) : Works event (writeCache S currency rate) := by
  unfold writeCache
  split
  · refine Only.bind (only_perform (Op.works rfl (by simp))) fun r => ?_
    rcases r with e | _
    · dsimp only
      split <;> trivial
    · trivial
  · trivial

theorem works_getRate (currency : PyStr) : Works event (getRate S currency) := by
  unfold getRate
  dsimp only
  split
  · trivial
  · refine Only.bind (works_readCache _) fun cached => ?_
    rcases cached with _ | rate
    · refine Only.bind (only_perform (Op.works rfl (by simp))) fun reply => ?_
      split
      · trivial
      · trivial
      · trivial
      · exact Only.bind (works_writeCache _ _) fun _ => trivial
    · trivial

/-- The one statement that processing executes inserts the event's row. -/
theorem works_insertIfAbsent (session : Nat) (usd rate : Decimal) (now : Nat) :
    Works event (insertIfAbsent S session (event.values usd rate now)) := by
  unfold insertIfAbsent
  refine Only.bind (works_ask_lift ⟨rfl, fun session' stmt ho => ⟨usd, rate, now, ?_⟩⟩) fun n => ?_
  · obtain ⟨rfl, rfl⟩ := Op.execute.inj ho
    exact insertIgnoreDuplicates_values S.dialect _
  · trivial

theorem works_store (usd rate : Decimal) (now : Nat) : Works event (store S (event.values usd rate now)) := by
  unfold store withSession
  refine Only.bind (Only.attempt ?_) fun written => ?_
  · refine Only.bind (works_ask_lift (Op.works rfl (by simp))) fun session => ?_
    refine Only.bind (Only.attempt ?_) fun ended => ?_
    · refine Only.bind (works_insertIfAbsent session usd rate now) fun inserted => ?_
      refine Only.bind (works_ask_lift (Op.works rfl (by simp))) fun _ => ?_
      trivial
    · exact Only.bind (works_ask_lift (Op.works rfl (by simp))) fun _ => only_ofExcept _
  · cases written with
    | ok inserted => trivial
    | error e => exact only_ofExcept _

/-- Processing an event never touches a stream, and writes no row but the event's. -/
theorem works_process (event : TransactionEvent) : Works event (process S event) := by
  unfold process
  refine Only.bind (works_getRate _) fun rate => ?_
  refine Only.bind (only_perform (Op.works rfl (by simp))) fun _ => ?_
  refine Only.bind (only_ofExcept _) fun usd => ?_
  refine Only.bind (only_perform (Op.works rfl (by simp))) fun now => ?_
  refine Only.bind (works_store usd rate now) fun inserted => ?_
  cases inserted <;> trivial

/-- Nor does retrying it. -/
theorem works_retryFrom {α : Type} {operation : Code P α} {maxAttempts : Nat} {baseDelay maxDelay : ℚ}
    (h : Works event operation) : ∀ (remaining : Nat) (last : Option Exn),
      Works event (retryFrom operation maxAttempts baseDelay maxDelay (pure ()) last remaining)
  | 0, none => trivial
  | 0, some _ => trivial
  | remaining + 1, last => by
    unfold retryFrom
    refine Only.bind (Only.attempt h) fun x => ?_
    rcases x with e | a
    · dsimp only
      split
      · split
        · trivial
        · refine Only.bind ?_ fun delay => ?_
          · exact only_backoffDelay _ fun _ => Op.works rfl (by simp)
          · refine Only.bind (only_ofExcept (.ok ())) fun _ => ?_
            refine Only.bind (only_perform (Op.works rfl (by simp))) fun _ => ?_
            exact works_retryFrom h remaining (some e)
      · trivial
    · trivial

/-- Nor do the delays between its attempts. -/
theorem Attempts.offStream {τ : List (Call Op.Reply)} {xs : List (Except Exn Outcome)}
    (h : Attempts (process S event) τ xs) : ∀ c ∈ τ, c.op.offStream = true := by
  induction h with
  | last h => exact fun c hc => (h.only (works_process event) c hc).1
  | again h h' ih =>
    intro c hc
    rcases List.mem_append.1 hc with hc | hc
    · exact (h.only (works_process event) c hc).1
    · rcases List.mem_cons.1 hc with rfl | hc
      · rfl
      · rcases List.mem_cons.1 hc with rfl | hc
        · rfl
        · exact ih c hc

/-! ## How one message ends -/

/-- The calls of a handler that process the message. -/
def work (τ : List (Call (@Op.Reply P))) : List (Call (@Op.Reply P)) := τ.filter fun c => c.op.offStream

/-- The attempts at processing the message, no more than there may be, ended with these results. -/
def Attempted (S : Service P) (m : QueuedMessage P) (τ : List (Call (@Op.Reply P)))
    (xs : List (Except Exn Outcome)) : Prop :=
  ∃ event, parse S m = .ok event ∧ Attempts (process S event) (work τ) xs ∧
    xs.length ≤ S.settings.maxAttempts

/-- `process` returned an outcome. -/
def Succeeded (S : Service P) (m : QueuedMessage P) (τ : List (Call (@Op.Reply P))) : Prop :=
  ∃ xs, Attempted S m τ xs ∧ ∃ outcome, .ok outcome ∈ xs

/-- The payload could not be parsed, or `process` raised: a permanent error. -/
def FailedForGood (S : Service P) (m : QueuedMessage P) (τ : List (Call (@Op.Reply P))) (e : Exn) : Prop :=
  e.isPermanent = true ∧ (parse S m = .error e ∨ ∃ xs, Attempted S m τ xs ∧ .error e ∈ xs)

/-- The record of a dead-lettered message. -/
def QueuedMessage.record (m : QueuedMessage P) (reason : String) : DlqRecord P where
  payload := m.payload
  reason := reason
  originalId := m.messageId
  deliveryCount := m.deliveryCount

theorem Attempted.unique {m : QueuedMessage P} {τ : List (Call Op.Reply)} {xs ys : List (Except Exn Outcome)}
    (h : Attempted S m τ xs) (h' : Attempted S m τ ys) : xs = ys := by
  obtain ⟨event, hparse, hxs, -⟩ := h
  obtain ⟨event', hparse', hys, -⟩ := h'
  obtain rfl := Except.ok.inj (hparse.symm.trans hparse')
  exact hxs.unique hys

/-- How the attempts at a message end, from the result of all of them. -/
structure EndedWith (S : Service P) (m : QueuedMessage P) (τ : List (Call (@Op.Reply P)))
    (y : Except Exn Outcome) : Prop where
  offStream : ∀ c ∈ τ, c.op.offStream = true
  succeeded : Succeeded S m τ ↔ ∃ outcome, y = .ok outcome
  failed : ∀ e, FailedForGood S m τ e ↔ y = .error e ∧ e.isPermanent = true

theorem work_eq {τ : List (Call (@Op.Reply P))} (h : ∀ c ∈ τ, c.op.offStream = true) : work τ = τ :=
  List.filter_eq_self.2 h

theorem endedWith_of_retried {m : QueuedMessage P} {event : TransactionEvent} {τ : List (Call Op.Reply)}
    {xs : List (Except Exn Outcome)} {y : Except Exn Outcome} (hparse : parse S m = .ok event)
    (h : Retried (process S event) S.settings.maxAttempts τ xs y) : EndedWith S m τ y := by
  have hoff := h.attempts.offStream
  have hattempted : Attempted S m τ xs := ⟨event, hparse, (work_eq hoff).symm ▸ h.attempts, h.length⟩
  refine ⟨hoff, ⟨?_, ?_⟩, fun e => ⟨?_, ?_⟩⟩
  · rintro ⟨ys, hys, outcome, hok⟩
    rw [hys.unique hattempted] at hok
    exact ⟨outcome, (h.decided _ hok (by rintro e ⟨⟩)).symm⟩
  · rintro ⟨outcome, rfl⟩
    exact ⟨xs, hattempted, outcome, h.result.resolve_right (by rintro ⟨⟩)⟩
  · rintro ⟨hperm, herr | ⟨ys, hys, herr⟩⟩
    · cases hparse.symm.trans herr
    · rw [hys.unique hattempted] at herr
      refine ⟨(h.decided _ herr fun e' he' => ?_).symm, hperm⟩
      obtain rfl := Except.error.inj he'
      by_contra htrans
      rw [Exn.not_isPermanent_of_isTransient (by simpa using htrans)] at hperm
      cases hperm
  · rintro ⟨rfl, hperm⟩
    refine ⟨hperm, Or.inr ⟨xs, hattempted, h.result.resolve_right fun heq => ?_⟩⟩
    rw [Except.error.inj heq] at hperm
    cases hperm

/-- What the part of `_handle_one` that may raise ends with is what its attempts end with. -/
theorem endedWith_of_handleEvent {m : QueuedMessage P} {τ : List (Call Op.Reply)} {y : Except Exn Outcome}
    (h : Runs (handleEvent S m) τ y) : EndedWith S m τ y := by
  unfold handleEvent at h
  cases hparse : parse S m with
  | error e =>
    rw [hparse] at h
    obtain ⟨rfl, rfl⟩ := runs_raise_iff.1 h
    refine ⟨by simp, ⟨?_, by rintro ⟨outcome, ⟨⟩⟩⟩, fun e' => ⟨?_, ?_⟩⟩
    · rintro ⟨xs, ⟨event, hok, -⟩, -⟩
      cases hparse.symm.trans hok
    · rintro ⟨hperm, herr | ⟨xs, ⟨event, hok, -⟩, -⟩⟩
      · rw [Except.error.inj (hparse.symm.trans herr)]
        exact ⟨rfl, hperm⟩
      · cases hparse.symm.trans hok
    · rintro ⟨herr, hperm⟩
      rw [Except.error.inj herr] at hparse
      exact ⟨hperm, Or.inl hparse⟩
  | ok event =>
    rw [hparse] at h
    change Runs (retryTransient (process S event) S.settings.maxAttempts S.settings.retryBaseDelay
      S.settings.retryMaxDelay (pure ())) τ y at h
    by_cases hpos : 1 ≤ S.settings.maxAttempts
    · obtain ⟨xs, hxs⟩ := retried_of_retryTransient hpos h
      exact endedWith_of_retried hparse hxs
    · -- no attempt is made
      unfold retryTransient at h
      rw [if_pos (by omega)] at h
      obtain ⟨rfl, rfl⟩ := runs_raise_iff.1 h
      have hnone : ∀ xs, ¬Attempted S m [] xs := by
        rintro xs ⟨event', -, hatt, hlen⟩
        exact hatt.ne_nil (List.length_eq_zero_iff.1 (by omega))
      refine ⟨by simp, ⟨?_, by rintro ⟨outcome, ⟨⟩⟩⟩, fun e' => ⟨?_, ?_⟩⟩
      · rintro ⟨xs, hatt, -⟩
        exact absurd hatt (hnone xs)
      · rintro ⟨hperm, herr | ⟨xs, hatt, -⟩⟩
        · cases hparse.symm.trans herr
        · exact absurd hatt (hnone xs)
      · rintro ⟨herr, hperm⟩
        rw [← Except.error.inj herr] at hperm
        cases hperm

theorem EndedWith.append {m : QueuedMessage P} {τ σ : List (Call Op.Reply)} {y : Except Exn Outcome}
    (h : EndedWith S m τ y) (hσ : ∀ c ∈ σ, c.op.offStream = false) :
    (Succeeded S m (τ ++ σ) ↔ ∃ outcome, y = .ok outcome) ∧
      ∀ e, FailedForGood S m (τ ++ σ) e ↔ y = .error e ∧ e.isPermanent = true := by
  have hwork : work (τ ++ σ) = work τ := by
    unfold work
    rw [List.filter_append, @List.filter_eq_nil_iff _ _ σ |>.2 fun c hc => by simp [hσ c hc], List.append_nil]
  have hattempted : ∀ xs, Attempted S m (τ ++ σ) xs ↔ Attempted S m τ xs := by
    intro xs
    unfold Attempted
    rw [hwork]
  constructor
  · rw [← h.succeeded]
    unfold Succeeded
    simp only [hattempted]
  · intro e
    rw [← h.failed e]
    unfold FailedForGood
    simp only [hattempted]

theorem runs_tryDeadLetter {m : QueuedMessage P} {reason : String} {τ : List (Call Op.Reply)} {x : Except Exn Unit}
    (h : Runs (tryDeadLetter m reason) τ x) : ∃ r, τ = [⟨.deadLetter (m.record reason), r⟩] ∧ x = .ok () := by
  obtain ⟨y, τ₁, τ₂, rfl, hdead, hret⟩ := runs_attempt_bind_iff.1 h
  obtain ⟨r, rfl, -⟩ := runs_ask_lift_iff.1 hdead
  obtain ⟨rfl, rfl⟩ := runs_ret_iff.1 hret
  exact ⟨r, rfl, rfl⟩

/-- A handler works on the event of its message, and apart from that can only dead-letter it. -/
theorem handleOne_only (m : QueuedMessage P) : (handleOne S m).Only fun o =>
    (∃ event, parse S m = .ok event ∧ o.Works event) ∨ ∃ reason, o = .deadLetter (m.record reason) := by
  unfold handleOne
  refine Only.bind (Only.attempt ?_) fun x => ?_
  · unfold handleEvent
    cases hparse : parse S m with
    | error e => trivial
    | ok event =>
      show (retryTransient (process S event) S.settings.maxAttempts S.settings.retryBaseDelay
        S.settings.retryMaxDelay (pure ())).Only _
      unfold retryTransient
      split
      · trivial
      · exact (works_retryFrom (works_process event) _ _).mono fun o ho => Or.inl ⟨event, rfl, ho⟩
  · rcases x with e | outcome
    · dsimp only
      split
      · refine Only.bind (Only.bind (Only.attempt ?_) fun _ => ?_) fun _ => ?_
        · unfold deadLetter
          exact only_ask_lift (Or.inr ⟨e.str, rfl⟩)
        · trivial
        · trivial
      · trivial
    · trivial

/-- A handler ends as the part of it that may raise does: with its message's id, or by dead-lettering the
message, or with neither. -/
theorem runs_handleOne {m : QueuedMessage P} {τ : List (Call Op.Reply)} {x : Except Exn (Option Nat)}
    (h : Runs (handleOne S m) τ x) :
    (∃ outcome, Runs (handleEvent S m) τ (.ok outcome) ∧ x = .ok (some m.messageId)) ∨
    (∃ e τ₁ r, e.isPermanent = true ∧ Runs (handleEvent S m) τ₁ (.error e) ∧
      τ = τ₁ ++ [⟨.deadLetter (m.record e.str), r⟩] ∧ x = .ok none) ∨
    ∃ e, e.isPermanent = false ∧ Runs (handleEvent S m) τ (.error e) ∧ x = .ok none := by
  unfold handleOne at h
  obtain ⟨y, τ₁, τ₂, rfl, hevent, hrest⟩ := runs_attempt_bind_iff.1 h
  cases y with
  | ok outcome =>
    obtain ⟨rfl, rfl⟩ := runs_ret_iff.1 hrest
    rw [List.append_nil]
    exact Or.inl ⟨outcome, hevent, rfl⟩
  | error e =>
    dsimp only at hrest
    split at hrest
    · rename_i hperm
      rcases runs_bind_iff.1 hrest with ⟨e', hdead, -⟩ | ⟨_, σ₁, σ₂, rfl, hdead, hret⟩
      · obtain ⟨r, -, heq⟩ := runs_tryDeadLetter hdead
        cases heq
      · obtain ⟨r, rfl, -⟩ := runs_tryDeadLetter hdead
        obtain ⟨rfl, rfl⟩ := runs_ret_iff.1 hret
        exact Or.inr (Or.inl ⟨e, τ₁, r, hperm, hevent, by rw [List.append_nil], rfl⟩)
    · rename_i hperm
      obtain ⟨rfl, rfl⟩ := runs_ret_iff.1 hrest
      rw [List.append_nil]
      exact Or.inr (Or.inr ⟨e, by simpa using hperm, hevent, rfl⟩)

/-- A handler ends in one of three ways, and never with an exception: its message was processed and its id
is returned; the message failed for good and was dead-lettered by the handler's last call; or neither. -/
theorem handled_cases {m : QueuedMessage P} {τ : List (Call Op.Reply)} {x : Except Exn (Option Nat)}
    (h : Runs (handleOne S m) τ x) :
    (Succeeded S m τ ∧ (∀ e, ¬FailedForGood S m τ e) ∧ x = .ok (some m.messageId) ∧
      ∀ c ∈ τ, c.op.offStream = true) ∨
    (∃ e τ₁ r, ¬Succeeded S m τ ∧ (∀ e', FailedForGood S m τ e' ↔ e' = e) ∧ x = .ok none ∧
      τ = τ₁ ++ [⟨.deadLetter (m.record e.str), r⟩] ∧ ∀ c ∈ τ₁, c.op.offStream = true) ∨
    (¬Succeeded S m τ ∧ (∀ e, ¬FailedForGood S m τ e) ∧ x = .ok none ∧ ∀ c ∈ τ, c.op.offStream = true) := by
  rcases runs_handleOne h with
    ⟨outcome, hevent, rfl⟩ | ⟨e, τ₁, r, hperm, hevent, rfl, rfl⟩ | ⟨e, hperm, hevent, rfl⟩
  · have hp := endedWith_of_handleEvent hevent
    refine Or.inl ⟨hp.succeeded.2 ⟨outcome, rfl⟩, fun e he => ?_, rfl, hp.offStream⟩
    cases ((hp.failed e).1 he).1
  · have hp := endedWith_of_handleEvent hevent
    have hσ : ∀ c ∈ [(⟨.deadLetter (m.record e.str), r⟩ : Call (@Op.Reply P))], c.op.offStream = false := by
      simp [Op.offStream]
    refine Or.inr (Or.inl ⟨e, τ₁, r, fun hs => ?_, fun e' => ?_, rfl, rfl, hp.offStream⟩)
    · obtain ⟨outcome, ⟨⟩⟩ := (hp.append hσ).1.1 hs
    · rw [(hp.append hσ).2 e']
      constructor
      · rintro ⟨heq, -⟩
        exact (Except.error.inj heq).symm
      · rintro rfl
        exact ⟨rfl, hperm⟩
  · have hp := endedWith_of_handleEvent hevent
    refine Or.inr (Or.inr ⟨fun hs => ?_, fun e' he' => ?_, rfl, hp.offStream⟩)
    · obtain ⟨outcome, ⟨⟩⟩ := hp.succeeded.1 hs
    · obtain ⟨heq, hperm'⟩ := (hp.failed e').1 he'
      rw [← Except.error.inj heq, hperm] at hperm'
      cases hperm'

end App
