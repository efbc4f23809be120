/-
The batch endpoint against the plain one. A batch that is let in makes the calls that its events would make if
they were posted one by one, in their order, and its answer follows from theirs: it is accepted if all of them
are, with their ids, and otherwise answered as the first that is not. So whatever the world and whoever else is at
work, a batch leaves behind what the single posts would. A batch that is not let in calls nothing.
-/
import EventService.Run.Requests

namespace App

open Prog

variable {P : Type} {S : Service P} {τ : List (Call (@Op.Reply P))} {bodies : List EventIn}

/-- The bodies are posted one behind the other, each answered on its own. -/
inductive OneByOne (S : Service P) : List EventIn → List (Call (@Op.Reply P)) → List Response → Prop
  | none : OneByOne S [] [] []
  | more {body : EventIn} {bodies : List EventIn} {τ σ : List (Call Op.Reply)} {response : Response}
    {responses : List Response} (h : Runs (serve S (.event body)) τ (.ok response))
    (hrest : OneByOne S bodies σ responses) : OneByOne S (body :: bodies) (τ ++ σ) (response :: responses)

def Response.isFailed : Response → Bool
  | .failed _ _ => true
  | .started | .accepted _ _ | .batchAccepted _ _ => false

/-- The answer to a batch from those to its events: the first refusal, or all the ids. -/
def together (responses : List Response) : Response :=
  match responses.find? Response.isFailed with
  | some refusal => refusal
  | none => .batchAccepted responses.length (responses.flatMap Response.messageIds)

/-- Why an event is refused. -/
def rejection? (body : EventIn) : Option Rejection :=
  match validate body with
  | .ok _ => none
  | .error rejection => some rejection

/-- Why a batch is not let in, if it is not: it is empty, a time stamp is beyond the calendar, an event is not
valid, or there are too many of them; the first of these that holds is answered. -/
def refusal? (bodies : List EventIn) : Option Response :=
  if bodies = [] then some unprocessable
  else if .overflowError ∈ bodies.filterMap rejection? then some internalError
  else if bodies.filterMap rejection? ≠ [] then some (complained (bodies.all EventIn.renders))
  else if maxBatchSize < bodies.length then
    some (.failed 413 ("batch may contain at most " ++ toString maxBatchSize ++ " events"))
  else none

/-! ## Validation -/

theorem rejection?_eq_some_iff {body : EventIn} {rejection : Rejection} :
    rejection? body = some rejection ↔ validate body = .error rejection := by
  unfold rejection?
  cases validate body <;> simp

theorem rejection?_eq_none_iff {body : EventIn} : rejection? body = none ↔ ∃ event, validate body = .ok event := by
  unfold rejection?
  cases validate body <;> simp

theorem validateAll_overflowError_iff :
    validateAll bodies = .error .overflowError ↔ .overflowError ∈ bodies.filterMap rejection? := by
  induction bodies with
  | nil => simp [validateAll]
  | cons body bodies ih =>
    rw [List.mem_filterMap] at ih ⊢
    rw [List.exists_mem_cons_iff, rejection?_eq_some_iff, ← ih, validateAll]
    rcases validate body with (errors | _) | event <;> rcases validateAll bodies with (errors' | _) | events <;> simp

theorem validateAll_ok_iff {events : List TransactionEvent} :
    validateAll bodies = .ok events ↔ List.Forall₂ (fun body event => validate body = .ok event) bodies events := by
  induction bodies generalizing events with
  | nil => simp [validateAll]
  | cons body bodies ih =>
    rw [List.forall₂_cons_left_iff]
    simp only [← ih]
    rw [validateAll]
    rcases validate body with (errors | _) | event <;> rcases validateAll bodies with (errors' | _) | events' <;>
      simp [eq_comm]

/-- A batch is valid if each of its events is. -/
theorem exists_validateAll_iff :
    (∃ events, validateAll bodies = .ok events) ↔ bodies.filterMap rejection? = [] := by
  simp only [validateAll_ok_iff, List.filterMap_eq_nil_iff, rejection?_eq_none_iff]
  induction bodies with
  | nil => simp
  | cons body bodies ih =>
    rw [List.forall_mem_cons, ← ih]
    constructor
    · rintro ⟨_, h⟩
      cases h with
      | cons hbody hrest => exact ⟨⟨_, hbody⟩, _, hrest⟩
    · rintro ⟨⟨event, hbody⟩, events, hrest⟩
      exact ⟨event :: events, .cons hbody hrest⟩

/-! ## One event -/

/-- A valid event makes one call, and its answer is decided by the reply. -/
theorem runs_event_iff {body : EventIn} {event : TransactionEvent} (h : validate body = .ok event)
    {x : Except Exn Response} : Runs (serve S (.event body)) τ x ↔
      ∃ reply, τ = [⟨.xadd (S.json.modelDumpJson event), reply⟩] ∧
        x = .ok (responded (.accepted event.id) (raised reply)) := by
  have hserve : serve S (.event body) = respond (publish S event) (.accepted event.id) := by
    unfold serve receiveEvent
    dsimp only
    rw [h]
  rw [hserve, runs_respond_iff]
  unfold publish
  simp only [bind_eq]
  constructor
  · rintro ⟨y, hy, rfl⟩
    obtain ⟨reply, rfl, rfl⟩ := runs_ask_lift_iff.1 hy
    exact ⟨reply, rfl, rfl⟩
  · rintro ⟨reply, rfl, rfl⟩
    exact ⟨_, runs_ask_lift_iff.2 ⟨reply, rfl, rfl⟩, rfl⟩

/-- What the events of a batch are answered one by one. -/
def answersTo (events : List TransactionEvent) (replies : List (Except Foreign Nat)) : List Response :=
  (events.zip replies).map fun er => responded (.accepted er.1.id) (raised er.2)

/-- Valid events that are posted one by one make the calls of a batch of them. -/
theorem oneByOne_iff {events : List TransactionEvent} {responses : List Response}
    (h : List.Forall₂ (fun body event => validate body = .ok event) bodies events) :
    OneByOne S bodies τ responses ↔ ∃ replies, replies.length = events.length ∧
      τ = publishing S events replies ∧ responses = answersTo events replies := by
  induction h generalizing τ responses with
  | nil =>
    constructor
    · rintro ⟨⟩
      exact ⟨[], rfl, rfl, rfl⟩
    · rintro ⟨replies, hlen, rfl, rfl⟩
      rw [List.length_eq_zero_iff.1 hlen]
      exact .none
  | @cons body event bodies events hbody _ ih =>
    constructor
    · intro h
      cases h with
      | more hevent hrest =>
        obtain ⟨reply, rfl, hx⟩ := (runs_event_iff hbody).1 hevent
        obtain ⟨replies, hlen, rfl, rfl⟩ := ih.1 hrest
        rw [Except.ok.inj hx]
        exact ⟨reply :: replies, by simp [hlen], rfl, rfl⟩
    · rintro ⟨replies, hlen, rfl, rfl⟩
      cases replies with
      | nil => cases hlen
      | cons reply replies =>
        have hrest := ih.2 ⟨replies, by simpa using hlen, rfl, rfl⟩
        exact .more ((runs_event_iff hbody).2 ⟨reply, rfl, rfl⟩) hrest

/-- What an exception is answered does not depend on the endpoint. -/
theorem responded_error {α β : Type} (f : α → Response) (g : β → Response) (e : Exn) :
    responded f (.error e) = responded g (.error e) := by
  cases e <;> rfl

theorem isFailed_responded {α : Type} (f : α → Response) (e : Exn) : (responded f (.error e)).isFailed = true := by
  obtain ⟨status, detail, heq⟩ := responded_failed f e
  rw [heq]
  rfl

theorem answersTo_cons {event : TransactionEvent} {events : List TransactionEvent} {reply : Except Foreign Nat}
    {replies : List (Except Foreign Nat)} : answersTo (event :: events) (reply :: replies) =
      responded (.accepted event.id) (raised reply) :: answersTo events replies := rfl

/-- The first reply that is an exception is the first event that is refused. -/
theorem find?_answersTo {α : Type} (f : α → Response) {events : List TransactionEvent}
    {replies : List (Except Foreign Nat)} (hlen : replies.length = events.length) {e : Foreign}
    (h : firstError replies = .error e) :
    (answersTo events replies).find? Response.isFailed = some (responded f (.error (.foreign e))) := by
  induction replies generalizing events with
  | nil => cases h
  | cons reply replies ih =>
    cases events with
    | nil => cases hlen
    | cons event events =>
      rw [answersTo_cons]
      cases reply with
      | error e' =>
        obtain rfl := Except.error.inj h
        have hrefused : (responded (.accepted event.id) (raised (.error e'))).isFailed = true :=
          isFailed_responded _ (.foreign e')
        rw [List.find?_cons_of_pos hrefused]
        exact congrArg some (responded_error _ f (.foreign e'))
      | ok id =>
        unfold firstError at h
        cases hrest : firstError replies with
        | ok ids =>
          rw [hrest] at h
          cases h
        | error e' =>
          rw [hrest] at h
          obtain rfl := Except.error.inj h
          rw [List.find?_cons_of_neg (by simp [raised, responded, Response.isFailed])]
          exact ih (by simpa using hlen) hrest

/-- If no reply is an exception, every event is accepted under its own id. -/
theorem answersTo_ok (events : List TransactionEvent) (ids : List Nat) (hlen : ids.length = events.length) :
    (answersTo events (ids.map .ok)).find? Response.isFailed = none ∧
      (answersTo events (ids.map .ok)).flatMap Response.messageIds = ids ∧
      (answersTo events (ids.map .ok)).length = ids.length := by
  induction ids generalizing events with
  | nil =>
    rw [List.length_eq_zero_iff.1 hlen.symm]
    exact ⟨rfl, rfl, rfl⟩
  | cons id ids ih =>
    cases events with
    | nil => cases hlen
    | cons event events =>
      obtain ⟨hnone, hids, hlength⟩ := ih events (by simpa using hlen)
      rw [List.map_cons, answersTo_cons]
      refine ⟨?_, ?_, by simp [hlength]⟩
      · rw [List.find?_cons_of_neg (by simp [raised, responded, Response.isFailed])]
        exact hnone
      · rw [List.flatMap_cons, hids]
        rfl

/-- The answer to a batch is that to its events together. -/
theorem together_answersTo {events : List TransactionEvent} {replies : List (Except Foreign Nat)}
    (hlen : replies.length = events.length) : together (answersTo events replies) =
      responded (fun ids => .batchAccepted ids.length ids) (raised (firstError replies)) := by
  unfold together
  cases h : firstError replies with
  | error e =>
    rw [find?_answersTo (fun ids : List Nat => .batchAccepted ids.length ids) hlen h]
    rfl
  | ok ids =>
    obtain rfl := firstError_ok h
    obtain ⟨hnone, hids, hlength⟩ := answersTo_ok events ids (by simpa using hlen)
    rw [hnone, hids, hlength]
    rfl

/-! ## A batch -/

theorem receiveEvents_of_refusal {response : Response} (h : refusal? bodies = some response) :
    receiveEvents S bodies = .ret response := by
  unfold refusal? at h
  unfold receiveEvents
  split at h
  · rename_i hnil
    rw [if_pos hnil, Option.some.inj h]
    rfl
  · rename_i hnil
    rw [if_neg hnil]
    split at h
    · rename_i hoverflow
      rw [validateAll_overflowError_iff.2 hoverflow, Option.some.inj h]
      rfl
    · rename_i hoverflow
      split at h
      · rename_i hinvalid
        cases hall : validateAll bodies with
        | ok events => exact absurd (exists_validateAll_iff.1 ⟨events, hall⟩) hinvalid
        | error rejection =>
          cases rejection with
          | overflowError => exact absurd (validateAll_overflowError_iff.1 hall) hoverflow
          | validationError errors =>
            rw [Option.some.inj h]
            rfl
      · rename_i hvalid
        obtain ⟨events, hall⟩ := exists_validateAll_iff.2 (not_not.1 hvalid)
        rw [hall]
        split at h
        · rename_i hlong
          rw [(validateAll_ok_iff.1 hall).length_eq] at hlong
          dsimp only
          rw [if_pos hlong, Option.some.inj h]
          rfl
        · cases h

theorem receiveEvents_of_none (h : refusal? bodies = none) : ∃ events, validateAll bodies = .ok events ∧
    receiveEvents S bodies = respond (publishMany S events) fun ids => .batchAccepted ids.length ids := by
  unfold refusal? at h
  split at h
  · cases h
  · rename_i hnil
    split at h
    · cases h
    · split at h
      · cases h
      · rename_i hvalid
        obtain ⟨events, hall⟩ := exists_validateAll_iff.2 (not_not.1 hvalid)
        split at h
        · cases h
        · rename_i hlong
          rw [(validateAll_ok_iff.1 hall).length_eq] at hlong
          refine ⟨events, hall, ?_⟩
          unfold receiveEvents
          rw [if_neg hnil, hall]
          dsimp only
          rw [if_neg hlong]

/-- The batch endpoint agrees with the plain one. A batch that is let in does what its events do when they are
posted one by one, call for call, and is answered what they are answered together; one that is not is refused
without a call. -/
theorem batch_agrees_with_single_posts {x : Except Exn Response} : Runs (serve S (.events bodies)) τ x ↔
    (refusal? bodies = none ∧ ∃ responses, OneByOne S bodies τ responses ∧ x = .ok (together responses)) ∨
      ∃ response, refusal? bodies = some response ∧ τ = [] ∧ x = .ok response := by
  rw [serve]
  cases h : refusal? bodies with
  | some response =>
    rw [receiveEvents_of_refusal h, runs_ret_iff]
    simp
  | none =>
    obtain ⟨events, hall, hbatch⟩ := receiveEvents_of_none (S := S) h
    have hvalid := validateAll_ok_iff.1 hall
    rw [hbatch, runs_respond_iff]
    simp only [runs_publishMany_iff, oneByOne_iff hvalid, true_and, reduceCtorEq, false_and, exists_false, or_false]
    constructor
    · rintro ⟨_, ⟨replies, hlen, rfl, rfl⟩, rfl⟩
      exact ⟨_, ⟨replies, hlen, rfl, rfl⟩, by rw [together_answersTo hlen]⟩
    · rintro ⟨_, ⟨replies, hlen, rfl, rfl⟩, rfl⟩
      exact ⟨_, ⟨replies, hlen, rfl, rfl⟩, by rw [together_answersTo hlen]⟩

end App
