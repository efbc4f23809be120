/-
The calls of one request. An endpoint refuses the body, or it publishes the events of the body one behind
the other, and what it answers is decided by the replies.
-/
import EventService.Program.Trace
import EventService.Run.Calls
import EventService.Run.Consuming

namespace App

open Prog Store

variable {P : Type} {S : Service P} {τ : List (Call (@Op.Reply P))}

/-- The events a request is to publish; none if its body is refused. -/
def submitted : Request → List TransactionEvent
  | .startup => []
  | .event body =>
    match validate body with
    | .ok event => [event]
    | .error _ => []
  | .events body =>
    match validateAll body with
    | .ok events => if maxBatchSize < events.length then [] else events
    | .error _ => []

/-- The message ids a client is answered with. -/
def Response.messageIds : Response → List Nat
  | .accepted _ messageId => [messageId]
  | .batchAccepted _ messageIds => messageIds
  | .started | .failed _ _ => []

@[simp] theorem complained_messageIds (renders : Bool) : (complained renders).messageIds = [] := by
  obtain ⟨status, detail, heq⟩ := complained_failed renders
  rw [heq]
  rfl

/-- The calls that publish events, with their replies. -/
def publishing (S : Service P) (events : List TransactionEvent) (replies : List (Except Foreign Nat)) :
    List (Call (@Op.Reply P)) :=
  (events.zip replies).map fun er => ⟨.xadd (S.json.modelDumpJson er.1), er.2⟩

/-- What a request does: an API process that starts makes sure the group exists; a body is refused, or its
events are published, and the answer has their ids if every reply is one. -/
inductive RequestCalls (S : Service P) (r : Request) : List (Call (@Op.Reply P)) → Except Exn Response → Prop
  | started {x : Except Exn Response} (hr : submitted r = []) (reply : Except Foreign Unit)
    (hx : ∀ response, x = .ok response → response.messageIds = []) : RequestCalls S r [⟨.xgroupCreate, reply⟩] x
  | refused {response : Response} (hr : submitted r = []) (hids : response.messageIds = []) :
    RequestCalls S r [] (.ok response)
  | published {replies : List (Except Foreign Nat)} {response : Response} (hlen : replies.length = (submitted r).length)
    (hids : response.messageIds = [] ∨ replies = response.messageIds.map .ok) :
    RequestCalls S r (publishing S (submitted r) replies) (.ok response)

/-- What an endpoint answers when its publishing ended so. -/
def responded {α : Type} (f : α → Response) : Except Exn α → Response
  | .ok a => f a
  | .error (.foreign e) => if e.cls.isRedisError then queueUnavailable else internalError
  | .error (.event _ _) => internalError

theorem responded_failed {α : Type} (f : α → Response) (e : Exn) :
    ∃ status detail, responded f (.error e) = .failed status detail := by
  rcases e with ⟨cls, text⟩ | e
  · exact ⟨_, _, rfl⟩
  · by_cases he : e.cls.isRedisError = true
    · exact ⟨_, _, if_pos he⟩
    · exact ⟨_, _, if_neg he⟩

theorem respond_eq {α : Type} (p : Code P α) (f : α → Response) :
    respond p f = p.attempt.bind fun y => .ret (responded f y) := by
  unfold respond
  refine congrArg (Prog.bind p.attempt) (funext fun y => ?_)
  rcases y with (⟨cls, text⟩ | e) | a
  · rfl
  · show (if _ then _ else _) = Prog.ret (if _ then _ else _)
    split <;> rfl
  · rfl

theorem runs_respond_iff {α : Type} {p : Code P α} {f : α → Response} {x : Except Exn Response} :
    Runs (respond p f) τ x ↔ ∃ y, Runs p τ y ∧ x = .ok (responded f y) := by
  rw [respond_eq, runs_attempt_bind_iff]
  simp only [runs_ret_iff]
  constructor
  · rintro ⟨y, τ₁, τ₂, rfl, hp, rfl, rfl⟩
    exact ⟨y, by rwa [List.append_nil], rfl⟩
  · rintro ⟨y, hp, rfl⟩
    exact ⟨y, τ, [], (List.append_nil τ).symm, hp, rfl, rfl⟩

/-- A pipeline sends every command, whatever the replies. -/
theorem runs_pipeline_iff {events : List TransactionEvent} {x : Except Exn (List (Except Foreign Nat))} :
    Runs (Prog.collect (fun event => ask (.xadd (S.json.modelDumpJson event))) events) τ x ↔
      ∃ replies, replies.length = events.length ∧ τ = publishing S events replies ∧ x = .ok replies := by
  induction events generalizing τ x with
  | nil =>
    unfold Prog.collect
    rw [runs_ret_iff]
    constructor
    · rintro ⟨rfl, rfl⟩
      exact ⟨[], rfl, rfl, rfl⟩
    · rintro ⟨replies, hlen, rfl, rfl⟩
      rw [List.length_eq_zero_iff.1 hlen]
      exact ⟨rfl, rfl⟩
  | cons event events ih =>
    unfold Prog.collect ask
    rw [perform_bind, runs_op_iff]
    constructor
    · rintro ⟨reply, τ₁, rfl, hrest⟩
      rcases runs_bind_iff.1 hrest with ⟨e, hevents, -⟩ | ⟨replies, τ₂, τ₃, rfl, hevents, hret⟩
      · obtain ⟨_, -, -, heq⟩ := ih.1 hevents
        cases heq
      · obtain ⟨rfl, rfl⟩ := runs_ret_iff.1 hret
        obtain ⟨replies', hlen, rfl, heq⟩ := ih.1 hevents
        obtain rfl := Except.ok.inj heq
        exact ⟨reply :: replies, by simp [hlen], by simp [publishing], rfl⟩
    · rintro ⟨replies, hlen, rfl, rfl⟩
      cases replies with
      | nil => cases hlen
      | cons reply replies =>
        have hrest := ih.2 ⟨replies, by simpa using hlen, rfl, rfl⟩
        refine ⟨reply, publishing S events replies, rfl, ?_⟩
        exact runs_bind_iff.2 (Or.inr ⟨replies, _, [], (List.append_nil _).symm, hrest, .ret _⟩)

theorem runs_publishMany_iff {events : List TransactionEvent} {x : Except Exn (List Nat)} :
    Runs (publishMany S events) τ x ↔ ∃ replies, replies.length = events.length ∧
      τ = publishing S events replies ∧ x = raised (firstError replies) := by
  unfold publishMany
  simp only [bind_eq]
  rw [runs_bind_iff]
  constructor
  · rintro (⟨e, hpipe, -⟩ | ⟨replies, τ₁, τ₂, rfl, hpipe, hlift⟩)
    · obtain ⟨_, -, -, heq⟩ := runs_pipeline_iff.1 hpipe
      cases heq
    · obtain ⟨replies', hlen, rfl, heq⟩ := runs_pipeline_iff.1 hpipe
      obtain rfl := Except.ok.inj heq
      obtain ⟨rfl, rfl⟩ := runs_lift_iff.1 hlift
      exact ⟨replies, hlen, List.append_nil _, rfl⟩
  · rintro ⟨replies, hlen, rfl, rfl⟩
    refine Or.inr ⟨replies, publishing S events replies, [], (List.append_nil _).symm, ?_, runs_lift_iff.2 ⟨rfl, rfl⟩⟩
    exact runs_pipeline_iff.2 ⟨replies, hlen, rfl, rfl⟩

/-- What an endpoint does once it has the events. -/
theorem requestCalls_of_respond {α : Type} {r : Request} {p : Code P α} {f : α → Response} {x : Except Exn Response}
    (h : Runs (respond p f) τ x)
    (hp : ∀ y, Runs p τ y → ∃ replies, replies.length = (submitted r).length ∧ τ = publishing S (submitted r) replies ∧
      ∀ a, y = .ok a → replies = (f a).messageIds.map .ok) : RequestCalls S r τ x := by
  obtain ⟨y, hruns, rfl⟩ := runs_respond_iff.1 h
  obtain ⟨replies, hlen, rfl, hids⟩ := hp y hruns
  rcases y with e | a
  · obtain ⟨status, detail, heq⟩ := responded_failed f e
    rw [heq]
    exact .published hlen (Or.inl rfl)
  · exact .published hlen (Or.inr (hids a rfl))

theorem requestCalls_of_runs {r : Request} {x : Except Exn Response} (h : Runs (serve S r) τ x) :
    RequestCalls S r τ x := by
  cases r with
  | startup =>
    unfold serve startup ensureGroup at h
    obtain ⟨reply, τ', rfl, hrest⟩ := runs_op_iff.1 h
    have hnil : τ' = [] ∧ ∀ response, x = .ok response → response.messageIds = [] := by
      rcases reply with e | u
      · dsimp only [ret_bind] at hrest
        split at hrest
        · split at hrest
          · obtain ⟨rfl, rfl⟩ := runs_ret_iff.1 hrest
            exact ⟨rfl, fun response heq => by rw [← Except.ok.inj heq]; rfl⟩
          · obtain ⟨rfl, rfl⟩ := runs_raise_iff.1 hrest
            exact ⟨rfl, by simp⟩
        · obtain ⟨rfl, rfl⟩ := runs_raise_iff.1 hrest
          exact ⟨rfl, by simp⟩
      · obtain ⟨rfl, rfl⟩ := runs_ret_iff.1 hrest
        exact ⟨rfl, fun response heq => by rw [← Except.ok.inj heq]; rfl⟩
    obtain ⟨rfl, hx⟩ := hnil
    exact .started rfl reply hx
  | event body =>
    unfold serve receiveEvent at h
    dsimp only at h
    have hsubmitted : submitted (.event body) = match validate body with
      | .ok event => [event]
      | .error _ => [] := rfl
    split at h
    · rename_i hvalid
      obtain ⟨rfl, rfl⟩ := runs_ret_iff.1 h
      exact .refused (by rw [hsubmitted, hvalid]) (complained_messageIds _)
    · rename_i hvalid
      obtain ⟨rfl, rfl⟩ := runs_ret_iff.1 h
      exact .refused (by rw [hsubmitted, hvalid]) rfl
    · rename_i event hvalid
      rw [hvalid] at hsubmitted
      refine requestCalls_of_respond h fun y hy => ?_
      obtain ⟨reply, rfl, rfl⟩ := runs_ask_lift_iff.1 hy
      refine ⟨[reply], by rw [hsubmitted]; rfl, by rw [hsubmitted]; rfl, fun id hid => ?_⟩
      rw [raised_ok_iff.1 hid]
      rfl
  | events body =>
    unfold serve receiveEvents at h
    dsimp only at h
    have hsubmitted : submitted (.events body) = match validateAll body with
      | .ok events => if maxBatchSize < events.length then [] else events
      | .error _ => [] := rfl
    split at h
    · rename_i hnil
      subst hnil
      obtain ⟨rfl, rfl⟩ := runs_ret_iff.1 h
      exact .refused rfl rfl
    split at h
    · rename_i hvalid
      obtain ⟨rfl, rfl⟩ := runs_ret_iff.1 h
      exact .refused (by rw [hsubmitted, hvalid]) (complained_messageIds _)
    · rename_i hvalid
      obtain ⟨rfl, rfl⟩ := runs_ret_iff.1 h
      exact .refused (by rw [hsubmitted, hvalid]) rfl
    · rename_i events hvalid
      rw [hvalid] at hsubmitted
      dsimp only at hsubmitted
      split at h
      · rename_i hlong
        obtain ⟨rfl, rfl⟩ := runs_ret_iff.1 h
        exact .refused (by rw [hsubmitted, if_pos hlong]) rfl
      · rename_i hshort
        rw [if_neg hshort] at hsubmitted
        refine requestCalls_of_respond h fun y hy => ?_
        obtain ⟨replies, hlen, rfl, rfl⟩ := runs_publishMany_iff.1 hy
        refine ⟨replies, by rw [hsubmitted, hlen], by rw [hsubmitted], fun ids hids => ?_⟩
        exact firstError_ok (raised_ok_iff.1 hids)

/-- The calls of a request: it creates the group, or publishes what it is to publish. -/
theorem RequestCalls.ops {r : Request} {x : Except Exn Response} (h : RequestCalls S r τ x) :
    ∀ c ∈ τ, c.op = .xgroupCreate ∨ ∃ event ∈ submitted r, c.op = .xadd (S.json.modelDumpJson event) := by
  cases h with
  | started hr reply hx =>
    intro c hc
    rw [List.mem_singleton.1 hc]
    exact Or.inl rfl
  | refused hr hids => simp
  | published hlen hids =>
    intro c hc
    obtain ⟨er, her, rfl⟩ := List.mem_map.1 hc
    exact Or.inr ⟨er.1, (List.of_mem_zip her).1, rfl⟩

/-- So is the call that comes next. -/
theorem op_of_serve {r : Request} {o : Op P} {k : o.Reply → Code P Response} (h : After (serve S r) τ (.op o k)) :
    o = .xgroupCreate ∨ ∃ event ∈ submitted r, o = .xadd (S.json.modelDumpJson event) := by
  obtain ⟨reply, τ', x, hruns⟩ := h.exists_runs nonempty_reply
  exact (requestCalls_of_runs hruns).ops ⟨o, reply⟩ (List.mem_append_right _ (List.mem_cons_self ..))

end App
