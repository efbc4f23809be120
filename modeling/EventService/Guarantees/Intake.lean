/-
Where the entries of the stream come from, those included that were trimmed away since. Each was appended for
exactly one request, which contributes events of its body only, each at most once and in their order; and if it
is answered with message ids, it has contributed exactly these events under exactly these ids.
-/
import EventService.Run.Provenance
import EventService.Run.Requests

namespace App

open Prog Store

variable {P : Type} {S : Service P} {s : System P} {log : List (Event P)}

/-- The entries a call has appended to the stream. -/
def Event.appended (ev : Event P) : List (Entry P) := ev.after.stream.added.drop ev.before.stream.added.length

/-- The entries that were appended for a request. -/
def intake (i : Nat) (log : List (Event P)) : List (Entry P) :=
  (log.filter fun ev => ev.caller = .client i).flatMap Event.appended

/-! ## One call -/

/-- What a call may have appended: an `XADD` its payload, and whoever is told an id finds it under that id. -/
def Appends (call : Call (@Op.Reply P)) (es : List (Entry P)) : Prop :=
  match call with
  | ⟨.xadd payload, .ok id⟩ => es = [⟨id, payload⟩]
  | ⟨.xadd payload, .error _⟩ => es = [] ∨ ∃ id, es = [⟨id, payload⟩]
  | ⟨_, _⟩ => es = []

theorem appends_of_exec {o : Op P} {c : Choice} {r : o.Reply} {w w' : World P}
    (h : World.exec S o c w = some (r, w')) :
    ∃ es, w'.stream.added = w.stream.added ++ es ∧ Appends ⟨o, r⟩ es := by
  by_cases ho : o.isXadd = false
  · refine ⟨[], by rw [(sameEntries_of_exec ho h).added, List.append_nil], ?_⟩
    unfold Appends
    cases o with
    | xadd => cases ho
    | _ => rfl
  · cases o with
    | xadd payload =>
      have hadded := w.stream.added_addCapped S.settings.streamMaxLen c.trim payload
      have heq := Option.some.inj h
      unfold Choice.command at heq
      split at heq
      · obtain ⟨rfl, rfl⟩ := Prod.mk.inj heq
        exact ⟨_, hadded, rfl⟩
      · obtain ⟨rfl, rfl⟩ := Prod.mk.inj heq
        exact ⟨[], (List.append_nil _).symm, Or.inl rfl⟩
      · obtain ⟨rfl, rfl⟩ := Prod.mk.inj heq
        exact ⟨_, hadded, Or.inr ⟨_, rfl⟩⟩
    | _ => exact absurd rfl ho

theorem appended_of_made {ev : Event P} (h : ev.Made S) :
    ev.after.stream.added = ev.before.stream.added ++ ev.appended ∧ Appends ev.call ev.appended := by
  obtain ⟨c, hexec⟩ := h
  obtain ⟨es, hadded, happends⟩ := appends_of_exec hexec
  have heq : ev.appended = es := by
    unfold Event.appended
    rw [hadded, List.drop_left]
  rw [heq]
  exact ⟨hadded, happends⟩

/-! ## The calls of a request -/

/-- As far as a request has published its events, their payloads were appended in this order, if at all. -/
theorem sublist_of_publishing {events : List TransactionEvent} {replies : List (Except Foreign Nat)}
    {calls : List (Call Op.Reply)} {ess : List (List (Entry P))} (h : List.Forall₂ Appends calls ess)
    (hpre : calls <+: publishing S events replies) :
    (ess.flatten.map Entry.payload).Sublist (events.map S.json.modelDumpJson) := by
  induction h generalizing events replies with
  | nil => simp
  | @cons call es calls ess hcall hrest ih =>
    cases events with
    | nil => exact absurd (List.prefix_nil.1 hpre) (by simp)
    | cons event events =>
      cases replies with
      | nil => exact absurd (List.prefix_nil.1 hpre) (by simp)
      | cons reply replies =>
        obtain ⟨rfl, htail⟩ := List.cons_prefix_cons.1 hpre
        rw [List.flatten_cons, List.map_append, List.map_cons]
        have hes : es = [] ∨ ∃ id, es = [⟨id, S.json.modelDumpJson event⟩] := by
          cases reply with
          | error e => exact hcall
          | ok id => exact Or.inr ⟨id, hcall⟩
        rcases hes with rfl | ⟨id, rfl⟩
        · exact (ih htail).cons _
        · exact (ih htail).cons_cons _

/-- What was published and answered with ids was appended under these ids. -/
theorem flatten_of_publishing {events : List TransactionEvent} {ids : List Nat} {ess : List (List (Entry P))}
    (hlen : ids.length = events.length) (h : List.Forall₂ Appends (publishing S events (ids.map .ok)) ess) :
    ess.flatten = List.zipWith (fun id event => ⟨id, S.json.modelDumpJson event⟩) ids events := by
  induction events generalizing ids ess with
  | nil =>
    obtain rfl := List.length_eq_zero_iff.1 hlen
    cases h
    rfl
  | cons event events ih =>
    cases ids with
    | nil => cases hlen
    | cons id ids =>
      cases h with
      | cons hcall hrest =>
        rw [List.flatten_cons, show _ = _ from hcall, ih (Nat.succ.inj hlen) hrest]
        rfl

/-! ## The service -/

/-- The stream holds what was appended by the calls of the history, one behind the other. -/
theorem added_of_chronicle (h : System.Chronicle S s log) : s.world.stream.added = log.flatMap Event.appended := by
  refine h.keeps (I := fun s log => s.world.stream.added = log.flatMap Event.appended) rfl ?_ ?_
  · intro s t log p o reply _ ih _ hmade _
    rw [List.flatMap_append, List.flatMap_singleton, ← ih]
    exact (appended_of_made hmade).1
  · intro s t log ih _ hidle _
    rw [hidle.stream]
    exact ih

theorem made_of_mem (h : System.Chronicle S s log) {ev : Event P} (hev : ev ∈ log) : ev.Made S := by
  obtain ⟨l, l', rfl⟩ := List.append_of_mem hev
  exact (h.ordered l ev ⟨l', by simp⟩).1

/-- A call that has appended something is one of a request. -/
theorem client_of_appended (h : System.Chronicle S s log) {ev : Event P} (hev : ev ∈ log) (hne : ev.appended ≠ []) :
    ∃ i, ev.caller = .client i := by
  rcases byWorker_of_chronicle h ev hev with hclient | ⟨worker, -, hop⟩
  · exact hclient
  · -- the calls of workers append nothing
    obtain ⟨c, hexec⟩ := made_of_mem h hev
    refine absurd ?_ hne
    unfold Event.appended
    rw [(sameEntries_of_exec (isXadd_of_byWorker hop) hexec).added, List.drop_length]

theorem mem_intake {i : Nat} {e : Entry P} : e ∈ intake i log ↔ ∃ ev ∈ log, ev.caller = .client i ∧ e ∈ ev.appended := by
  unfold intake
  simp only [List.mem_flatMap, List.mem_filter, decide_eq_true_eq, and_assoc]

theorem intake_sublist (h : System.Chronicle S s log) (i : Nat) : (intake i log).Sublist s.world.stream.added := by
  rw [added_of_chronicle h]
  exact List.filter_sublist.flatMap _

theorem added_nodup (s : Stream P) : (s.added.map Entry.id).Nodup := (List.pairwise_map.2 s.sorted).imp Nat.ne_of_lt

/-- Each entry was appended for one request. -/
theorem intake_unique (h : System.Chronicle S s log) {i j : Nat} {e : Entry P} (hi : e ∈ intake i log)
    (hj : e ∈ intake j log) : i = j := by
  obtain ⟨ev, hev, hcaller, he⟩ := mem_intake.1 hi
  obtain ⟨ev', hev', hcaller', he'⟩ := mem_intake.1 hj
  have hnodup : (log.flatMap Event.appended).Nodup := by
    rw [← added_of_chronicle h]
    exact (added_nodup s.world.stream).of_map _
  have hdisjoint := (List.nodup_flatMap.1 hnodup).2
  by_contra hne
  have hevs : ev ≠ ev' := by
    rintro rfl
    exact hne (Process.client.inj (hcaller.symm.trans hcaller'))
  have hsymm : Std.Symm (Function.onFun List.Disjoint (Event.appended (P := P))) := ⟨fun _ _ hd => hd.symm⟩
  exact hdisjoint.forall hev hev' hevs he he'

/-- What a request's calls have appended. -/
theorem appends_of_client (h : System.Chronicle S s log) (i : Nat) :
    ∃ ess, List.Forall₂ Appends (callsBy (.client i) log) ess ∧ intake i log = ess.flatten := by
  refine ⟨(log.filter fun ev => ev.caller = .client i).map Event.appended, ?_, ?_⟩
  · unfold callsBy
    rw [List.forall₂_map_left_iff, List.forall₂_map_right_iff, List.forall₂_same]
    intro ev hev
    exact (appended_of_made (made_of_mem h (List.mem_filter.1 hev).1)).2
  · unfold intake
    rw [List.flatMap_def]

theorem appends_xgroupCreate {reply : Except Foreign Unit} {ess : List (List (Entry P))}
    {calls : List (Call (@Op.Reply P))} (h : List.Forall₂ Appends calls ess) (hpre : calls <+: [⟨.xgroupCreate, reply⟩]) :
    ess.flatten = [] := by
  cases h with
  | nil => rfl
  | cons hcall hrest =>
    obtain ⟨rfl, htail⟩ := List.cons_prefix_cons.1 hpre
    obtain rfl := List.prefix_nil.1 htail
    cases hrest
    rw [show _ = _ from hcall]
    rfl

/-- The events a request has got into the stream so far are events of its body, in their order. -/
theorem intake_sublist_submitted (h : System.Chronicle S s log) {i : Nat} {r : Request} {code : Code P Response}
    (hi : s.requests[i]? = some (r, code)) :
    ((intake i log).map Entry.payload).Sublist ((submitted r).map S.json.modelDumpJson) := by
  obtain ⟨ess, hess, heq⟩ := appends_of_client h i
  obtain ⟨τ, x, hruns⟩ := Prog.exists_runs nonempty_reply code
  have hcalls := requestCalls_of_runs (((provenance_of_chronicle h).requests i r code hi).runs hruns)
  have hpre : callsBy (.client i) log <+: callsBy (.client i) log ++ τ := List.prefix_append ..
  rw [heq]
  generalize callsBy (.client i) log ++ τ = calls at hcalls hpre
  cases hcalls with
  | started => simp [appends_xgroupCreate hess hpre]
  | refused =>
    rw [List.prefix_nil.1 hpre] at hess
    cases hess
    simp
  | published hlen hids => exact sublist_of_publishing hess hpre

/-- Once it was answered with message ids, they are its events, under these ids. -/
theorem intake_of_answered (h : System.Chronicle S s log) {i : Nat} {r : Request} {response : Response}
    (hi : s.requests[i]? = some (r, .ret response)) (hids : response.messageIds ≠ []) :
    response.messageIds.length = (submitted r).length ∧
      intake i log = List.zipWith (fun id event => ⟨id, S.json.modelDumpJson event⟩) response.messageIds
        (submitted r) := by
  obtain ⟨ess, hess, heq⟩ := appends_of_client h i
  have hcalls := requestCalls_of_runs (((provenance_of_chronicle h).requests i r _ hi).runs (.ret response))
  rw [List.append_nil] at hcalls
  rw [heq]
  generalize callsBy (.client i) log = calls at hcalls hess
  cases hcalls with
  | started hr reply hx => exact absurd (hx response rfl) hids
  | refused hr hnone => exact absurd hnone hids
  | published hlen hanswer =>
    rcases hanswer with hnone | rfl
    · exact absurd hnone hids
    · rw [List.length_map] at hlen
      exact ⟨hlen, flatten_of_publishing hlen hess⟩

/-- What was ever appended to the stream is what the requests have put in: each entry was appended for exactly one
of them;
a request gets in only events of its body, each at most once and in their order; and if it is answered with
message ids, all of them under exactly these ids. -/
theorem stream_is_what_was_submitted (h : System.Chronicle S s log) :
    (∀ e ∈ s.world.stream.added, ∃! i, e ∈ intake i log) ∧
      ∀ i r code, s.requests[i]? = some (r, code) → (intake i log).Sublist s.world.stream.added ∧
        ((intake i log).map Entry.payload).Sublist ((submitted r).map S.json.modelDumpJson) ∧
        ∀ response, code = .ret response → response.messageIds ≠ [] →
          response.messageIds.length = (submitted r).length ∧
          intake i log = List.zipWith (fun id event => ⟨id, S.json.modelDumpJson event⟩) response.messageIds
            (submitted r) := by
  constructor
  · intro e he
    rw [added_of_chronicle h] at he
    obtain ⟨ev, hev, hmem⟩ := List.mem_flatMap.1 he
    obtain ⟨i, hcaller⟩ := client_of_appended h hev (List.ne_nil_of_mem hmem)
    have hi : e ∈ intake i log := mem_intake.2 ⟨ev, hev, hcaller, hmem⟩
    exact ⟨i, hi, fun j hj => intake_unique h hj hi⟩
  · intro i r code hi
    refine ⟨intake_sublist h i, intake_sublist_submitted h hi, ?_⟩
    rintro response rfl hids
    exact intake_of_answered h hi hids

/-- The ids a client is answered with are those of its entries. -/
theorem ids_of_answered (h : System.Chronicle S s log) {i : Nat} {r : Request} {response : Response}
    (hi : s.requests[i]? = some (r, .ret response)) (hids : response.messageIds ≠ []) :
    response.messageIds = (intake i log).map Entry.id := by
  obtain ⟨hlen, hintake⟩ := intake_of_answered h hi hids
  rw [hintake, List.map_zipWith]
  exact (List.map_fst_zip hlen.le).symm.trans (by rw [List.zip, List.map_zipWith])

/-- So they are among those of the entries it got in. -/
theorem ids_of_answer (h : System.Chronicle S s log) {i : Nat} (hi : i < s.requests.length) {response : Response}
    (hcode : s.requests[i].2 = .ret response) : response.messageIds.Sublist ((intake i log).map Entry.id) := by
  by_cases hnil : response.messageIds = []
  · rw [hnil]
    exact List.nil_sublist _
  · have hget : s.requests[i]? = some (s.requests[i].1, .ret response) := by
      rw [List.getElem?_eq_getElem hi, ← hcode]
    rw [ids_of_answered h hget hnil]

/-- No message id is ever given to clients twice, within a batch or across all requests. -/
theorem messageIds_are_given_once (h : System.Reachable S s) : (s.answers.flatMap Response.messageIds).Nodup := by
  obtain ⟨log, hlog⟩ := System.exists_chronicle S h
  -- what two requests were answered with has nothing in common
  have hapart : s.requests.Pairwise fun x y => ∀ response, x.2 = .ret response → ∀ response', y.2 = .ret response' →
      response.messageIds.Disjoint response'.messageIds := by
    rw [List.pairwise_iff_getElem]
    intro i j hi hj hij response hcode response' hcode' id hid hid'
    obtain ⟨e, he, rfl⟩ := List.mem_map.1 ((ids_of_answer hlog hi hcode).subset hid)
    obtain ⟨f, hf, hef⟩ := List.mem_map.1 ((ids_of_answer hlog hj hcode').subset hid')
    -- the two entries have one id, so they are one entry, of two requests
    have hmem := (intake_sublist hlog i).subset he
    obtain rfl := Stream.added_unique hmem ((intake_sublist hlog j).subset hf) hef.symm
    exact absurd (intake_unique hlog he hf) hij.ne
  unfold System.answers
  rw [List.nodup_flatMap, List.pairwise_filterMap]
  constructor
  · intro response hresponse
    obtain ⟨x, hx, heq⟩ := List.mem_filterMap.1 hresponse
    obtain ⟨i, hi, rfl⟩ := List.mem_iff_getElem.1 hx
    split at heq
    · rename_i a hcode
      rw [← Option.some.inj heq]
      exact (added_nodup s.world.stream).sublist
        ((ids_of_answer hlog hi hcode).trans ((intake_sublist hlog i).map Entry.id))
    · cases heq
    · cases heq
  · refine hapart.imp fun hxy response heq response' heq' => ?_
    split at heq
    · rename_i a hcode
      split at heq'
      · rename_i b hcode'
        rw [← Option.some.inj heq, ← Option.some.inj heq']
        exact hxy a hcode b hcode'
      · cases heq'
      · cases heq'
    · cases heq
    · cases heq

/-- A pipeline of three events of which the second is refused, and an event of another client between. -/
def partialBatchRun : List Action := List.flatten [
  [.request (.events [Trace.document "a" (.finite false 5 0) "USD", Trace.document "b" (.finite false 6 0) "USD",
    Trace.document "c" (.finite false 7 0) "USD"]), .serve 0 {}],
  Trace.publish 1 (Trace.document "d" (.finite false 8 0) "USD"), [.serve 0 Trace.refused, .serve 0 {}]]

theorem partialBatchRun_partitions : ∃ s log, System.Chronicle (documentService {}) s log ∧
    s.answers = [queueUnavailable, .accepted "d".toList 2] ∧
    ((intake 0 log).map fun e => (e.id, e.payload.id)) = [(1, "a".toList), (3, "c".toList)] ∧
    ((intake 1 log).map fun e => (e.id, e.payload.id)) = [(2, "d".toList)] ∧
    ∀ e ∈ s.world.stream.added, ∃! i, e ∈ intake i log := by
  obtain ⟨s, log, h, hp⟩ := System.exists_chronicle_of (documentService {}) partialBatchRun
    (fun s log => decide (s.answers = [queueUnavailable, .accepted "d".toList 2] ∧
      ((intake 0 log).map fun e => (e.id, e.payload.id)) = [(1, "a".toList), (3, "c".toList)] ∧
      ((intake 1 log).map fun e => (e.id, e.payload.id)) = [(2, "d".toList)])) (by decide +kernel)
  obtain ⟨hanswers, hfirst, hsecond⟩ := of_decide_eq_true hp
  exact ⟨s, log, h, hanswers, hfirst, hsecond, (stream_is_what_was_submitted h).1⟩

theorem partialBatchRun_gives_ids_once : ∃ s, System.Reachable (documentService {}) s ∧
    s.answers = [queueUnavailable, .accepted "d".toList 2] ∧ (s.answers.flatMap Response.messageIds).Nodup := by
  obtain ⟨s, h, hp⟩ := System.exists_reachable (documentService {}) partialBatchRun
    (fun s => decide (s.answers = [queueUnavailable, .accepted "d".toList 2])) (by decide +kernel)
  exact ⟨s, h, of_decide_eq_true hp, messageIds_are_given_once h⟩

end App
