/-
No accepted event is lost. While nothing is trimmed, every entry of the stream has not been read
by the group yet, or is in its pending list, or has landed: its event's row is committed or the
dead-letter stream holds its payload. Whatever a client was told to be accepted is such an entry.
-/
import EventService.Run.Reachable

namespace App

open Store

variable {P : Type} (S : Service P)

/-- Nothing was trimmed from either stream. -/
def Untrimmed (w : World P) : Prop := w.stream.dropped = [] ∧ ∀ q ∈ w.dlq, q.dropped = []

/-- Where an accepted event is: in the stream and not read by the group yet, in the pending list,
in a committed row with its id, or in the dead-letter stream with its payload unchanged. -/
def Kept (w : World P) (e : Entry P) : Prop :=
  (e ∈ w.stream.entries ∧ w.stream.Unread e.id) ∨
  w.stream.IsPending e.id ∨
  (∃ event, e.payload = S.json.modelDumpJson event ∧ w.table.Has event.id) ∨
  ∃ q ∈ w.dlq, ∃ f ∈ q.entries, f.payload.payload = e.payload

/-- The entries an answer speaks of are in the stream, under the ids the client was told, with the
events that were accepted, and every one of them is kept. -/
def AcceptedAreKept (w : World P) : Request → Response → Prop
  | .event body, .accepted id messageId => ∃ event, validate body = .ok event ∧ id = event.id ∧
      ⟨messageId, S.json.modelDumpJson event⟩ ∈ w.stream.added ∧
      Kept S w ⟨messageId, S.json.modelDumpJson event⟩
  | .events body, .batchAccepted _ messageIds => ∃ events, validateAll body = .ok events ∧
      List.Forall₂ (fun event id => ⟨id, S.json.modelDumpJson event⟩ ∈ w.stream.added ∧
        Kept S w ⟨id, S.json.modelDumpJson event⟩) events messageIds
  | .startup, .accepted _ _ | .startup, .batchAccepted _ _ => False
  | .event _, .batchAccepted _ _ | .events _, .accepted _ _ => False
  | _, .started | _, .failed _ _ => True

variable {S} {s : System P}

/-- What a client was answered is true of every later world. -/
theorem answered_of_reachable (h : System.Reachable S s) {r : Request} {response : Response}
    (hr : (r, .ret response) ∈ s.requests) : Answered S r response s.world :=
  (ok_of_reachable h).requests _ hr

theorem kept_of_added {w : World P} (hi : Inv S w) (ht : Untrimmed w) {e : Entry P}
    (he : e ∈ w.stream.added) : Kept S w e := by
  have hentry : e ∈ w.stream.entries := by
    rcases List.mem_append.1 he with hd | he
    · rw [ht.1] at hd
      cases hd
    · exact he
  rcases hi.accounted e he with (hunread | hpending) | (hrow | ⟨q, hq, f, hf, hp⟩) | hdropped
  · exact Or.inl ⟨hentry, hunread⟩
  · exact Or.inr (Or.inl hpending)
  · exact Or.inr (Or.inr (Or.inl hrow))
  · refine Or.inr (Or.inr (Or.inr ⟨q, hq, f, ?_, hp⟩))
    unfold Stream.added at hf
    rwa [ht.2 q hq, List.nil_append] at hf
  · rw [ht.1] at hdropped
    cases hdropped

/-- No accepted event is lost: in every reachable state in which nothing was trimmed, every entry
that was ever appended to the stream is kept, in particular those answered with 202. -/
theorem no_accepted_event_is_lost (h : System.Reachable S s) (ht : Untrimmed s.world) :
    (∀ e ∈ s.world.stream.added, Kept S s.world e) ∧
    ∀ r response, (r, .ret response) ∈ s.requests → AcceptedAreKept S s.world r response := by
  have hkept : ∀ e ∈ s.world.stream.added, Kept S s.world e :=
    fun e he => kept_of_added (ok_of_reachable h).inv ht he
  refine ⟨hkept, fun r response hr => ?_⟩
  have ha := answered_of_reachable h hr
  match r, response with
  | .event body, .accepted id messageId =>
    obtain ⟨event, hv, hid, hmem⟩ := ha
    exact ⟨event, hv, hid, hmem, hkept _ hmem⟩
  | .events body, .batchAccepted n messageIds =>
    obtain ⟨events, hv, hmem⟩ := ha
    exact ⟨events, hv, hmem.imp fun _ _ hm => ⟨hm, hkept _ hm⟩⟩
  | .startup, .accepted _ _ | .startup, .batchAccepted _ _ => exact ha
  | .event _, .batchAccepted _ _ | .events _, .accepted _ _ => exact ha
  | .startup, .started | .startup, .failed _ _ | .event _, .started | .event _, .failed _ _
  | .events _, .started | .events _, .failed _ _ => trivial

/-- Three published events: the first is stored although the reply to its commit was lost, and its
worker crashes before it is acknowledged; the second was read with it; the third is unread. -/
def crashTrace : List Action :=
  Trace.publish 0 (Trace.document "a" (.finite false 5 0) "USD") ++
  Trace.publish 1 (Trace.document "b" (.finite false 7 0) "USD") ++
  Trace.boot 0 ++ Trace.calls 0 .consume 2 ++ [.move 0 .consume] ++ Trace.handles 0 .consume 0 4 ++
  [.handle 0 .consume 0 Trace.disconnected, .crash 0] ++
  Trace.publish 2 (Trace.document "c" (.finite false 9 0) "USD")

theorem crashTrace_loses_nothing : ∃ s, System.Reachable (documentService {}) s ∧
    s.world.stream.entries.length = 3 ∧ s.world.table.rows.length = 1 ∧
    (∀ e ∈ s.world.stream.added, Kept (documentService {}) s.world e) ∧
    ∀ r response, (r, .ret response) ∈ s.requests →
      AcceptedAreKept (documentService {}) s.world r response := by
  obtain ⟨s, hs, hp⟩ := System.exists_reachable (documentService {}) crashTrace
    (fun s => s.world.stream.entries.length = 3 && s.world.table.rows.length = 1 &&
      s.world.stream.dropped.isEmpty && s.world.dlq.all fun q => q.dropped.isEmpty) (by decide +kernel)
  simp only [Bool.and_eq_true, decide_eq_true_eq, List.isEmpty_iff] at hp
  obtain ⟨⟨⟨hentries, hrows⟩, hstream⟩, hdlq⟩ := hp
  refine ⟨s, hs, hentries, hrows, no_accepted_event_is_lost hs ⟨hstream, fun q hq => ?_⟩⟩
  rw [Option.mem_def.1 hq] at hdlq
  simpa using hdlq

end App
