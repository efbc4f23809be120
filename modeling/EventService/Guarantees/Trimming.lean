/-
What trimming costs. Publishing may drop the oldest entries whatever their state, and a claim that
finds a pending entry gone takes it off the pending list; the reclaim loop acknowledges it without
asking what became of its event. Every entry that left the group's hands has a row, or a record in
the dead-letter stream, which is trimmed as the stream is, or was trimmed away itself; so only what
was trimmed can be lost.
-/
import EventService.Run.Reachable

namespace App

open Store

variable {P : Type} {S : Service P}

/-- A committed row carries the id of the entry's event. -/
def HasRow (S : Service P) (w : World P) (e : Entry P) : Prop :=
  ∃ event, e.payload = S.json.modelDumpJson event ∧ w.table.Has event.id

/-- The dead-letter stream holds the entry's payload. -/
def InDlq (w : World P) (e : Entry P) : Prop := ∃ q ∈ w.dlq, ∃ f ∈ q.entries, f.payload.payload = e.payload

/-- A record with the entry's payload was trimmed out of the dead-letter stream. -/
def TrimmedFromDlq (w : World P) (e : Entry P) : Prop :=
  ∃ q ∈ w.dlq, ∃ f ∈ q.dropped, f.payload.payload = e.payload

/-- What has landed has a row, or its record is in the dead-letter stream or was. -/
theorem landed_cases {w : World P} {e : Entry P} (h : Landed S w e) :
    HasRow S w e ∨ InDlq w e ∨ TrimmedFromDlq w e := by
  rcases h with hrow | ⟨q, hq, f, hf, hpayload⟩
  · exact Or.inl hrow
  · rcases List.mem_append.1 hf with hdropped | hentry
    · exact Or.inr (Or.inr ⟨q, hq, f, hdropped, hpayload⟩)
    · exact Or.inr (Or.inl ⟨q, hq, f, hentry, hpayload⟩)

/-- In every reachable state: what a claim reported as deleted had been trimmed out of the stream; every entry
the group has read that is not pending any more has a row, or the dead-letter stream holds its payload, or its
record was trimmed away there, or the entry was; and the last is not so while it is in the stream. -/
theorem only_trimmed_entries_vanish {s : System P} (h : System.Reachable S s) :
    (∀ id ∈ s.world.vanished, ∃ e ∈ s.world.stream.dropped, e.id = id) ∧
    (∀ e ∈ s.world.stream.added, ¬s.world.stream.Unread e.id → ¬s.world.stream.IsPending e.id →
      HasRow S s.world e ∨ InDlq s.world e ∨ TrimmedFromDlq s.world e ∨ e ∈ s.world.stream.dropped) ∧
    ∀ e ∈ s.world.stream.entries, ¬s.world.stream.Unread e.id → ¬s.world.stream.IsPending e.id →
      HasRow S s.world e ∨ InDlq s.world e ∨ TrimmedFromDlq s.world e := by
  have hi := (ok_of_reachable h).inv
  have hgone : ∀ e ∈ s.world.stream.added, ¬s.world.stream.Unread e.id → ¬s.world.stream.IsPending e.id →
      Landed S s.world e ∨ e ∈ s.world.stream.dropped := by
    intro e he hread hacked
    rcases hi.accounted e he with (hunread | hpending) | hdone
    · exact absurd hunread hread
    · exact absurd hpending hacked
    · exact hdone
  refine ⟨hi.vanished, fun e he hread hacked => ?_, fun e he hread hacked => ?_⟩
  · rcases hgone e he hread hacked with hlanded | hdropped
    · rcases landed_cases hlanded with hrow | hheld | htrimmed
      · exact Or.inl hrow
      · exact Or.inr (Or.inl hheld)
      · exact Or.inr (Or.inr (Or.inl htrimmed))
    · exact Or.inr (Or.inr (Or.inr hdropped))
  · rcases hgone e (List.mem_append_right _ he) hread hacked with hlanded | hdropped
    · exact landed_cases hlanded
    · exact absurd rfl ((List.pairwise_append.1 s.world.stream.sorted).2.2 e hdropped e he).ne

/-- An entry is read and its reply is lost, the next publish trims it away, and half a minute later
a claim finds it gone and the reclaim loop acknowledges it. -/
def trimmedTrace : List Action :=
  Trace.publish 0 (Trace.document "a" (.finite false 5 0) "USD") ++ Trace.boot 0 ++
  [.call 0 .consume {}, .call 0 .consume Trace.lost,
   .request (.event (Trace.document "b" (.finite false 7 0) "USD")), .serve 1 { trim := 1 }, .tick 30000] ++
  Trace.calls 0 .reclaim 5

/-- Both events were accepted; the first was acknowledged although no row was ever written and
nothing was ever dead-lettered. -/
def acknowledgedWithoutLanding (s : System EventIn) : Bool :=
  s.answers = [.accepted "a".toList 1, .accepted "b".toList 2] && s.world.vanished = [1] &&
    s.world.table.rows.isEmpty && (s.world.dlq.map fun q => q.added.length) = some 0

/-- A trimmed entry is reported as deleted although its event has not landed. -/
theorem trimmed_entry_has_not_landed :
    ∃ s, System.Reachable (documentService { streamMaxLen := 1 }) s ∧ acknowledgedWithoutLanding s = true :=
  System.exists_reachable (documentService { streamMaxLen := 1 }) trimmedTrace _ (by decide +kernel)

theorem trimmedTrace_vanishes_what_was_trimmed :
    ∃ s, System.Reachable (documentService { streamMaxLen := 1 }) s ∧ s.world.vanished = [1] ∧
      ∃ e ∈ s.world.stream.dropped, e.id = 1 := by
  obtain ⟨s, hs, hp⟩ := System.exists_reachable (documentService { streamMaxLen := 1 }) trimmedTrace
    (fun s => s.world.vanished = [1]) (by decide +kernel)
  have hvanished : s.world.vanished = [1] := of_decide_eq_true hp
  exact ⟨s, hs, hvanished, (only_trimmed_entries_vanish hs).1 1 (by rw [hvanished]; decide)⟩

end App
