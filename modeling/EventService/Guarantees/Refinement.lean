/-
The service does what it is for. Seen from outside it is a set of books: events are accepted, each row is
stored for one of them under a new id, each dead-letter record is about one of them, and an entry leaves
the group's hands only when its event is stored, a record holds its payload, or it was trimmed away. Every
step of the service, whatever process or failure it is, is some entries in these books.
-/
import EventService.Program.Simulation
import EventService.Run.Reachable
import EventService.Store.Books

namespace App

open Store

variable {P : Type} (S : Service P)

/-- An entry is stored under the id of its event, in a row that `process` made of the event. -/
def rules : Rules (Entry P) PyStr Values (DlqRecord P) where
  key := Values.id
  hasKey e id := ∃ event, e.payload = S.json.modelDumpJson event ∧ id = event.id
  makes e v := ∃ event, e.payload = S.json.modelDumpJson event ∧
    convertToUsd event.amount v.rate = .ok v.amountUsd ∧ v = event.values v.amountUsd v.rate v.processedAt
  notes e r := r.payload = e.payload

/-- The records of the dead-letter stream. -/
def World.records (w : World P) : List (DlqRecord P) := ((w.dlq.map Stream.added).getD []).map Entry.payload

/-- What the service shows in the books. -/
def System.books (s : System P) : Books (Entry P) Values (DlqRecord P) where
  accepted := s.world.stream.added
  rows := s.world.table.rows
  parked := s.world.records
  lost := {e | e ∈ s.world.stream.dropped}
  settled := {e | e ∈ s.world.stream.added ∧ ¬s.world.stream.Open e.id}

theorem System.books_initial : (System.initial P).books = Books.empty := by
  unfold books Books.empty
  congr 1
  · ext e
    simp [initial, World.initial, Stream.empty]
  · ext e
    simp [initial, World.initial, Stream.added, Stream.empty]

section Books

variable {S} {w w' : World P} {s t : System P}

theorem records_prefix (h : Le w w') : w.records <+: w'.records := by
  unfold World.records
  cases hq : w.dlq with
  | none => exact List.nil_prefix
  | some q =>
    obtain ⟨q', hq', hle⟩ := h.dlq q hq
    rw [Option.mem_def.1 hq']
    exact hle.map Entry.payload

theorem mem_records {r : DlqRecord P} : r ∈ w.records ↔ ∃ q ∈ w.dlq, ∃ f ∈ q.added, f.payload = r := by
  unfold World.records
  cases w.dlq with
  | none => simp
  | some q => simp

/-- Later worlds take nothing back. -/
theorem books_le (h : Le s.world t.world) : s.books.Le t.books where
  accepted := h.stream.added
  rows := h.table.rows
  parked := records_prefix h
  lost := fun _ he => h.stream.dropped.subset he
  settled := fun _ he => ⟨h.stream.added.subset he.1, Stream.not_open_of_le h.stream he.2⟩

/-- The invariant of the service keeps the books in order. -/
theorem books_inOrder (hi : Inv S s.world) : s.books.InOrder (rules S) where
  unique := ids_nodup _
  made := by
    intro v hv
    obtain ⟨event, ⟨e, he, hp⟩, -, -, husd, hvalues⟩ := hi.made v (Or.inl hv)
    exact ⟨e, he, event, hp, husd, hvalues⟩
  noted := by
    intro r hr
    obtain ⟨q, hq, f, hf, rfl⟩ := mem_records.1 hr
    obtain ⟨q', hq', hrec⟩ := hi.parked
    obtain rfl := Option.some.inj (hq.symm.trans hq')
    obtain ⟨-, e, he, -, hp⟩ := hrec f hf
    exact ⟨e, he, hp.symm⟩
  settled := by
    rintro e ⟨he, hclosed⟩
    refine ⟨he, ?_⟩
    rcases hi.accounted e he with hopen | (⟨event, hp, v, hv, hid⟩ | ⟨q, hq, f, hf, hp⟩) | hdropped
    · exact absurd hopen hclosed
    · exact Or.inl (Or.inl ⟨v, hv, event, hp, hid⟩)
    · exact Or.inl (Or.inr ⟨f.payload, mem_records.2 ⟨q, hq, f, hf, rfl⟩, hp⟩)
    · exact Or.inr hdropped

/-- One step of the service is some entries in the books. -/
theorem System.simulates_books : Steps.Simulates (System.step S) (System.Ok S) (Books.Step (rules S)) System.books where
  keeps := fun _ _ _ hs ht => (hs.step ht).1
  steps := by
    intro s a t hs ht
    obtain ⟨ht', hle⟩ := hs.step ht
    exact Books.steps_of_le (books_le hle) (books_inOrder ht'.inv) fun e he => List.mem_append_left _ he

theorem System.steps_of_run (h : System.Run S s t) : Steps.Run (System.step S) s t := by
  induction h with
  | refl => exact .refl
  | step a _ ht ih => exact ih.tail ⟨a, ht⟩

/-- Every run of the service, with any number of clients and workers, in any interleaving and with any
failures, is a run of the books: from empty books to those of each state, and on to those of every later
state. -/
theorem service_refines_books (h : System.Reachable S s) (hrun : System.Run S s t) :
    Books.Steps (rules S) Books.empty s.books ∧ Books.Steps (rules S) s.books t.books := by
  have hs := System.simulates_books.run ok_initial (System.steps_of_run h)
  refine ⟨?_, (System.simulates_books.run hs.1 (System.steps_of_run hrun)).2⟩
  rw [← System.books_initial]
  exact hs.2

/-- A worker crashes behind its commit; its event is published again and found by another worker. -/
def crashedBooks : List Action := List.flatten [
  Trace.publish 0 (Trace.document "a" (.finite false 5 0) "USD"),
  Trace.publish 1 (Trace.document "a" (.finite false 5 0) "USD"), Trace.boot 0, Trace.boot 1,
  Trace.calls 0 .consume 2, [.move 0 .consume], Trace.handles 0 .consume 0 5, [.crash 0],
  Trace.calls 1 .consume 2, [.move 1 .consume], Trace.handles 1 .consume 0 6, [.move 1 .consume],
  Trace.calls 1 .consume 1]

theorem crashedBooks_are_a_run : ∃ s, System.Reachable (documentService { batchSize := 1 }) s ∧
    s.books.accepted.length = 2 ∧ s.books.rows.length = 1 ∧
    Books.Steps (rules (documentService { batchSize := 1 })) Books.empty s.books := by
  obtain ⟨s, hs, hp⟩ := System.exists_reachable (documentService { batchSize := 1 }) crashedBooks
    (fun s => s.world.stream.added.length = 2 && s.world.table.rows.length = 1) (by decide +kernel)
  simp only [Bool.and_eq_true, decide_eq_true_eq] at hp
  have hsteps := (service_refines_books (.refl _) hs).2
  rw [System.books_initial] at hsteps
  exact ⟨s, hs, hp.1, hp.2, hsteps⟩

end Books

end App
