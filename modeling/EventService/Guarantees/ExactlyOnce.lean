/-
Storage is exactly once, and the first write wins: no two rows share an id, a committed row stays
as it is, and every row was made by one call of `process` from one published event.
-/
import EventService.Run.Reachable

namespace App

open Store

variable {P : Type} {S : Service P}

/-- Exactly-once storage: in every reachable state no two rows share an id, every later state has
the same rows in front of its new ones, and every row holds one published event with a rate that
was looked up for its currency and the amount that was converted at this rate. -/
theorem storage_is_exactly_once {s : System P} (h : System.Reachable S s) :
    (s.world.table.rows.map Values.id).Nodup ∧
    (∀ t, System.Run S s t → s.world.table.rows <+: t.world.table.rows) ∧
    ∀ v ∈ s.world.table.rows, ∃ event, Published S s.world event ∧
      v.id = event.id ∧ v.userId = event.userId ∧ v.amount = event.amount ∧
      v.currency = event.currency ∧ v.timestamp = event.timestamp ∧
      (event.currency, v.rate) ∈ s.world.rates ∧ RateFrom s.world event.currency v.rate ∧
      convertToUsd event.amount v.rate = .ok v.amountUsd := by
  have hi := (ok_of_reachable h).inv
  refine ⟨ids_nodup _, fun t hrun => rows_prefix_of_run h hrun, fun v hv => ?_⟩
  obtain ⟨event, hpub, -, hrate, husd, hvalues⟩ := hi.made v (Or.inl hv)
  refine ⟨event, hpub, ?_, ?_, ?_, ?_, ?_, hrate, hi.rated _ hrate, husd⟩
  all_goals rw [hvalues]; rfl

/-- Two events with one id and different amounts. Worker 0 commits the first and is told that the
commit failed; worker 1 finds the row when it processes the second. -/
def duplicateTrace : List Action :=
  Trace.publish 0 (Trace.document "a" (.finite false 5 0) "USD") ++
  Trace.publish 1 (Trace.document "a" (.finite false 7 0) "USD") ++
  Trace.boot 0 ++ Trace.boot 1 ++
  Trace.calls 0 .consume 2 ++ [.move 0 .consume] ++ Trace.calls 1 .consume 2 ++ [.move 1 .consume] ++
  Trace.handles 0 .consume 0 4 ++ [.handle 0 .consume 0 Trace.disconnected] ++
  Trace.handles 1 .consume 0 6

theorem duplicateTrace_stores_one_row : ∃ s, System.Reachable (documentService { batchSize := 1 }) s ∧
    s.world.stream.entries.length = 2 ∧ s.world.table.rows.map Values.amount = [.finite false 5 0] ∧
    s.outcomes = [2] ∧ (s.world.table.rows.map Values.id).Nodup ∧
    ∀ t, System.Run (documentService { batchSize := 1 }) s t →
      s.world.table.rows <+: t.world.table.rows := by
  obtain ⟨s, hs, hp⟩ := System.exists_reachable (documentService { batchSize := 1 }) duplicateTrace
    (fun s => s.world.stream.entries.length = 2 &&
      s.world.table.rows.map Values.amount = [.finite false 5 0] && s.outcomes = [2]) (by decide +kernel)
  simp only [Bool.and_eq_true, decide_eq_true_eq] at hp
  obtain ⟨hunique, hkept, -⟩ := storage_is_exactly_once hs
  exact ⟨s, hs, hp.1.1, hp.1.2, hp.2, hunique, hkept⟩

end App
