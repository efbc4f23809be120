/-
What the API accepts and what the worker reads back. The length of a currency is checked before it
is stripped and upper-cased, so an accepted event is read back exactly if its normalised currency
has three characters; otherwise the worker dead-letters an event the client was told is accepted.
-/
import EventService.Run.Reachable

namespace App

open Store

variable {P : Type}

/-- Stripped and upper-cased, the currency of the document has three characters: neither padding
was removed nor did a character expand, or the one makes up for the other. -/
def KeepsLength (d : EventIn) : Prop := (PyStr.upper (PyStr.strip d.currency)).length = 3

/-- Currencies whose characters each have a one-character upper case, and that have no blank at
either end, keep their length. -/
theorem keepsLength_of_plain {d : EventIn} {e : TransactionEvent} (h : validate d = .ok e)
    (hstrip : PyStr.strip d.currency = d.currency)
    (hupper : (PyStr.upper d.currency).length = d.currency.length) : KeepsLength d := by
  have hlen : d.currency.length = 3 := (EventIn.errors_eq_nil.1 (validate_ok h).1).2.2.2.1
  unfold KeepsLength
  rw [hstrip, hupper, hlen]

theorem modelValidateJson_accepted (J : JsonLayer P) {d : EventIn} {e : TransactionEvent}
    (h : validate d = .ok e) :
    J.modelValidateJson (J.modelDumpJson e) = .ok e ↔ KeepsLength d := by
  obtain ⟨-, -, -, -, hcurrency, -⟩ := validate_ok h
  unfold KeepsLength
  rw [J.modelValidateJson_dump, hcurrency]
  by_cases hlen : (PyStr.upper (PyStr.strip d.currency)).length = 3
  · rw [if_pos hlen]
    exact ⟨fun _ => hlen, fun _ => rfl⟩
  · rw [if_neg hlen]
    constructor
    · rintro ⟨⟩
    · intro h
      exact absurd h hlen

/-- For every document the API accepts: the event is read back from its payload exactly if the
currency keeps its length, and otherwise exactly the worker refuses the message for good. -/
theorem accepted_is_read_back_iff (S : Service P) {d : EventIn} {e : TransactionEvent}
    (h : validate d = .ok e) :
    (S.json.modelValidateJson (S.json.modelDumpJson e) = .ok e ↔ KeepsLength d) ∧
    ∀ m : QueuedMessage P, m.payload = S.json.modelDumpJson e →
      ((∀ text, parse S m ≠ .error (.event .invalidEventError text)) ↔ KeepsLength d) := by
  have hback := modelValidateJson_accepted S.json h
  refine ⟨hback, fun m hm => ?_⟩
  unfold parse
  rw [hm]
  by_cases hlen : KeepsLength d
  · rw [hback.2 hlen]
    exact ⟨fun _ => hlen, fun _ text => by simp⟩
  · -- the length is all that can be complained about, and the complaint is what `_parse` catches
    have hdump := S.json.modelValidateJson_dump e
    split at hdump
    · exact absurd (hback.1 hdump) hlen
    · rw [hdump]
      exact ⟨fun hnone => absurd rfl (hnone _), fun h => absurd h hlen⟩

theorem exists_validate_ok {d : EventIn} (h : (validate d).toBool = true) : ∃ e, validate d = .ok e := by
  cases hv : validate d with
  | ok e => exact ⟨e, rfl⟩
  | error r =>
    rw [hv] at h
    cases h

theorem usd_is_read_back : ∃ e, validate (Trace.document "a" (.finite false 5 0) "usd") = .ok e ∧
    JsonLayer.documents.modelValidateJson (JsonLayer.documents.modelDumpJson e) = .ok e := by
  obtain ⟨e, hv⟩ := exists_validate_ok (d := Trace.document "a" (.finite false 5 0) "usd") (by decide +kernel)
  have hkeeps : KeepsLength (Trace.document "a" (.finite false 5 0) "usd") := by
    unfold KeepsLength
    decide +kernel
  exact ⟨e, hv, (accepted_is_read_back_iff (documentService {}) hv).1.2 hkeeps⟩

/-- Three characters that are normalised to `"AB"`. -/
def paddedDocument : EventIn := Trace.document "a" (.finite false 5 0) "ab "

/-- A worker reads the padded document's event and dead-letters it. -/
def paddedTrace : List Action :=
  Trace.publish 0 paddedDocument ++ Trace.boot 0 ++ Trace.calls 0 .consume 2 ++ [.move 0 .consume] ++
  Trace.handles 0 .consume 0 1

/-- An accepted event that is not read back, and is dead-lettered because it does not parse. -/
theorem padded_currency_is_not_read_back :
    (∃ e, validate paddedDocument = .ok e ∧
      JsonLayer.documents.modelValidateJson (JsonLayer.documents.modelDumpJson e) ≠ .ok e) ∧
    ∃ s, System.Reachable (documentService {}) s ∧ s.answers = [.accepted "a".toList 1] ∧
      (s.world.dlq.map fun q => q.entries.map fun f => (f.payload.originalId, f.payload.reason)) =
        some [(1, "unparsable payload: 1 validation error for TransactionEvent")] := by
  constructor
  · obtain ⟨e, hv⟩ := exists_validate_ok (d := paddedDocument) (by decide +kernel)
    refine ⟨e, hv, fun hback => ?_⟩
    have hlen := (modelValidateJson_accepted JsonLayer.documents hv).1 hback
    unfold KeepsLength at hlen
    exact absurd hlen (by decide +kernel)
  · obtain ⟨s, hs, hp⟩ := System.exists_reachable (documentService {}) paddedTrace
      (fun s => s.answers = [.accepted "a".toList 1] &&
        (s.world.dlq.map fun q => q.entries.map fun f => (f.payload.originalId, f.payload.reason)) =
          some [(1, "unparsable payload: 1 validation error for TransactionEvent")]) (by decide +kernel)
    simp only [Bool.and_eq_true, decide_eq_true_eq] at hp
    exact ⟨s, hs, hp⟩

end App
