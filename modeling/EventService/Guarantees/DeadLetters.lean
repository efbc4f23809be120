/-
What dead-lettering leaves behind at every failure point. The command that parks a message and the
one that acknowledges it go out in one transaction, and Redis applies the second even if it refuses
the first: a message is acknowledged without being parked exactly if the transaction is applied while
the dead-letter key holds another type, or under a cap that trims the record away at once.
-/
import EventService.Run.Calls
import EventService.Model.System

namespace App

open Prog Store

variable {P : Type} (S : Service P)

/-! ## Where a message is -/

/-- The dead-letter stream holds a record of the message with its payload. -/
def Parked (w : World P) (m : QueuedMessage P) : Prop :=
  ∃ q ∈ w.dlq, ∃ e ∈ q.entries, e.payload.payload = m.payload ∧ e.payload.originalId = m.messageId

/-- The transaction takes effect, whether or not its reply arrives. -/
def Choice.applied (c : Choice) : Bool :=
  match c.fault with
  | .none | .after _ => true
  | .before _ => false

/-- Redis answered, so what is raised is the error of a command. -/
def Choice.answers (c : Choice) : Bool :=
  match c.fault with
  | .none => true
  | .before _ | .after _ => false

/-- The dead-letter key takes the record, and the trim that comes with it leaves the record there. -/
def Parks (w : World P) (c : Choice) : Prop :=
  ∃ q ∈ w.dlq, min c.trim (q.entries.length + 1 - S.settings.streamMaxLen) ≤ q.entries.length

/-! ## One transaction -/

/-- A transaction that takes effect acknowledges the message in any case, and parks it only where the
dead-letter stream takes the record and keeps it. -/
theorem deadLetterExec_parks (w : World P) (c : Choice) (m : QueuedMessage P) (reason : String) :
    (Parked (w.deadLetterExec S c.trim ⟨m.payload, reason, m.messageId, m.deliveryCount⟩).2 m ↔
        Parks S w c) ∧
      ¬(w.deadLetterExec S c.trim
        ⟨m.payload, reason, m.messageId, m.deliveryCount⟩).2.stream.IsPending m.messageId := by
  have hacked : ¬(w.stream.ack [m.messageId]).2.IsPending m.messageId :=
    Stream.not_isPending_ack (List.mem_singleton_self _)
  unfold World.deadLetterExec Parked Parks
  cases hq : w.dlq with
  | none =>
    refine ⟨?_, hacked⟩
    simp
  | some q =>
    refine ⟨?_, hacked⟩
    constructor
    · rintro ⟨q', hq', e, he, -⟩
      obtain rfl := Option.some.inj hq'
      refine ⟨q, rfl, ?_⟩
      by_contra hlt
      rw [Stream.entries_addCapped_eq_nil (not_le.1 hlt)] at he
      cases he
    · rintro ⟨q', hq', hkept⟩
      obtain rfl := Option.some.inj hq'
      exact ⟨_, rfl, _, Stream.newest_mem_addCapped hkept, rfl, rfl⟩

/-- A transaction that Redis answers without an error found a stream under the dead-letter key. -/
theorem dlq_of_deadLetterExec_error {w : World P} {trim : Nat} {r : DlqRecord P} {e : Foreign}
    (h : (w.deadLetterExec S trim r).1 = .error e) : w.dlq = none := by
  unfold World.deadLetterExec at h
  cases hq : w.dlq with
  | none => rfl
  | some q =>
    simp only [hq] at h
    cases h

/-- What one call of `dead_letter` ends with: the reply of the transaction under its failure. -/
theorem deadLetter_alone {w w' : World P} {m : QueuedMessage P} {reason : String} {c : Choice}
    {τ : List (Call Op.Reply)} {x : Except Exn Unit}
    (h : (deadLetter m reason).alone (World.exec S) [c] w = some (τ, x, w')) :
    ∃ reply, c.command w (w.deadLetterExec S c.trim ⟨m.payload, reason, m.messageId, m.deliveryCount⟩) =
      (reply, w') ∧ x = raised reply := by
  have hcall := alone_ask_lift S (o := .deadLetter ⟨m.payload, reason, m.messageId, m.deliveryCount⟩)
    (f := fun r => r) (c := c) (w := w)
  obtain ⟨r, hr, heq⟩ := Option.map_eq_some_iff.1 (hcall.symm.trans h)
  obtain ⟨-, hend⟩ := Prod.mk.inj heq
  obtain ⟨rfl, rfl⟩ := Prod.mk.inj hend
  exact ⟨r.1, Option.some.inj hr, rfl⟩

/-- Whatever the state and wherever `dead_letter` fails: the message is parked or pending then, and
pending if the error of a command is logged, if and only if a transaction that took effect found a
dead-letter stream that takes and keeps the record, and one that did not found the message so. -/
theorem deadLetter_parks_or_leaves_iff {w w' : World P} {m : QueuedMessage P} {reason : String} {c : Choice}
    {τ : List (Call Op.Reply)} {x : Except Exn Unit}
    (h : (deadLetter m reason).alone (World.exec S) [c] w = some (τ, x, w')) :
    ((Parked w' m ∨ w'.stream.IsPending m.messageId) ∧
      ((∃ e, x = .error e) → c.answers → w'.stream.IsPending m.messageId)) ↔
      if c.applied then Parks S w c else Parked w m ∨ w.stream.IsPending m.messageId := by
  obtain ⟨reply, hcommand, rfl⟩ := deadLetter_alone S h
  obtain ⟨hparked, hacked⟩ := deadLetterExec_parks S w c m reason
  rw [raised_error_iff]
  unfold Choice.command at hcommand
  unfold Choice.applied Choice.answers
  cases hfault : c.fault with
  | before e =>
    -- nothing happened
    simp only [hfault] at hcommand
    obtain ⟨rfl, rfl⟩ := Prod.mk.inj hcommand
    simp
  | after e =>
    simp only [hfault] at hcommand
    obtain ⟨rfl, rfl⟩ := Prod.mk.inj hcommand
    simp [hparked, hacked]
  | none =>
    simp only [hfault] at hcommand
    rw [hcommand] at hparked hacked
    simp only [hparked, hacked, or_false, if_true, and_iff_left_iff_imp]
    rintro ⟨q, hq, -⟩ ⟨e, rfl⟩
    -- an error of a command means that there is no dead-letter stream
    rw [dlq_of_deadLetterExec_error S (by rw [hcommand])] at hq
    cases hq

/-! ## Two states -/

/-- A stream of one entry, which is pending. -/
def onePending (dlq : Option (Stream (DlqRecord EventIn))) : World EventIn :=
  { World.initial EventIn with
    stream := {
      dropped := []
      entries := [⟨1, Trace.document "a" (.finite false 5 0) "USD"⟩]
      lastId := 1
      group := some ⟨1, [⟨1, 0, 0, 1⟩], by simp, by simp⟩
      sorted := by simp
      bounded := by simp
      read := by simp
      known := by simp }
    dlq := dlq }

/-- The message of that entry. -/
def poisoned : QueuedMessage EventIn :=
  { messageId := 1, payload := Trace.document "a" (.finite false 5 0) "USD", number := 1 }

theorem onePending_isPending (dlq : Option (Stream (DlqRecord EventIn))) :
    (onePending dlq).stream.IsPending 1 := ⟨_, rfl, ⟨1, 0, 0, 1⟩, List.mem_singleton_self _, rfl⟩

/-- With a dead-letter stream the message is parked. -/
theorem empty_dlq_parks :
    ∃ τ x w', (deadLetter poisoned "poison").alone (World.exec (documentService {})) [{}]
        (onePending (some Stream.empty)) = some (τ, x, w') ∧
      (Parked w' poisoned ∨ w'.stream.IsPending 1) ∧
      ((∃ e, x = .error e) → Choice.answers {} = true → w'.stream.IsPending 1) := by
  have hparks : Parks (documentService {}) (onePending (some Stream.empty)) {} :=
    ⟨Stream.empty, rfl, by decide⟩
  exact ⟨_, _, _, rfl, (deadLetter_parks_or_leaves_iff (c := {}) (documentService {}) rfl).2 hparks⟩

/-- A key of another type: the record is refused, the exception is logged as leaving the message
pending, and the message is acknowledged all the same. -/
theorem refused_record_is_acked :
    ∃ τ e w', (onePending none).stream.IsPending 1 ∧
      (deadLetter poisoned "poison").alone (World.exec (documentService {})) [{}] (onePending none) =
        some (τ, .error e, w') ∧
      ¬Parked w' poisoned ∧ ¬w'.stream.IsPending 1 := by
  obtain ⟨hparked, hacked⟩ := deadLetterExec_parks (documentService {}) (onePending none) {} poisoned "poison"
  refine ⟨_, _, _, onePending_isPending none, rfl, fun h => ?_, hacked⟩
  obtain ⟨q, hq, -⟩ := hparked.1 h
  cases hq

end App
