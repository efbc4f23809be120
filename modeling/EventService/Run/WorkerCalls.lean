/-
What a worker calls: it publishes nothing, and it reads and claims for itself, as it is set up to. So no call
of a worker adds to the stream or trims it.
-/
import EventService.Run.Attempts
import EventService.Run.Calls
import EventService.Model.System

namespace App

open Prog Store

variable {P : Type} {S : Service P} {worker : Nat}

/-- A call as the worker makes it. -/
def Op.ByWorker (S : Service P) (worker : Nat) : Op P → Prop
  | .xadd _ => False
  | .xreadgroup consumer count => consumer = worker ∧ count = S.settings.batchSize
  | .xautoclaim consumer minIdle count =>
    consumer = worker ∧ minIdle = S.settings.reclaimIdleMs ∧ count = S.settings.batchSize
  | .xpending consumer _ _ => consumer = worker
  | .xgroupCreate | .xack _ | .deadLetter _ | .xlen | .xlenDlq | .xinfoGroups | .get _ | .set _ _ | .fetch _
  | .openSession | .execute _ _ | .commit _ | .close _ | .now | .uniform _ | .sleep _ | .stopIsSet _
  | .record _ _ => True

/-- A call as a loop makes it by itself, or a worker that starts: it leaves the rates and the database to the
handlers. -/
def Op.ByLoop (S : Service P) (worker : Nat) : Op P → Prop
  | .xreadgroup consumer count => consumer = worker ∧ count = S.settings.batchSize
  | .xautoclaim consumer minIdle count =>
    consumer = worker ∧ minIdle = S.settings.reclaimIdleMs ∧ count = S.settings.batchSize
  | .xpending consumer _ _ => consumer = worker
  | .xgroupCreate | .xack _ | .deadLetter _ | .xlen | .xlenDlq | .xinfoGroups | .sleep _ | .stopIsSet _ => True
  | .xadd _ | .get _ | .set _ _ | .fetch _ | .openSession | .execute _ _ | .commit _ | .close _ | .now | .uniform _
  | .record _ _ => False

theorem Op.ByLoop.byWorker {o : Op P} (h : o.ByLoop S worker) : o.ByWorker S worker := by
  cases o with
  | xreadgroup | xautoclaim | xpending => exact h
  | xadd | get | set | fetch | openSession | execute | commit | close | now | uniform | record => exact h.elim
  | xgroupCreate | xack | deadLetter | xlen | xlenDlq | xinfoGroups | sleep | stopIsSet => trivial

variable (S worker) in
abbrev ByWorker {α : Type} (p : Code P α) : Prop := p.Only (Op.ByWorker S worker)

variable (S worker) in
abbrev ByLoop {α : Type} (p : Code P α) : Prop := p.Only (Op.ByLoop S worker)

theorem byWorker_of_byLoop {α : Type} {p : Code P α} (h : ByLoop S worker p) : ByWorker S worker p :=
  h.mono fun _ ho => ho.byWorker

/-! ## Code of a worker -/

theorem byLoop_ack (ids : List Nat) : ByLoop S worker (ack ids : Code P Nat) := by
  unfold ack
  split
  · trivial
  · exact only_ask_lift trivial

theorem byLoop_tryDeadLetter (m : QueuedMessage P) (reason : String) :
    ByLoop S worker (tryDeadLetter m reason) :=
  Only.bind (Only.attempt (only_ask_lift trivial)) fun _ => trivial

theorem byLoop_retryable (messages : List (QueuedMessage P)) : ByLoop S worker (retryable S messages) := by
  induction messages with
  | nil => trivial
  | cons m messages ih =>
    unfold retryable
    split
    · exact Only.bind (byLoop_tryDeadLetter m _) fun _ => ih
    · exact Only.bind ih fun _ => trivial

theorem byLoop_reclaim : ByLoop S worker (reclaim S worker) := by
  have hclaim : ByLoop S worker
      (claimStale worker S.settings.reclaimIdleMs S.settings.batchSize : Code P _) := by
    refine Only.bind (only_ask_lift ⟨rfl, rfl, rfl⟩) fun r => ?_
    dsimp only
    split
    · trivial
    · refine Only.bind ?_ fun _ => trivial
      unfold deliveryCounts
      split
      · trivial
      · exact Only.bind (only_ask_lift rfl) fun _ => trivial
  refine Only.bind hclaim fun r => ?_
  dsimp only
  split
  · exact Only.bind (byLoop_ack _) fun _ => trivial
  · trivial

theorem byLoop_round (loop : Loop) : ByLoop S worker (round S worker loop) := by
  cases loop with
  | consume =>
    refine Only.bind (only_perform trivial) fun stop => ?_
    split
    · trivial
    refine Only.bind (Only.attempt (Only.bind (only_ask_lift ⟨rfl, rfl⟩) fun _ => trivial)) fun x => ?_
    rcases x with e | messages
    · exact Only.bind (only_perform trivial) fun _ => trivial
    · dsimp only
      split
      · trivial
      · split
        · exact Only.bind (only_perform trivial) fun _ => trivial
        · trivial
  | reclaim =>
    refine Only.bind (only_perform trivial) fun stop => ?_
    split
    · trivial
    refine Only.bind (only_perform trivial) fun _ => Only.bind (only_perform trivial) fun stop => ?_
    split
    · trivial
    refine Only.bind (Only.attempt byLoop_reclaim) fun x => ?_
    rcases x with e | messages
    · trivial
    · dsimp only
      split
      · trivial
      · refine Only.bind (byLoop_retryable messages) fun kept => ?_
        split <;> trivial
  | metrics =>
    refine Only.bind (only_perform trivial) fun stop => ?_
    split
    · trivial
    refine Only.bind (Only.attempt ?_) fun _ => Only.bind (only_perform trivial) fun _ => trivial
    refine Only.bind (only_ask_lift trivial) fun _ => Only.bind (only_ask_lift trivial) fun _ => ?_
    refine Only.bind (only_ask_lift trivial) fun groups => ?_
    cases groups <;> trivial

theorem byLoop_ensureGroup : ByLoop S worker (ensureGroup : Code P Unit) := by
  refine Only.bind (only_perform trivial) fun x => ?_
  rcases x with e | u
  · dsimp only
    split
    · split <;> trivial
    · trivial
  · trivial

theorem byLoop_ackDone (results : List (Option Nat)) : ByLoop S worker (ackDone results : Code P Unit) := by
  unfold ackDone
  dsimp only
  split
  · trivial
  · exact Only.bind (Only.attempt (byLoop_ack _)) fun _ => trivial

theorem byWorker_handleOne (m : QueuedMessage P) : ByWorker S worker (handleOne S m) := by
  refine (handleOne_only m).mono fun o ho => ?_
  rcases ho with ⟨event, -, hoff, -⟩ | ⟨reason, rfl⟩
  · cases o with
    | xadd | xreadgroup | xautoclaim | xpending => cases hoff
    | _ => trivial
  · trivial

/-! ## What is added -/

def Op.isXadd : Op P → Bool
  | .xadd _ => true
  | .xgroupCreate | .xreadgroup _ _ | .xautoclaim _ _ _ | .xpending _ _ _ | .xack _ | .deadLetter _ | .xlen
  | .xlenDlq | .xinfoGroups | .get _ | .set _ _ | .fetch _ | .openSession | .execute _ _ | .commit _ | .close _
  | .now | .uniform _ | .sleep _ | .stopIsSet _ | .record _ _ => false

/-- Nothing is added to the stream or trimmed away. -/
structure SameEntries (w w' : World P) : Prop where
  added : w'.stream.added = w.stream.added
  dropped : w'.stream.dropped = w.stream.dropped

theorem SameEntries.refl (w : World P) : SameEntries w w := ⟨rfl, rfl⟩

theorem SameEntries.trans {u v w : World P} (h : SameEntries u v) (h' : SameEntries v w) : SameEntries u w :=
  ⟨h'.added.trans h.added, h'.dropped.trans h.dropped⟩

theorem SameEntries.entries {w w' : World P} (h : SameEntries w w') : w'.stream.entries = w.stream.entries := by
  have hadded := h.added
  unfold Stream.added at hadded
  rw [h.dropped] at hadded
  exact List.append_cancel_left hadded

theorem sameEntries_of_exec {o : Op P} {c : Choice} {r : o.Reply} {w w' : World P} (ho : o.isXadd = false)
    (h : World.exec S o c w = some (r, w')) : SameEntries w w' := by
  rcases changed_of_exec h with rfl | hchanged
  · exact .refl _
  · cases hchanged with
    | xadd => cases ho
    | xgroupCreate hcreate =>
      unfold Stream.createGroup at hcreate
      split at hcreate
      · cases hcreate
      · rw [← Option.some.inj hcreate]
        exact ⟨rfl, rfl⟩
    | xreadgroup hread => exact ⟨(Stream.added_readNew hread).1, (Stream.added_readNew hread).2⟩
    | xautoclaim hclaim =>
      obtain ⟨g, -, g', -, -, hdropped, hentries, -⟩ := Stream.autoclaim_group hclaim
      refine ⟨?_, hdropped⟩
      unfold Stream.added
      rw [hdropped, hentries]
    | xack => exact ⟨(w.stream.added_ack _).1, (w.stream.added_ack _).2⟩
    | deadLetter k =>
      unfold World.deadLetterExec
      split
      · exact ⟨(w.stream.added_ack _).1, (w.stream.added_ack _).2⟩
      · exact ⟨(w.stream.added_ack _).1, (w.stream.added_ack _).2⟩
    | xpending | set | fetch | openSession | conflict | inserted | commit | close | record => exact ⟨rfl, rfl⟩

theorem isXadd_of_byWorker {o : Op P} (h : o.ByWorker S worker) : o.isXadd = false := by
  cases o with
  | xadd => exact h.elim
  | _ => rfl

end App
