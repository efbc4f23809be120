/-
A batch is partitioned exactly, message by message. The invariant keeps for every handler what its calls
so far have left of it; so when `gather` returns, every handler has run on its own calls alone, and what
becomes of its message is read off them: acknowledged with the others, dead-lettered, or left alone.
-/
import EventService.Run.Rounds
import EventService.Model.Batch

namespace App

open Store Prog

variable {P : Type}

/-! ## The journal -/

theorem callsOf_own (caller : Option Nat) (journal : List (JournalEntry P)) (call : Call (@Op.Reply P))
    (w w' : World P) :
    callsOf caller (journal ++ [⟨caller, call, w, w'⟩]) = callsOf caller journal ++ [call] := by
  simp [callsOf]

theorem callsOf_other {caller caller' : Option Nat} (h : caller' ≠ caller) (journal : List (JournalEntry P))
    (call : Call (@Op.Reply P)) (w w' : World P) :
    callsOf caller (journal ++ [⟨caller', call, w, w'⟩]) = callsOf caller journal := by
  simp [callsOf, h]

theorem mem_callsOf {journal : List (JournalEntry P)} {l : JournalEntry P} (h : l ∈ journal) :
    l.call ∈ callsOf l.caller journal :=
  List.mem_map_of_mem (List.mem_filter.2 ⟨h, by simp⟩)

variable {S : Service P}

/-- A step of some code makes one call and puts it down. -/
theorem journaled_of_advance {α : Type} {caller : Option Nat} {code : Code P α} {c : Choice} {w : World P}
    {journal : List (JournalEntry P)} {r : Code P α × World P × List (JournalEntry P)}
    (h : Protocol.advance (journaled S caller) code c (w, journal) = some r) :
    ∃ o k reply, code = .op o k ∧ r.1 = k reply ∧ r.2.2 = journal ++ [⟨caller, ⟨o, reply⟩, w, r.2.1⟩] ∧
      World.exec S o c w = some (reply, r.2.1) := by
  cases code with
  | ret a => cases h
  | raise e => cases h
  | op o k =>
    obtain ⟨x, hx, rfl⟩ := Option.map_eq_some_iff.1 h
    obtain ⟨y, hy, rfl⟩ := Option.map_eq_some_iff.1 hx
    exact ⟨o, k, y.1, rfl, rfl, rfl, hy⟩

/-! ## The invariant -/

/-- Every handler is where its own calls have led. -/
structure HandlersAt (S : Service P) (messages : List (QueuedMessage P)) (journal : List (JournalEntry P))
    (handlers : List (Handler P)) : Prop where
  length : handlers.length = messages.length
  callers : ∀ l ∈ journal, ∃ i < messages.length, l.caller = some i
  code : ∀ (i : Nat) m h, messages[i]? = some m → handlers[i]? = some h →
    After (handleOne S m) (callsOf (some i) journal) h.code

/-- Where a batch is: its handlers are under way, or they have all returned and the acknowledgement is. -/
inductive BatchAt (S : Service P) (messages : List (QueuedMessage P)) : List (JournalEntry P) → Lane P → Prop
  | handling {journal : List (JournalEntry P)} {handlers : List (Handler P)}
    (h : HandlersAt S messages journal handlers) : BatchAt S messages journal (.handling handlers)
  | acking {journal acknowledgement : List (JournalEntry P)} {handlers : List (Handler P)}
    {results : List (Option Nat)} {code : Code P Unit} (h : HandlersAt S messages journal handlers)
    (hresults : handlers.mapM Handler.result = some results) (hcallers : ∀ l ∈ acknowledgement, l.caller = none)
    (hcode : After (ackDone results) (acknowledgement.map JournalEntry.call) code) :
    BatchAt S messages (journal ++ acknowledgement) (.acking code)

namespace Batch

/-- Every call of the journal was made, and the lane is where the calls have led. -/
structure Inv (S : Service P) (messages : List (QueuedMessage P)) (b : Batch P) : Prop where
  made : ∀ l ∈ b.journal, ∃ c, World.exec S l.call.op c l.before = some (l.call.reply, l.after)
  lane : BatchAt S messages b.journal b.lane

variable {messages : List (QueuedMessage P)} {b b' : Batch P}

theorem inv_start (messages : List (QueuedMessage P)) (w : World P) : Inv S messages (start S messages w) where
  made := by simp [start]
  lane := by
    refine .handling ⟨by simp, by simp [start], fun i m h hm hh => ?_⟩
    rw [List.getElem?_map, hm] at hh
    rw [← Option.some.inj hh]
    exact .start

/-- A call of one handler leaves the others where they were. -/
theorem handlersAt_step {journal : List (JournalEntry P)} {handlers : List (Handler P)} {h : Handler P} {i : Nat}
    {o : Op P} {k : o.Reply → Code P (Option Nat)} {reply : o.Reply} {w w' : World P}
    (hat : HandlersAt S messages journal handlers) (hget : handlers[i]? = some h) (hcode : h.code = .op o k) :
    HandlersAt S messages (journal ++ [⟨some i, ⟨o, reply⟩, w, w'⟩])
      (handlers.set i ⟨h.message, true, k reply⟩) := by
  obtain ⟨hlt, -⟩ := List.getElem?_eq_some_iff.1 hget
  refine ⟨by rw [List.length_set, hat.length], fun l hl => ?_, fun j m x hm hx => ?_⟩
  · rcases List.mem_append.1 hl with hl | hl
    · exact hat.callers l hl
    · rw [List.mem_singleton.1 hl]
      exact ⟨i, hat.length ▸ hlt, rfl⟩
  · by_cases hij : i = j
    · subst hij
      rw [List.getElem?_set_self hlt] at hx
      have hafter := hat.code i m h hm hget
      rw [hcode] at hafter
      rw [callsOf_own, ← Option.some.inj hx]
      exact hafter.call reply
    · rw [List.getElem?_set_ne hij] at hx
      rw [callsOf_other (by simpa using hij)]
      exact hat.code j m x hm hx

theorem inv_step {a : BatchAction P} (hi : Inv S messages b) (h : b.step S a = some b') : Inv S messages b' := by
  obtain ⟨hmade, hlane⟩ := hi
  obtain ⟨w, lane, journal⟩ := b
  have hnew : ∀ {caller o c w'} {reply : o.Reply}, World.exec S o c w = some (reply, w') →
      ∀ l ∈ journal ++ [⟨caller, ⟨o, reply⟩, w, w'⟩],
        ∃ c, World.exec S l.call.op c l.before = some (l.call.reply, l.after) := by
    intro caller o c w' reply hexec l hl
    rcases List.mem_append.1 hl with hl | hl
    · exact hmade l hl
    · rw [List.mem_singleton.1 hl]
      exact ⟨c, hexec⟩
  cases a with
  | handle i c =>
    simp only [step] at h
    split at h
    · cases h
    · rename_i x hget
      obtain ⟨r, hr, rfl⟩ := Option.map_eq_some_iff.1 h
      obtain ⟨o, k, reply, hcode, hk, hjournal, hexec⟩ := journaled_of_advance hr
      cases hlane with
      | acking => cases hget
      | handling hat =>
        rw [hk, hjournal]
        exact ⟨hnew hexec, .handling (handlersAt_step hat hget hcode)⟩
  | gather =>
    cases hlane with
    | acking => cases h
    | handling hat =>
      obtain ⟨results, hresults, rfl⟩ := Option.map_eq_some_iff.1 h
      refine ⟨hmade, ?_⟩
      rw [← List.append_nil journal]
      exact .acking hat hresults (by simp) .start
  | acknowledge c =>
    cases hlane with
    | handling => cases h
    | acking hat hresults hcallers hafter =>
      obtain ⟨r, hr, rfl⟩ := Option.map_eq_some_iff.1 h
      obtain ⟨o, k, reply, hcode, hk, hjournal, hexec⟩ := journaled_of_advance hr
      rw [hk, hjournal]
      refine ⟨hnew hexec, ?_⟩
      show BatchAt S messages ((_ ++ _) ++ [_]) _
      rw [List.append_assoc]
      refine .acking hat hresults (fun l hl => ?_) ?_
      · rcases List.mem_append.1 hl with hl | hl
        · exact hcallers l hl
        · rw [List.mem_singleton.1 hl]
      · rw [List.map_append]
        rw [hcode] at hafter
        exact hafter.call reply
  | others w' =>
    obtain rfl := Option.some.inj h
    exact ⟨hmade, hlane⟩

theorem inv_run {b₀ : Batch P} (h₀ : Inv S messages b₀) (h : Run S b₀ b) : Inv S messages b :=
  h.keeps h₀ fun _ _ _ hb ha => inv_step hb ha

end Batch

/-! ## What becomes of the messages -/

/-- The ids of an acknowledgement. -/
def Op.acked : Op P → Option (List Nat)
  | .xack ids => some ids
  | _ => none

/-- The record of a message with this id that is dead-lettered. -/
def Op.parked (id : Nat) : Op P → Option (DlqRecord P)
  | .deadLetter entry => if entry.originalId = id then some entry else none
  | _ => none

theorem Op.none_of_offStream {o : Op P} (h : o.offStream = true) (id : Nat) : o.acked = none ∧ o.parked id = none := by
  cases o <;> first | exact ⟨rfl, rfl⟩ | cases h

namespace Batch

/-- The ids of every acknowledgement the batch sent. -/
def acks (b : Batch P) : List (List Nat) := b.journal.filterMap fun l => l.call.op.acked

/-- The records the batch dead-lettered under an id. -/
def parked (b : Batch P) (id : Nat) : List (DlqRecord P) := b.journal.filterMap fun l => l.call.op.parked id

end Batch

/-- The batch treats a message as the calls of its handler say. -/
structure Settled (S : Service P) (m : QueuedMessage P) (calls : List (Call (@Op.Reply P))) (b : Batch P) :
    Prop where
  acknowledged : m.messageId ∈ b.acks.flatten ↔ Succeeded S m calls
  parked : ∀ e, FailedForGood S m calls e → b.parked m.messageId = [m.record e.str]
  spared : (∀ e, ¬FailedForGood S m calls e) → b.parked m.messageId = []
  untouched : ¬Succeeded S m calls → (∀ e, ¬FailedForGood S m calls e) →
    ∀ l ∈ b.journal, l.after.stream.pendingEntry m.messageId = l.before.stream.pendingEntry m.messageId
  exclusive : Succeeded S m calls → ∀ e, ¬FailedForGood S m calls e

/-- A call about other entries leaves an entry as it is. -/
theorem pendingEntry_of_exec {o : Op P} {c : Choice} {w w' : World P} {r : o.Reply} {id : Nat}
    (ho : o.offStream = true ∨ (∃ ids, o = .xack ids ∧ id ∉ ids) ∨ ∃ entry, o = .deadLetter entry ∧ entry.originalId ≠ id)
    (h : World.exec S o c w = some (r, w')) : w'.stream.pendingEntry id = w.stream.pendingEntry id := by
  rcases ho with ho | ⟨ids, rfl, hid⟩ | ⟨entry, rfl, hid⟩
  · rw [stream_of_exec ho h]
  · rcases command_world (Option.some.inj h) with rfl | rfl
    · rfl
    · exact Stream.pendingEntry_ack _ hid
  · rcases command_world (Option.some.inj h) with rfl | rfl
    · rfl
    · have hstream : (w.deadLetterExec S c.trim entry).2.stream = (w.stream.ack [entry.originalId]).2 := by
        unfold World.deadLetterExec
        split <;> rfl
      rw [hstream]
      exact Stream.pendingEntry_ack _ (by simpa using hid.symm)

/-- When `gather` has returned, every handler has run to its end. -/
theorem HandlersAt.returned {messages : List (QueuedMessage P)} {journal : List (JournalEntry P)}
    {handlers : List (Handler P)} {results : List (Option Nat)} (hat : HandlersAt S messages journal handlers)
    (hresults : handlers.mapM Handler.result = some results) :
    results.length = messages.length ∧ ∀ (i : Nat) m, messages[i]? = some m →
      ∃ r, results[i]? = some r ∧ Runs (handleOne S m) (callsOf (some i) journal) (.ok r) := by
  have hall := forall₂_of_mapM hresults
  refine ⟨hall.length_eq.symm.trans hat.length, fun i m hm => ?_⟩
  have hlt : i < handlers.length := hat.length ▸ (List.getElem?_eq_some_iff.1 hm).1
  have hlt' : i < results.length := hall.length_eq ▸ hlt
  have hresult : handlers[i].result = some results[i] := List.Forall₂.get hall hlt hlt'
  have hcode := hat.code i m handlers[i] hm (List.getElem?_eq_getElem hlt)
  exact ⟨results[i], List.getElem?_eq_getElem hlt', runs_of_result hcode hresult⟩

/-- A handler only ever dead-letters its own message. -/
theorem HandlersAt.calls {messages : List (QueuedMessage P)} {journal : List (JournalEntry P)}
    {handlers : List (Handler P)} (hat : HandlersAt S messages journal handlers) {l : JournalEntry P}
    (hl : l ∈ journal) : ∃ (i : Nat) (m : QueuedMessage P), l.caller = some i ∧ messages[i]? = some m ∧
      (l.call.op.offStream = true ∨ ∃ reason, l.call.op = .deadLetter (m.record reason)) := by
  obtain ⟨i, hlt, hcaller⟩ := hat.callers l hl
  have hm := List.getElem?_eq_getElem hlt
  have hlt' : i < handlers.length := hat.length ▸ hlt
  have hcode := hat.code i _ _ hm (List.getElem?_eq_getElem hlt')
  refine ⟨i, messages[i], hcaller, hm, ?_⟩
  have hmem : l.call ∈ callsOf (some i) journal := hcaller ▸ mem_callsOf hl
  rcases (hcode.only (handleOne_only _)).1 l.call hmem with ⟨event, -, hworks⟩ | hdead
  · exact Or.inl hworks.1
  · exact Or.inr hdead

/-- `_handle_batch` ends with one acknowledgement of what the handlers returned, or with none. -/
theorem after_ackDone {results : List (Option Nat)} {τ : List (Call Op.Reply)} {code : Code P Unit}
    (h : After (ackDone results) τ code) :
    (τ = [] ∧ (code = .ret () → results.filterMap id = [])) ∨
      ∃ r, results.filterMap id ≠ [] ∧ τ = [⟨.xack (results.filterMap id), r⟩] := by
  unfold ackDone at h
  dsimp only at h
  split at h
  · rename_i hnil
    obtain ⟨rfl, -⟩ := after_ret_iff.1 h
    exact Or.inl ⟨rfl, fun _ => hnil⟩
  · rename_i hne
    unfold tryAck ack at h
    rw [if_neg hne] at h
    rcases after_op_iff.1 h with ⟨rfl, rfl⟩ | ⟨r, τ', rfl, hrest⟩
    · exact Or.inl ⟨rfl, by rintro ⟨⟩⟩
    · refine Or.inr ⟨r, hne, ?_⟩
      have hnil : τ' = [] := by
        cases r with
        | ok n => exact (after_ret_iff.1 hrest).1
        | error e => exact (after_ret_iff.1 hrest).1
      rw [hnil]

theorem ackDone_returned {results : List (Option Nat)} {τ : List (Call (@Op.Reply P))}
    (h : After (ackDone results) τ (.ret ())) : (τ = [] ∧ results.filterMap id = []) ∨
      ∃ r, results.filterMap id ≠ [] ∧ τ = [⟨.xack (results.filterMap id), r⟩] := by
  rcases after_ackDone h with ⟨hnil, hend⟩ | hone
  · exact Or.inl ⟨hnil, hend rfl⟩
  · exact Or.inr hone

/-! ## The whole batch -/

section Gathered

variable {messages : List (QueuedMessage P)} {journal acknowledgement : List (JournalEntry P)}
  {handlers : List (Handler P)} {results : List (Option Nat)}

/-- Distinct messages have distinct ids. -/
theorem index_unique (hids : (messages.map QueuedMessage.messageId).Nodup) {i j : Nat} {m m' : QueuedMessage P}
    (hm : messages[i]? = some m) (hm' : messages[j]? = some m') (h : m.messageId = m'.messageId) : i = j := by
  have hlt : i < (messages.map QueuedMessage.messageId).length := by
    rw [List.length_map]
    exact (List.getElem?_eq_some_iff.1 hm).1
  refine (List.getElem?_inj hlt hids).1 ?_
  rw [List.getElem?_map, List.getElem?_map, hm, hm', Option.map_some, Option.map_some, h]

/-- The acknowledgement is nobody's own call. -/
theorem callsOf_append (hcallers : ∀ l ∈ acknowledgement, l.caller = none) (i : Nat) :
    callsOf (some i) (journal ++ acknowledgement) = callsOf (some i) journal := by
  unfold callsOf
  rw [List.filter_append, List.map_append]
  have hnone : acknowledgement.filter (fun l => l.caller = some i) = [] :=
    List.filter_eq_nil_iff.2 fun l hl => by simp [hcallers l hl]
  rw [hnone]
  exact List.append_nil _

/-- What the handlers call acknowledges nothing. -/
theorem HandlersAt.acks_eq_nil (hat : HandlersAt S messages journal handlers) :
    (journal.filterMap fun l => l.call.op.acked) = [] := by
  refine List.filterMap_eq_nil_iff.2 fun l hl => ?_
  obtain ⟨i, m, -, -, hoff | ⟨reason, hop⟩⟩ := hat.calls hl
  · exact (Op.none_of_offStream hoff 0).1
  · rw [hop]
    rfl

/-- What was dead-lettered under the id of a message was dead-lettered by its own handler. -/
theorem HandlersAt.parked_eq (hids : (messages.map QueuedMessage.messageId).Nodup)
    (hat : HandlersAt S messages journal handlers) {i : Nat} {m : QueuedMessage P} (hm : messages[i]? = some m) :
    (journal.filterMap fun l => l.call.op.parked m.messageId) =
      (callsOf (some i) journal).filterMap fun c => c.op.parked m.messageId := by
  unfold callsOf
  rw [List.filterMap_map, List.filterMap_filter]
  refine List.filterMap_congr fun l hl => ?_
  obtain ⟨j, m', hcaller, hm', hcall⟩ := hat.calls hl
  by_cases hij : l.caller = some i
  · simp [hij]
  · rw [if_neg (by simpa using hij)]
    rcases hcall with hoff | ⟨reason, hop⟩
    · exact (Op.none_of_offStream hoff _).2
    · rw [hop]
      refine if_neg fun hid => hij ?_
      rw [hcaller, index_unique hids hm' hm hid]

/-- Each handler returned its message's id or nothing, so what is acknowledged are ids of the batch, in its
order. -/
theorem done_sublist {ms : List (QueuedMessage P)} {rs : List (Option Nat)}
    (h : List.Forall₂ (fun m r => r = none ∨ r = some m.messageId) ms rs) :
    List.Sublist (rs.filterMap id) (ms.map QueuedMessage.messageId) := by
  induction h with
  | nil => exact .slnil
  | cons hr _ ih =>
    rcases hr with rfl | rfl
    · exact ih.cons _
    · exact ih.cons_cons _

/-- What a batch has done when it has returned: `done` is what it acknowledged. -/
structure Gathered (S : Service P) (messages : List (QueuedMessage P)) (b : Batch P) (done : List Nat) : Prop where
  acks : b.acks = if done = [] then [] else [done]
  parked : ∀ (i : Nat) m, messages[i]? = some m →
    b.parked m.messageId = (callsOf (some i) b.journal).filterMap fun c => c.op.parked m.messageId
  ran : ∀ (i : Nat) m, messages[i]? = some m →
    ∃ r, Runs (handleOne S m) (callsOf (some i) b.journal) (.ok r) ∧ (m.messageId ∈ done ↔ r = some m.messageId)
  sub : done.Sublist (messages.map QueuedMessage.messageId)
  calls : ∀ l ∈ b.journal, l.call.op.offStream = true ∨ l.call.op = .xack done ∨
    ∃ m ∈ messages, ∃ reason, l.call.op = .deadLetter (m.record reason)

/-- A handler returns the id of its message or nothing. -/
theorem result_of_runs {m : QueuedMessage P} {τ : List (Call Op.Reply)} {r : Option Nat}
    (h : Runs (handleOne S m) τ (.ok r)) : r = none ∨ r = some m.messageId := by
  rcases handled_cases h with ⟨-, -, hr, -⟩ | ⟨_, _, _, -, -, hr, -⟩ | ⟨-, -, hr, -⟩
  · exact Or.inr (Except.ok.inj hr)
  · exact Or.inl (Except.ok.inj hr)
  · exact Or.inl (Except.ok.inj hr)

/-- The id of a message is among those that were returned if its own handler returned it: another handler
returns another id. -/
theorem mem_done_iff (hids : (messages.map QueuedMessage.messageId).Nodup) (hlen : results.length = messages.length)
    (hown : ∀ (i : Nat) m, messages[i]? = some m → ∃ r, results[i]? = some r ∧ (r = none ∨ r = some m.messageId))
    {i : Nat} {m : QueuedMessage P} {r : Option Nat} (hm : messages[i]? = some m) (hr : results[i]? = some r) :
    m.messageId ∈ results.filterMap id ↔ r = some m.messageId := by
  constructor
  · intro hmem
    obtain ⟨x, hx, hid⟩ := List.mem_filterMap.1 hmem
    obtain rfl : x = some m.messageId := hid
    obtain ⟨j, hj⟩ := List.mem_iff_getElem?.1 hx
    have hlt : j < messages.length := hlen ▸ (List.getElem?_eq_some_iff.1 hj).1
    obtain ⟨r', hr', hcases⟩ := hown j _ (List.getElem?_eq_getElem hlt)
    obtain rfl := Option.some.inj (hj.symm.trans hr')
    rcases hcases with hnone | hsome
    · cases hnone
    · obtain rfl := index_unique hids hm (List.getElem?_eq_getElem hlt) (Option.some.inj hsome)
      exact Option.some.inj (hr.symm.trans hj)
  · rintro rfl
    exact List.mem_filterMap.2 ⟨_, List.mem_of_getElem? hr, rfl⟩

/-- What is dead-lettered, or acknowledged, by the calls of some entries. -/
theorem filterMap_calls {β : Type} (f : Op P → Option β) (entries : List (JournalEntry P)) :
    (entries.filterMap fun l => f l.call.op) = (entries.map JournalEntry.call).filterMap fun c => f c.op := by
  rw [List.filterMap_map]
  rfl

theorem code_of_finished {w : World P} {code : Code P Unit} {entries : List (JournalEntry P)}
    (h : (Batch.mk w (.acking code) entries).finished = true) : code = .ret () := by
  unfold Batch.finished at h
  split at h
  · rename_i heq
    exact Lane.acking.inj heq
  all_goals cases h

theorem gathered_of_finished (hids : (messages.map QueuedMessage.messageId).Nodup) {b : Batch P}
    (hi : Batch.Inv S messages b) (hfin : b.finished = true) : ∃ done, Gathered S messages b done := by
  obtain ⟨-, hlane⟩ := hi
  obtain ⟨w, lane, entries⟩ := b
  cases hlane with
  | handling => cases hfin
  | @acking journal acknowledgement handlers results code hat hresults hcallers hcode =>
    obtain ⟨hlen, hran⟩ := hat.returned hresults
    have hown : ∀ (i : Nat) m, messages[i]? = some m → ∃ r, results[i]? = some r ∧ (r = none ∨ r = some m.messageId) := by
      intro i m hm
      obtain ⟨r, hr, hruns⟩ := hran i m hm
      exact ⟨r, hr, result_of_runs hruns⟩
    have hack := ackDone_returned (code_of_finished hfin ▸ hcode)
    refine ⟨results.filterMap id, ?_, fun i m hm => ?_, fun i m hm => ?_, ?_, fun l hl => ?_⟩
    · show (journal ++ acknowledgement).filterMap (fun l => l.call.op.acked) = _
      rw [List.filterMap_append, hat.acks_eq_nil, List.nil_append, filterMap_calls Op.acked]
      rcases hack with ⟨hnil, hdone⟩ | ⟨r, hne, hone⟩
      · rw [hnil, if_pos hdone]
        rfl
      · rw [hone, if_neg hne]
        rfl
    · show (journal ++ acknowledgement).filterMap (fun l => l.call.op.parked m.messageId) =
        (callsOf (some i) (journal ++ acknowledgement)).filterMap _
      rw [List.filterMap_append, hat.parked_eq hids hm, callsOf_append hcallers,
        filterMap_calls (Op.parked m.messageId)]
      rcases hack with ⟨hnil, -⟩ | ⟨r, -, hone⟩
      · rw [hnil]
        exact List.append_nil _
      · rw [hone]
        exact List.append_nil _
    · obtain ⟨r, hr, hruns⟩ := hran i m hm
      exact ⟨r, (callsOf_append hcallers i).symm ▸ hruns, mem_done_iff hids hlen hown hm hr⟩
    · refine done_sublist (List.forall₂_iff_get.2 ⟨hlen.symm, fun i hlt hlt' => ?_⟩)
      obtain ⟨r, hr, hcases⟩ := hown i _ (List.getElem?_eq_getElem hlt)
      obtain rfl := Option.some.inj ((List.getElem?_eq_getElem hlt').symm.trans hr)
      exact hcases
    · rcases List.mem_append.1 hl with hl | hl
      · obtain ⟨i, m, -, hm, hoff | hdead⟩ := hat.calls hl
        · exact Or.inl hoff
        · exact Or.inr (Or.inr ⟨m, List.mem_of_getElem? hm, hdead⟩)
      · have hmem : l.call ∈ acknowledgement.map JournalEntry.call := List.mem_map_of_mem hl
        rcases hack with ⟨hnil, -⟩ | ⟨r, -, hone⟩
        · rw [hnil] at hmem
          cases hmem
        · rw [hone] at hmem
          rw [List.mem_singleton.1 hmem]
          exact Or.inr (Or.inl rfl)

/-- What the batch did with a message is what its handler's calls say. -/
theorem Gathered.settled {b : Batch P} {done : List Nat} (hg : Gathered S messages b done)
    (hmade : ∀ l ∈ b.journal, ∃ c, World.exec S l.call.op c l.before = some (l.call.reply, l.after))
    {i : Nat} {m : QueuedMessage P} (hm : messages[i]? = some m) : Settled S m (callsOf (some i) b.journal) b := by
  obtain ⟨r, hruns, hdone⟩ := hg.ran i m hm
  have hflat : m.messageId ∈ b.acks.flatten ↔ m.messageId ∈ done := by
    rw [hg.acks]
    split
    · rename_i hnil
      rw [hnil]
      exact Iff.rfl
    · simp
  have hoff : ∀ {τ : List (Call (@Op.Reply P))}, (∀ c ∈ τ, c.op.offStream = true) →
      (τ.filterMap fun c => c.op.parked m.messageId) = [] := fun h =>
    List.filterMap_eq_nil_iff.2 fun c hc => (Op.none_of_offStream (h c hc) _).2
  have hacked : m.messageId ∈ b.acks.flatten ↔ Succeeded S m (callsOf (some i) b.journal) := by
    rw [hflat, hdone]
    rcases handled_cases hruns with ⟨hs, -, hr, -⟩ | ⟨_, _, _, hs, -, hr, -⟩ | ⟨hs, -, hr, -⟩
    · exact iff_of_true (Except.ok.inj hr) hs
    · rw [Except.ok.inj hr]
      exact iff_of_false (by simp) hs
    · rw [Except.ok.inj hr]
      exact iff_of_false (by simp) hs
  have hspared : (∀ e, ¬FailedForGood S m (callsOf (some i) b.journal) e) → b.parked m.messageId = [] := by
    intro hnot
    rw [hg.parked i m hm]
    rcases handled_cases hruns with ⟨-, -, -, hall⟩ | ⟨e, _, _, -, hfailed, -⟩ | ⟨-, -, -, hall⟩
    · exact hoff hall
    · exact absurd ((hfailed e).2 rfl) (hnot e)
    · exact hoff hall
  refine ⟨hacked, fun e he => ?_, hspared, fun hs hnot l hl => ?_, fun hs e he => ?_⟩
  · rw [hg.parked i m hm]
    rcases handled_cases hruns with ⟨-, hnot, -⟩ | ⟨e', τ₁, reply, -, hfailed, -, hτ, hall⟩ | ⟨-, hnot, -⟩
    · exact absurd he (hnot e)
    · rw [hτ, List.filterMap_append, hoff hall, (hfailed e).1 he]
      simp [Op.parked, QueuedMessage.record]
    · exact absurd he (hnot e)
  · obtain ⟨c, hexec⟩ := hmade l hl
    refine pendingEntry_of_exec ?_ hexec
    rcases hg.calls l hl with hcall | hcall | ⟨m', -, reason, hcall⟩
    · exact Or.inl hcall
    · refine Or.inr (Or.inl ⟨done, hcall, fun hmem => hs ?_⟩)
      exact hacked.1 (hflat.2 hmem)
    · refine Or.inr (Or.inr ⟨_, hcall, fun hid => ?_⟩)
      -- the record would be one of this message
      have hmem : m'.record reason ∈ b.parked m.messageId := by
        refine List.mem_filterMap.2 ⟨l, hl, ?_⟩
        rw [hcall]
        exact if_pos hid
      rw [hspared hnot] at hmem
      cases hmem
  · rcases handled_cases hruns with ⟨-, hnot, -⟩ | ⟨_, _, _, hs', -⟩ | ⟨hs', -⟩
    · exact hnot e he
    · exact hs' hs
    · exact hs' hs

/-- At whatever moment the batch acknowledges, every handler has run to its end, and nothing follows. -/
theorem acknowledged_last {b : Batch P} (hi : Batch.Inv S messages b) {j₁ j₂ : List (JournalEntry P)}
    {l : JournalEntry P} {ids : List Nat} (hjournal : b.journal = j₁ ++ l :: j₂) (hl : l.call.op = .xack ids) :
    j₂ = [] ∧ ∀ (i : Nat) m, messages[i]? = some m →
      ∃ r, Runs (handleOne S m) (callsOf (some i) j₁) (.ok r) := by
  obtain ⟨-, hlane⟩ := hi
  obtain ⟨w, lane, entries⟩ := b
  obtain rfl : entries = j₁ ++ l :: j₂ := hjournal
  have hnot : ∀ {journal : List (JournalEntry P)} {handlers : List (Handler P)},
      HandlersAt S messages journal handlers → l ∉ journal := by
    intro journal handlers hat hmem
    obtain ⟨i, m, -, -, hoff | ⟨reason, hop⟩⟩ := hat.calls hmem
    · rw [hl] at hoff
      cases hoff
    · cases hl.symm.trans hop
  generalize hentries : j₁ ++ l :: j₂ = entries at hlane
  cases hlane with
  | handling hat => exact absurd (hentries ▸ List.mem_append_right _ (List.mem_cons_self ..)) (hnot hat)
  | @acking journal acknowledgement handlers results code hat hresults hcallers hcode =>
    change j₁ ++ l :: j₂ = journal ++ acknowledgement at hentries
    rcases after_ackDone hcode with ⟨hnil, -⟩ | ⟨r, -, hone⟩
    · rw [List.map_eq_nil_iff.1 hnil, List.append_nil] at hentries
      exact absurd (hentries ▸ List.mem_append_right _ (List.mem_cons_self ..)) (hnot hat)
    · obtain ⟨a, rfl⟩ := List.length_eq_one_iff.1
        ((List.length_map JournalEntry.call).symm.trans (congrArg List.length hone))
      rcases List.eq_nil_or_concat j₂ with rfl | ⟨j, x, rfl⟩
      · obtain ⟨rfl, -⟩ := List.append_inj' hentries rfl
        refine ⟨rfl, fun i m hm => ?_⟩
        obtain ⟨r, -, hruns⟩ := (hat.returned hresults).2 i m hm
        exact ⟨r, hruns⟩
      · rw [List.concat_eq_append, ← List.cons_append, ← List.append_assoc] at hentries
        obtain ⟨rfl, -⟩ := List.append_inj' hentries rfl
        exact absurd (List.mem_append_right _ (List.mem_cons_self ..)) (hnot hat)

end Gathered

/-- No handler ends with an exception. -/
theorem Batch.Inv.not_raised {messages : List (QueuedMessage P)} {b : Batch P} (hi : Batch.Inv S messages b)
    {x : Handler P} (hx : x ∈ b.lane.handlers) (e : Exn) : x.code ≠ .raise e := by
  obtain ⟨-, hlane⟩ := hi
  obtain ⟨w, lane, journal⟩ := b
  intro hraise
  cases hlane with
  | acking => cases hx
  | @handling _ handlers hat =>
    obtain ⟨i, hget⟩ := List.mem_iff_getElem?.1 hx
    change handlers[i]? = some x at hget
    have hlt : i < messages.length := hat.length ▸ (List.getElem?_eq_some_iff.1 hget).1
    have hcode := hat.code i _ x (List.getElem?_eq_getElem hlt) hget
    rw [hraise] at hcode
    have hruns := hcode.runs (.raise e)
    rcases handled_cases hruns with ⟨-, -, hr, -⟩ | ⟨_, _, _, -, -, hr, -⟩ | ⟨-, -, hr, -⟩ <;> cases hr

/-- What becomes of a message depends on its own handler's calls only. -/
theorem Settled.unique {m : QueuedMessage P} {calls : List (Call Op.Reply)} {b b' : Batch P}
    (h : Settled S m calls b) (h' : Settled S m calls b') :
    (m.messageId ∈ b'.acks.flatten ↔ m.messageId ∈ b.acks.flatten) ∧
      b'.parked m.messageId = b.parked m.messageId := by
  refine ⟨h'.acknowledged.trans h.acknowledged.symm, ?_⟩
  by_cases hfailed : ∃ e, FailedForGood S m calls e
  · obtain ⟨e, he⟩ := hfailed
    rw [h.parked e he, h'.parked e he]
  · rw [not_exists] at hfailed
    rw [h.spared hfailed, h'.spared hfailed]

/-- A batch is partitioned exactly, whatever its handlers meet and in whatever order they go on: none of
them ever raises; the one acknowledgement comes when all of them have run to their ends, and nothing follows
it; when the batch is over, it has acknowledged the messages for which `process` returned an outcome, has
dead-lettered once, and with its own reason, each one that failed for good, and has left the pending entries
of all others as they were. The same calls for a message have the same end in any other batch. -/
theorem batch_is_partitioned {messages : List (QueuedMessage P)}
    (hids : (messages.map QueuedMessage.messageId).Nodup) {w : World P} {b : Batch P}
    (h : Batch.Run S (Batch.start S messages w) b) :
    (∀ x ∈ b.lane.handlers, ∀ e, x.code ≠ .raise e) ∧
    (∀ j₁ l j₂ ids, b.journal = j₁ ++ l :: j₂ → l.call.op = .xack ids →
      j₂ = [] ∧ ∀ (i : Nat) m, messages[i]? = some m →
        ∃ r, Runs (handleOne S m) (callsOf (some i) j₁) (.ok r)) ∧
    (b.finished = true →
      b.acks.length ≤ 1 ∧ b.acks.flatten.Sublist (messages.map QueuedMessage.messageId) ∧
      (∀ id, b.parked id ≠ [] → id ∈ messages.map QueuedMessage.messageId) ∧
      ∀ (i : Nat) m, messages[i]? = some m → Settled S m (callsOf (some i) b.journal) b ∧
        ∀ messages' w' b' (j : Nat), (messages'.map QueuedMessage.messageId).Nodup →
          Batch.Run S (Batch.start S messages' w') b' → b'.finished = true → messages'[j]? = some m →
          callsOf (some j) b'.journal = callsOf (some i) b.journal →
          (m.messageId ∈ b'.acks.flatten ↔ m.messageId ∈ b.acks.flatten) ∧
            b'.parked m.messageId = b.parked m.messageId) := by
  have hi := Batch.inv_run (Batch.inv_start messages w) h
  refine ⟨fun x hx => hi.not_raised hx, fun j₁ l j₂ ids hjournal hl => acknowledged_last hi hjournal hl,
    fun hfin => ?_⟩
  obtain ⟨done, hg⟩ := gathered_of_finished hids hi hfin
  refine ⟨?_, ?_, fun id hne => ?_, fun i m hm => ?_⟩
  · rw [hg.acks]
    split <;> simp
  · rw [hg.acks]
    split
    · exact List.nil_sublist _
    · simpa using hg.sub
  · obtain ⟨entry, hentry⟩ := List.exists_mem_of_ne_nil _ hne
    obtain ⟨l, hl, hparked⟩ := List.mem_filterMap.1 hentry
    rcases hg.calls l hl with hoff | hack | ⟨m, hm, reason, hdead⟩
    · rw [(Op.none_of_offStream hoff id).2] at hparked
      cases hparked
    · rw [hack] at hparked
      cases hparked
    · rw [hdead] at hparked
      have hid : m.messageId = id := (Option.ite_none_right_eq_some.1 hparked).1
      rw [← hid]
      exact List.mem_map_of_mem hm
  · have hs := hg.settled hi.made hm
    refine ⟨hs, fun messages' w' b' j hids' h' hfin' hm' hcalls => ?_⟩
    have hi' := Batch.inv_run (Batch.inv_start messages' w') h'
    obtain ⟨done', hg'⟩ := gathered_of_finished hids' hi' hfin'
    have hs' := hg'.settled hi'.made hm'
    rw [hcalls] at hs'
    exact hs.unique hs'

/-- One message that is stored, one without a currency, and one whose rate is not to be had for now. -/
def threeMessages : List (QueuedMessage EventIn) :=
  [{ messageId := 1, payload := Trace.document "a" (.finite false 5 0) "USD", number := 1 },
   { messageId := 2, payload := Trace.document "b" (.finite false 6 0) "123", number := 1 },
   { messageId := 3, payload := Trace.document "c" (.finite false 7 0) "EUR", number := 1 }]

/-- The three handlers take turns, and the batch is acknowledged. -/
def threeEndings : List (BatchAction EventIn) :=
  [.handle 2 {}, .handle 0 {}, .handle 1 {}, .handle 2 { rate := .error (.event .rateUnavailableError "down") }] ++
    List.replicate 5 (.handle 0 {}) ++ [.gather, .acknowledge {}]

theorem threeMessages_end_three_ways :
    ∃ b, Batch.Run (documentService { maxAttempts := 1 })
        (Batch.start (documentService { maxAttempts := 1 }) threeMessages (World.initial EventIn)) b ∧
      b.acks = [[1]] ∧ (b.parked 2).map DlqRecord.originalId = [2] ∧ b.parked 3 = [] ∧
      ∀ (i : Nat) m, threeMessages[i]? = some m →
        Settled (documentService { maxAttempts := 1 }) m (callsOf (some i) b.journal) b := by
  obtain ⟨b, hrun, hp⟩ := Steps.exists_run (Batch.step (documentService { maxAttempts := 1 }))
    (Batch.start (documentService { maxAttempts := 1 }) threeMessages (World.initial EventIn)) threeEndings
    (fun b => b.finished && b.acks = [[1]] && (b.parked 2).map DlqRecord.originalId = [2] &&
      (b.parked 3).isEmpty) (by decide +kernel)
  simp only [Bool.and_eq_true, decide_eq_true_eq, List.isEmpty_iff] at hp
  obtain ⟨⟨⟨hfin, hacks⟩, hparked⟩, hspared⟩ := hp
  obtain ⟨-, -, -, hsettled⟩ := (batch_is_partitioned (by decide) hrun).2.2 hfin
  exact ⟨b, hrun, hacks, hparked, hspared, fun i m hm => (hsettled i m hm).1⟩

end App
