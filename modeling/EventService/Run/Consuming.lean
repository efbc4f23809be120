/-
What the consumer's code and the endpoints establish. A message that is handed to a handler is an
entry of the stream, delivered at most `max_deliveries` times unless a lookup missed it; a handler
returns its message's id only when the event's row is committed; everything the consumer
acknowledges has landed or was trimmed away. None of the consumer's code lets an exception escape.
-/
import EventService.Run.Processing
import EventService.Model.Api

namespace App

open Store Prog

variable {P : Type} (S : Service P)

/-! ## Messages -/

/-- A lookup asked for this delivery of the message and the answer did not have it. -/
def Missed (lookup : List (Nat × Nat) × List (Nat × Nat)) (m : QueuedMessage P) : Prop :=
  (m.messageId, m.number) ∈ lookup.1 ∧ m.messageId ∉ lookup.2.map Prod.fst

/-- A message the group delivered: its count is at least the number of the delivery, or a lookup
missed it. -/
def Delivered (w : World P) (m : QueuedMessage P) : Prop :=
  Entered S w ⟨m.messageId, m.payload⟩ ∧ (m.number ≤ m.deliveryCount ∨ ∃ l ∈ w.lookups, Missed l m)

/-- A message that may be handled. -/
def Handed (w : World P) (m : QueuedMessage P) : Prop :=
  Entered S w ⟨m.messageId, m.payload⟩ ∧
    (m.number ≤ max 1 S.settings.maxDeliveries ∨ ∃ l ∈ w.lookups, Missed l m)

/-- The entry's event was parsed, and a row carries its id. -/
def Processed (w : World P) (id : Nat) : Prop :=
  ∃ e ∈ w.stream.added, e.id = id ∧ ∃ event, e.payload = S.json.modelDumpJson event ∧
    S.json.modelValidateJson e.payload = .ok event ∧ w.table.Has event.id

section Mono

variable {S} {w w' : World P} (h : Le w w')
include h

theorem Delivered.mono {m : QueuedMessage P} : Delivered S w m → Delivered S w' m :=
  fun ⟨he, hn⟩ => ⟨he.mono h, hn.imp_right fun ⟨l, hl, hm⟩ => ⟨l, h.lookups.subset hl, hm⟩⟩

theorem Handed.mono {m : QueuedMessage P} : Handed S w m → Handed S w' m :=
  fun ⟨he, hn⟩ => ⟨he.mono h, hn.imp_right fun ⟨l, hl, hm⟩ => ⟨l, h.lookups.subset hl, hm⟩⟩

theorem Processed.mono {id : Nat} : Processed S w id → Processed S w' id :=
  fun ⟨e, he, hid, event, hp, hv, hrow⟩ =>
    ⟨e, h.stream.added.subset he, hid, event, hp, hv, hrow.mono h.table⟩

end Mono

/-- Code that never raises. -/
abbrev NeverRaises : Exn → World P → Prop := fun _ _ => False

variable {S}

/-! ## The queue -/

theorem safe_publish (event : TransactionEvent) (w : World P) {E : Exn → World P → Prop}
    (hE : ∀ e w, E e w) :
    Safe S (fun id w' => ⟨id, S.json.modelDumpJson event⟩ ∈ w'.stream.added) E (publish S event) w :=
  safe_lift (Q := Post S (.xadd (S.json.modelDumpJson event))) (safe_ask ⟨event, rfl⟩) fun _ _ _ => hE _ _

theorem safe_read (consumer count : Nat) (w : World P) :
    Safe S (fun ms w' => ∀ m ∈ ms, Handed S w' m) (fun _ _ => True) (read consumer count) w := by
  unfold read
  refine safe_bind (safe_lift (Q := Post S (.xreadgroup consumer count)) (safe_ask trivial)
    fun _ _ _ => trivial) fun entries w' _ hpost => safe_ret fun m hm => ?_
  have hentered : ∀ e ∈ entries, Entered S w' e := hpost
  obtain ⟨e, he, rfl⟩ := List.mem_map.1 hm
  exact ⟨hentered e he, Or.inl (le_max_left ..)⟩

theorem safe_deliveryCounts {consumer : Nat} {wanted : List (Nat × Nat)} {w : World P}
    (h : ∀ c ∈ wanted, Counted w c.1 c.2) :
    Safe S (fun counts w' => wanted ≠ [] → ∃ answer, (wanted, answer) ∈ w'.lookups ∧
        counts = (answer.filter fun a => a.1 ∈ wanted.map Prod.fst) ∧
        ∀ c ∈ wanted, ∀ a ∈ answer, a.1 = c.1 → c.2 ≤ a.2)
      (fun _ _ => True) (deliveryCounts consumer wanted) w := by
  unfold deliveryCounts
  split
  · rename_i hnil
    exact safe_ret fun hne => absurd hnil hne
  refine safe_bind (safe_lift (Q := Post S (.xpending consumer (max wanted.length 1) wanted))
    (safe_ask h) fun _ _ _ => trivial) fun answer w' _ hpost => safe_ret fun _ => ?_
  exact ⟨answer, hpost.1, rfl, hpost.2⟩

/-- The delivery count of a claimed message is at least the number of its delivery, unless the
lookup missed it. -/
theorem safe_claimStale (consumer minIdleMs count : Nat) (w : World P) :
    Safe S (fun r w' => (∀ m ∈ r.1, Delivered S w' m) ∧ ∀ id ∈ r.2, ∃ e ∈ w'.stream.dropped, e.id = id)
      (fun _ _ => True) (claimStale consumer minIdleMs count) w := by
  unfold claimStale autoclaim
  refine safe_bind (safe_lift (Q := Post S (.xautoclaim consumer minIdleMs count)) (safe_ask trivial)
    fun _ _ _ => trivial) fun r w₁ _ hpost => ?_
  obtain ⟨claimed, deleted⟩ := r
  obtain ⟨hclaimed, hdeleted⟩ : (∀ c ∈ claimed, Entered S w₁ c.1 ∧ Counted w₁ c.1.id c.2) ∧
    ∀ id ∈ deleted, ∃ e ∈ w₁.stream.dropped, e.id = id := hpost
  dsimp only
  split
  · exact safe_ret ⟨by simp, hdeleted⟩
  rename_i hne
  have hcounted : ∀ c ∈ claimed.map fun c => (c.1.id, c.2), Counted w₁ c.1 c.2 := by
    intro c hc
    obtain ⟨c', hc', rfl⟩ := List.mem_map.1 hc
    exact (hclaimed c' hc').2
  refine safe_bind (safe_deliveryCounts hcounted) fun counts w₂ hle hcounts => safe_ret ⟨fun m hm => ?_, ?_⟩
  · obtain ⟨answer, hlookup, hfilter, hnumber⟩ := hcounts (by simpa using hne)
    obtain ⟨c, hc, rfl⟩ := List.mem_map.1 hm
    have hwanted : (c.1.id, c.2) ∈ claimed.map fun c => (c.1.id, c.2) := List.mem_map.2 ⟨c, hc, rfl⟩
    refine ⟨(hclaimed c hc).1.mono hle, ?_⟩
    cases hl : counts.lookup c.1.id with
    | some n =>
      have hmem := List.mem_of_lookup_eq_some hl
      rw [hfilter] at hmem
      exact Or.inl (hnumber _ hwanted _ (List.mem_filter.1 hmem).1 rfl)
    | none =>
      refine Or.inr ⟨_, hlookup, hwanted, fun hin => ?_⟩
      obtain ⟨a, ha, hid⟩ := List.mem_map.1 hin
      have hin : a ∈ counts := by
        rw [hfilter]
        refine List.mem_filter.2 ⟨ha, ?_⟩
        rw [decide_eq_true_eq, hid]
        exact List.mem_map.2 ⟨_, hwanted, rfl⟩
      exact absurd hid.symm (by simpa using List.lookup_eq_none_iff.1 hl a hin)
  · intro id hid
    obtain ⟨e, he, heq⟩ := hdeleted id hid
    exact ⟨e, hle.stream.dropped.subset he, heq⟩

theorem safe_ack {ids : List Nat} {w : World P} (h : Pre S (.xack ids) w) :
    Safe S (fun _ _ => True) (fun _ _ => True) (ack ids) w := by
  unfold ack
  split
  · exact safe_ret trivial
  · exact safe_bind (safe_ask h) fun x _ _ _ => by cases x <;> trivial

/-! ## Acknowledging and dead-lettering -/

theorem safe_tryAck {ids : List Nat} {w : World P} (h : Pre S (.xack ids) w) :
    Safe S (fun _ _ => True) NeverRaises (tryAck ids) w :=
  safe_attempt_bind (safe_ack h) (fun _ _ _ _ => safe_ret trivial) fun _ _ _ _ => safe_ret trivial

theorem safe_tryDeadLetter {m : QueuedMessage P} {reason : String} {w : World P}
    (h : Recorded S w ⟨m.payload, reason, m.messageId, m.deliveryCount⟩) :
    Safe S (fun _ _ => True) NeverRaises (tryDeadLetter m reason) w := by
  refine safe_attempt_bind (Q := fun _ _ => True) (F := fun _ _ => True) ?_
    (fun _ _ _ _ => safe_ret trivial) fun _ _ _ _ => safe_ret trivial
  exact safe_bind (safe_ask h) fun x _ _ _ => by cases x <;> trivial

/-! ## Handlers -/

theorem parse_ok {m : QueuedMessage P} {event : TransactionEvent} (h : parse S m = .ok event) :
    S.json.modelValidateJson m.payload = .ok event := by
  unfold parse at h
  split at h
  · rename_i event' hv
    rw [hv, Except.ok.inj h]
  · split at h <;> exact absurd h (by simp)

/-- A message that cannot be parsed is refused with the text of the validation error. -/
theorem parse_error {m : QueuedMessage P} {e : Exn} (h : parse S m = .error e) (he : e.isPermanent = true) :
    ∃ text, S.json.modelValidateJson m.payload = .error (.ofClass .validationError text) ∧
      e.str = "unparsable payload: " ++ text := by
  have hforeign : ∀ e, S.json.modelValidateJson m.payload = .error e → e.isPermanent = false := by
    intro e hv
    unfold JsonLayer.modelValidateJson at hv
    split at hv
    · rw [← Except.error.inj hv]
      rfl
    · split at hv
      · cases hv
      · rw [← Except.error.inj hv]
        rfl
      · rw [← Except.error.inj hv]
        rfl
  unfold parse at h
  split at h
  · cases h
  · rename_i exc hv
    split at h
    · rename_i text
      exact ⟨text, hv, by rw [← Except.error.inj h]; rfl⟩
    · rw [← Except.error.inj h, hforeign exc hv] at he
      cases he

/-- What a permanent failure of a handler's event leads to is a record that names its cause. -/
theorem safe_handleEvent {m : QueuedMessage P} {w : World P} (hm : Entered S w ⟨m.messageId, m.payload⟩) :
    Safe S (fun _ w' => Processed S w' m.messageId)
      (fun e w' => e.isPermanent = true → Recorded S w' ⟨m.payload, e.str, m.messageId, m.deliveryCount⟩)
      (handleEvent S m) w := by
  obtain ⟨hadded, event₀, hdump⟩ := hm
  unfold handleEvent
  cases hparse : parse S m with
  | error e =>
    refine safe_raise fun he => ?_
    exact ⟨Or.inr (Or.inl (parse_error hparse he)), _, hadded, rfl, rfl⟩
  | ok event =>
    have hvalid := parse_ok hparse
    -- the payload was written from an event, so what it was parsed as is that event
    have hevent : event = event₀ := by
      rw [show m.payload = S.json.modelDumpJson event₀ from hdump] at hvalid
      exact S.json.eq_of_modelValidateJson hvalid
    subst hevent
    have hlen : event.currency.length = 3 := by
      have hv := hvalid
      rw [show m.payload = S.json.modelDumpJson event from hdump, S.json.modelValidateJson_dump] at hv
      split at hv
      · assumption
      · cases hv
    have hop : ∀ w', Le w w' → Safe S (fun _ w'' => w''.table.Has event.id) (Refusal event.currency)
        (process S event) w' := fun w' hle => safe_process ⟨_, hle.stream.added.subset hadded, hdump⟩ hlen
    refine Protocol.Ok.weaken (safe_retryTransient _ _ _ (fun _ _ h => Refusal.of_not_permanent h) hop) ?_ ?_
    · intro outcome w' hle hrow
      exact ⟨_, hle.stream.added.subset hadded, rfl, event, hdump, hvalid, hrow⟩
    · intro e w' hle hrefusal he
      obtain ⟨text, rfl, hf⟩ := hrefusal he
      exact ⟨Or.inr (Or.inr ⟨event, hvalid, hf⟩), _, hle.stream.added.subset hadded, rfl, rfl⟩

/-- A handler returns its message's id only when the event's row is committed, and never raises. -/
theorem safe_handleOne {m : QueuedMessage P} {w : World P} (hm : Entered S w ⟨m.messageId, m.payload⟩) :
    Safe S (fun r w' => ∀ id ∈ r, id = m.messageId ∧ Processed S w' id) NeverRaises (handleOne S m) w := by
  unfold handleOne
  refine safe_attempt_bind (safe_handleEvent hm) (fun _ w' _ hrow => safe_ret fun id hid => ?_)
    fun e w' _ he => ?_
  · obtain rfl := Option.some.inj hid
    exact ⟨rfl, hrow⟩
  · dsimp only
    split
    · rename_i hperm
      exact safe_bind (safe_tryDeadLetter (he hperm)) fun _ _ _ _ => safe_ret (by simp)
    · exact safe_ret (by simp)

/-- What was processed has landed, so it may be acknowledged. -/
theorem Processed.pre {w : World P} {ids : List Nat} (h : ∀ id ∈ ids, Processed S w id) :
    Pre S (.xack ids) w := by
  intro id hid
  obtain ⟨e, he, heid, event, hp, -, hrow⟩ := h id hid
  exact ⟨e, he, heid, Or.inl (Or.inl ⟨event, hp, hrow⟩)⟩

theorem safe_ackDone {results : List (Option Nat)} {w : World P}
    (h : ∀ r ∈ results, ∀ id ∈ r, Processed S w id) :
    Safe S (fun _ _ => True) NeverRaises (ackDone results) w := by
  unfold ackDone
  dsimp only
  split
  · exact safe_ret trivial
  · refine safe_tryAck (Processed.pre fun id hid => ?_)
    obtain ⟨r, hr, heq⟩ := List.mem_filterMap.1 hid
    exact h r hr id heq

/-! ## Rounds -/

/-- A round hands over messages that may be handled. -/
def HandsOver (S : Service P) (next : Next P) (w : World P) : Prop :=
  ∀ ms, next = .handle ms → ∀ m ∈ ms, Handed S w m

theorem handsOver_stop (w : World P) : HandsOver S .stop w := by
  intro ms h
  cases h

theorem handsOver_again (w : World P) : HandsOver S .again w := by
  intro ms h
  cases h

theorem safe_consumeRound (worker : Nat) (w : World P) :
    Safe S (HandsOver S) NeverRaises (consumeRound S worker) w := by
  unfold consumeRound stopIsSet
  refine safe_ask_bind trivial fun stop w₁ _ _ => ?_
  split
  · exact safe_ret (handsOver_stop w₁)
  refine safe_attempt_bind (safe_read worker _ w₁) (fun ms w₂ _ hms => ?_) fun _ w₂ _ _ => ?_
  · dsimp only
    split
    · refine safe_ret fun ms' heq => ?_
      rw [← Next.handle.inj heq]
      exact hms
    · split
      · exact safe_ask_bind trivial fun _ w₃ _ _ => safe_ret (handsOver_again w₃)
      · exact safe_ret (handsOver_again w₂)
  · exact safe_ask_bind trivial fun _ w₃ _ _ => safe_ret (handsOver_again w₃)

/-- Only messages that were not delivered too often are kept; the others are dead-lettered. -/
theorem safe_retryable : ∀ (ms : List (QueuedMessage P)) (w : World P), (∀ m ∈ ms, Delivered S w m) →
    Safe S (fun kept w' => ∀ m ∈ kept, Handed S w' m) NeverRaises (retryable S ms) w
  | [], w, _ => safe_ret (by simp)
  | m :: ms, w, h => by
    have hm := h m (List.mem_cons_self ..)
    unfold retryable
    split
    · rename_i hcount
      refine safe_bind (safe_tryDeadLetter ⟨Or.inl ⟨rfl, hcount⟩, _, hm.1.1, rfl, rfl⟩) fun _ w₁ hle _ => ?_
      exact safe_retryable ms w₁ fun m' hm' => (h m' (List.mem_cons_of_mem _ hm')).mono hle
    · rename_i hcount
      refine safe_bind (safe_retryable ms w fun m' hm' => h m' (List.mem_cons_of_mem _ hm'))
        fun rest w₁ hle hrest => safe_ret fun m' hm' => ?_
      rcases List.mem_cons.1 hm' with rfl | hm'
      · -- its count is at most `max_deliveries`, and so is its number unless a lookup missed it
        obtain ⟨he, hn⟩ := hm.mono hle
        exact ⟨he, hn.imp_left fun hn => hn.trans ((not_lt.1 hcount).trans (le_max_right ..))⟩
      · exact hrest m' hm'

theorem safe_reclaim (worker : Nat) (w : World P) :
    Safe S (fun ms w' => ∀ m ∈ ms, Delivered S w' m) (fun _ _ => True) (reclaim S worker) w := by
  unfold reclaim
  refine safe_bind (safe_claimStale worker _ _ w) fun r w₁ _ hr => ?_
  obtain ⟨messages, deleted⟩ := r
  obtain ⟨hms, hdel⟩ := hr
  dsimp only
  split
  · have hpre : Pre S (.xack deleted) w₁ := by
      intro id hid
      obtain ⟨e, he, heq⟩ := hdel id hid
      exact ⟨e, List.mem_append_left _ he, heq, Or.inr he⟩
    exact safe_bind (safe_ack hpre) fun _ w₂ hle _ => safe_ret fun m hm => (hms m hm).mono hle
  · exact safe_ret hms

theorem safe_reclaimRound (worker : Nat) (w : World P) :
    Safe S (HandsOver S) NeverRaises (reclaimRound S worker) w := by
  unfold reclaimRound stopIsSet
  refine safe_ask_bind trivial fun stop w₁ _ _ => ?_
  split
  · exact safe_ret (handsOver_stop w₁)
  refine safe_ask_bind trivial fun _ w₂ _ _ => ?_
  refine safe_ask_bind trivial fun stop w₃ _ _ => ?_
  split
  · exact safe_ret (handsOver_stop w₃)
  refine safe_attempt_bind (safe_reclaim worker w₃) (fun ms w₄ _ hms => ?_)
    fun _ w₄ _ _ => safe_ret (handsOver_again w₄)
  dsimp only
  split
  · exact safe_ret (handsOver_again w₄)
  · refine safe_bind (safe_retryable ms w₄ hms) fun kept w₅ _ hkept => ?_
    split
    · refine safe_ret fun ms' heq => ?_
      rw [← Next.handle.inj heq]
      exact hkept
    · exact safe_ret (handsOver_again w₅)

theorem safe_stats (w : World P) : Safe S (fun _ _ => True) (fun _ _ => True) stats w := by
  have hask : ∀ {α : Type} {p : Code P (Except Foreign α)} {w : World P},
      Safe S (fun _ _ => True) (fun _ _ => True) p w →
      Safe S (fun _ _ => True) (fun _ _ => True) (p >>= lift) w :=
    fun h => safe_bind h fun x _ _ _ => by cases x <;> trivial
  have hop : ∀ {o : Op P} {w : World P}, Pre S o w →
      Safe S (fun _ _ => True) (fun _ _ => True) (ask o) w :=
    fun hp => Protocol.Ok.weaken (safe_ask hp) (fun _ _ _ _ => trivial) fun _ _ _ h => h
  unfold stats
  refine safe_bind (hask (hop trivial)) fun _ _ _ _ => safe_bind (hask (hop trivial)) fun _ _ _ _ => ?_
  refine safe_bind (hask (hop trivial)) fun r _ _ _ => ?_
  rcases r with _ | ⟨pending, lag⟩ <;> exact safe_ret trivial

theorem safe_metricsRound (worker : Nat) (w : World P) :
    Safe S (HandsOver S) NeverRaises (metricsRound S worker) w := by
  have hend : ∀ w, Safe S (HandsOver S) NeverRaises
      (ask (.sleep S.settings.metricsRefreshInterval) >>= fun _ => pure .again) w :=
    fun w => safe_ask_bind trivial fun _ w' _ _ => safe_ret (handsOver_again w')
  unfold metricsRound stopIsSet
  refine safe_ask_bind trivial fun stop w₁ _ _ => ?_
  split
  · exact safe_ret (handsOver_stop w₁)
  · exact safe_attempt_bind (safe_stats w₁) (fun _ w₂ _ _ => hend w₂) fun _ w₂ _ _ => hend w₂

/-! ## Starting up, and the endpoints -/

theorem safe_ensureGroup (w : World P) :
    Safe S (fun _ _ => True) (fun _ _ => True) ensureGroup w := by
  unfold ensureGroup
  refine safe_ask_bind trivial fun r _ _ _ => ?_
  rcases r with e | _
  · dsimp only
    split
    · split
      · exact safe_ret trivial
      · exact safe_raise trivial
    · exact safe_raise trivial
  · exact safe_ret trivial

/-- The entries of the accepted events are in the stream under the ids the client was told. -/
def Answered (S : Service P) : Request → Response → World P → Prop
  | .event body, .accepted id messageId, w => ∃ event, validate body = .ok event ∧ id = event.id ∧
      ⟨messageId, S.json.modelDumpJson event⟩ ∈ w.stream.added
  | .events body, .batchAccepted _ messageIds, w => ∃ events, validateAll body = .ok events ∧
      List.Forall₂ (fun event id => ⟨id, S.json.modelDumpJson event⟩ ∈ w.stream.added) events messageIds
  | .startup, .accepted _ _, _ | .startup, .batchAccepted _ _, _ => False
  | .event _, .batchAccepted _ _, _ | .events _, .accepted _ _, _ => False
  | _, .started, _ | _, .failed _ _, _ => True

theorem Answered.mono {r : Request} {response : Response} {w w' : World P} (h : Le w w')
    (ha : Answered S r response w) : Answered S r response w' := by
  match r, response with
  | .event body, .accepted id messageId =>
    obtain ⟨event, hv, hid, hmem⟩ := ha
    exact ⟨event, hv, hid, h.stream.added.subset hmem⟩
  | .events body, .batchAccepted n messageIds =>
    obtain ⟨events, hv, hmem⟩ := ha
    exact ⟨events, hv, hmem.imp fun _ _ hm => h.stream.added.subset hm⟩
  | .startup, .accepted _ _ | .startup, .batchAccepted _ _ => exact ha
  | .event _, .batchAccepted _ _ | .events _, .accepted _ _ => exact ha
  | .startup, .started | .startup, .failed _ _ | .event _, .started | .event _, .failed _ _
  | .events _, .started | .events _, .failed _ _ => trivial

theorem safe_respond {α : Type} {Q : α → World P → Prop} {R : Response → World P → Prop} {p : Code P α}
    {f : α → Response} {w : World P} (hp : Safe S Q (fun _ _ => True) p w)
    (hQ : ∀ a w', Q a w' → R (f a) w') (hfail : ∀ status detail w', R (.failed status detail) w') :
    Safe S R NeverRaises (respond p f) w := by
  unfold respond
  refine safe_attempt_bind hp (fun a w' _ ha => safe_ret (hQ a w' ha)) fun e w' _ _ => ?_
  rcases e with ⟨cls, message⟩ | e
  · exact safe_ret (hfail ..)
  · dsimp only
    split <;> exact safe_ret (hfail ..)

theorem firstError_ok {α : Type} {rs : List (Except Foreign α)} {as : List α} (h : firstError rs = .ok as) :
    rs = as.map .ok := by
  induction rs generalizing as with
  | nil => rw [← Except.ok.inj h]; rfl
  | cons r rs ih =>
    cases r with
    | error e => exact absurd h (by simp [firstError])
    | ok a =>
      unfold firstError at h
      cases hr : firstError rs with
      | error e => rw [hr] at h; exact absurd h (by simp [Except.map])
      | ok as' =>
        rw [hr] at h
        rw [← Except.ok.inj h, ih hr]
        rfl

theorem safe_publishMany (events : List TransactionEvent) (w : World P) :
    Safe S (fun ids w' => List.Forall₂ (fun event id => ⟨id, S.json.modelDumpJson event⟩ ∈ w'.stream.added)
      events ids) (fun _ _ => True) (publishMany S events) w := by
  have hcollect := Protocol.Ok.collect (P := protocol S) (E := fun _ _ => True)
    (f := fun event => ask (.xadd (S.json.modelDumpJson event))) (A := fun _ _ => True)
    (B := fun event r w' => ∀ id, r = .ok id → ⟨id, S.json.modelDumpJson event⟩ ∈ w'.stream.added)
    (fun _ _ _ _ h => h) (fun _ _ _ _ hle h id hid => hle.stream.added.subset (h id hid))
    (fun event w _ => Protocol.Ok.weaken (safe_ask ⟨event, rfl⟩)
      (fun r w' _ hr id hid => by subst hid; exact hr) fun _ _ _ h => h)
    (fun _ _ _ _ h => h) events w fun _ _ => trivial
  unfold publishMany
  refine safe_bind hcollect fun replies w' _ hreplies => ?_
  cases hfirst : firstError replies with
  | error e => exact safe_raise trivial
  | ok ids =>
    refine safe_ret ?_
    rw [firstError_ok hfirst, List.forall₂_map_right_iff] at hreplies
    exact hreplies.imp fun _ _ h => h _ rfl

theorem safe_serve (r : Request) (w : World P) :
    Safe S (Answered S r) (fun _ _ => True) (serve S r) w := by
  cases r with
  | startup => exact safe_bind (safe_ensureGroup w) fun _ _ _ _ => safe_ret trivial
  | event body =>
    refine Protocol.Ok.weaken (E := NeverRaises) ?_ (fun _ _ _ h => h) fun _ _ _ h => h.elim
    show Safe S _ _ (receiveEvent S body) w
    unfold receiveEvent
    split
    · obtain ⟨status, detail, heq⟩ := complained_failed body.renders
      rw [heq]
      exact safe_ret trivial
    · exact safe_ret trivial
    · rename_i event hv
      exact safe_respond (safe_publish event w fun _ _ => trivial) (fun id w' hid => ⟨event, hv, rfl, hid⟩)
        fun _ _ _ => trivial
  | events body =>
    refine Protocol.Ok.weaken (E := NeverRaises) ?_ (fun _ _ _ h => h) fun _ _ _ h => h.elim
    show Safe S _ _ (receiveEvents S body) w
    unfold receiveEvents
    split
    · exact safe_ret trivial
    split
    · obtain ⟨status, detail, heq⟩ := complained_failed (body.all EventIn.renders)
      rw [heq]
      exact safe_ret trivial
    · exact safe_ret trivial
    · rename_i events hv
      split
      · exact safe_ret trivial
      · exact safe_respond (safe_publishMany events w) (fun ids w' hids => ⟨events, hv, hids⟩)
          fun _ _ _ => trivial

end App
