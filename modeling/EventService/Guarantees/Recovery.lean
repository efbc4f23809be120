/-
The service can always recover. Whatever has happened, with any workers crashed or hanging in the middle of
anything, one fresh worker that Redis answers can settle every entry the stream holds, without a client, and
even if the database and the rate source fail for ever, as long as no insert is left waiting for ever: each read
and each claim leaves less to do.
-/
import EventService.Guarantees.DeliveryCounts
import EventService.Guarantees.NoLoss
import EventService.Run.Solo
import EventService.Store.Burden

namespace App

open Prog Store

variable {P : Type} {S : Service P} {env : Environment P} {worker : Nat} {s t : System P} {w w' : World P}

/-! ## What healthy calls do -/

theorem applied_of_healthy {α : Type} {c : Choice} (hc : c.fault = .none) {r x : Except Foreign α × World P}
    (h : c.command w r = x) : r = x := by
  unfold Choice.command at h
  rwa [hc] at h

theorem heard_stop {asked : Bool} (h : Effect S env (.stopIsSet worker) w asked w') :
    asked = decide (worker ∈ w.stops) ∧ w'.stream = w.stream := by
  obtain ⟨table, hexec⟩ := h
  refine ⟨?_, (stream_of_exec rfl hexec).trans rfl⟩
  exact (Prod.mk.inj (Option.some.inj hexec)).1.symm

theorem read_of_effect (henv : Healthy env) {count : Nat} {reply : Except Foreign (List (Entry P))} {g : Group}
    (hg : w.stream.group = some g) (h : Effect S env (.xreadgroup worker count) w reply w') :
    reply = .ok ((w.stream.unread g).take count) ∧
      w.stream.readNew worker w.now count = .ok ((w.stream.unread g).take count, w'.stream) := by
  obtain ⟨table, hexec⟩ := h
  have happlied := applied_of_healthy (henv.redis _ _ rfl) (Option.some.inj hexec)
  unfold World.groupCommand at happlied
  cases hread : w.stream.readNew worker w.now count with
  | error e =>
    unfold Stream.readNew at hread
    split at hread
    · rename_i hnone
      cases hnone.symm.trans hg
    · cases hread
  | ok x =>
    have hes : x.1 = (w.stream.unread g).take count := by
      unfold Stream.readNew at hread
      split at hread
      · cases hread
      · rename_i g' hg'
        obtain rfl := Option.some.inj (hg.symm.trans hg')
        rw [← Except.ok.inj hread]
    dsimp only at happlied
    rw [hread] at happlied
    obtain ⟨hreply, rfl⟩ := Prod.mk.inj happlied
    refine ⟨?_, ?_⟩
    · rw [← hreply, ← hes]
      rfl
    · rw [← hes]

theorem created_of_effect (henv : Healthy env) {reply : Except Foreign Unit} (h : Effect S env .xgroupCreate w reply w') :
    w'.stream.group.isSome ∧ (reply = .ok () ∨
      reply = .error ⟨.responseError, "BUSYGROUP Consumer Group name already exists"⟩) := by
  obtain ⟨table, hexec⟩ := h
  have happlied := applied_of_healthy (henv.redis _ _ rfl) (Option.some.inj hexec)
  unfold Stream.createGroup at happlied
  cases hgroup : w.stream.group with
  | none =>
    rw [hgroup] at happlied
    obtain ⟨rfl, rfl⟩ := Prod.mk.inj happlied
    exact ⟨rfl, Or.inl rfl⟩
  | some g =>
    rw [hgroup] at happlied
    obtain ⟨rfl, rfl⟩ := Prod.mk.inj happlied
    exact ⟨by rw [hgroup]; rfl, Or.inr rfl⟩

theorem claimed_of_effect (henv : Healthy env) {minIdle count : Nat}
    {reply : Except Foreign (List (Entry P × Nat) × List Nat)} {g : Group} (hg : w.stream.group = some g)
    (h : Effect S env (.xautoclaim worker minIdle count) w reply w') :
    ∃ r, reply = .ok r ∧ w.stream.autoclaim worker w.now minIdle count = .ok (r, w'.stream) := by
  obtain ⟨table, hexec⟩ := h
  have happlied := applied_of_healthy (henv.redis _ _ rfl) (Option.some.inj hexec)
  dsimp only at happlied
  cases hclaim : w.stream.autoclaim worker w.now minIdle count with
  | error e =>
    unfold Stream.autoclaim at hclaim
    split at hclaim
    · rename_i hnone
      cases hnone.symm.trans hg
    · cases hclaim
  | ok x =>
    rw [hclaim] at happlied
    obtain ⟨rfl, rfl⟩ := Prod.mk.inj happlied
    exact ⟨x.1, rfl, rfl⟩

theorem counted_of_effect (henv : Healthy env) {wanted : List (Nat × Nat)} {reply : Except Foreign (List (Nat × Nat))}
    {g : Group} (hg : w.stream.group = some g) (hne : wanted ≠ [])
    (h : Effect S env (.xpending worker (max wanted.length 1) wanted) w reply w') :
    ∃ pending, reply = .ok pending ∧ ∀ id ∈ wanted.map Prod.fst,
      (pending.filter fun entry => entry.1 ∈ wanted.map Prod.fst).lookup id =
        (((g.ownedBy worker).take wanted.length).map fun p => (p.id, p.timesDelivered)).lookup id := by
  obtain ⟨table, hexec⟩ := h
  cases reply with
  | ok pending => exact ⟨pending, rfl, (lookup_counted S (w := { w with table := table }) hg hne hexec).2⟩
  | error e =>
    have hfault := henv.redis { w with table := table } (.xpending worker (max wanted.length 1) wanted) rfl
    simp only [World.exec, hfault, Stream.pendingOf, hg] at hexec
    cases (Prod.mk.inj (Option.some.inj hexec)).1

theorem acked_of_effect (henv : Healthy env) {ids : List Nat} {reply : Except Foreign Nat}
    (h : Effect S env (.xack ids) w reply w') : ∃ n, reply = .ok n := by
  obtain ⟨table, hexec⟩ := h
  have happlied := applied_of_healthy (henv.redis _ _ rfl) (Option.some.inj hexec)
  exact ⟨_, (Prod.mk.inj happlied).1.symm⟩

theorem parked_of_effect (henv : Healthy env) {entry : DlqRecord P} {reply : Except Foreign Unit}
    (h : Effect S env (.deadLetter entry) w reply w') : w'.stream = (w.stream.ack [entry.originalId]).2 := by
  obtain ⟨table, hexec⟩ := h
  have happlied := applied_of_healthy (henv.redis _ _ rfl) (Option.some.inj hexec)
  have hworld : (World.deadLetterExec S _ _ entry).2 = w' := congrArg Prod.snd happlied
  rw [← hworld]
  unfold World.deadLetterExec
  split <;> rfl

/-! ## Starting -/

/-- The group is there once a worker has made sure of it. -/
theorem ensured_of_trail (henv : Healthy env) {τ : List (Call Op.Reply)} {x : Except Exn Unit}
    (hruns : Runs (ensureGroup : Code P Unit) τ x) (htrail : Trail (Effect S env) w τ w') :
    x = .ok () ∧ w'.stream.group.isSome := by
  unfold ensureGroup at hruns
  obtain ⟨reply, τ', rfl, hrest⟩ := runs_op_iff.1 hruns
  obtain ⟨w₁, heffect, hnil⟩ := Trail.cons_iff.1 htrail
  obtain ⟨hgroup, rfl | rfl⟩ := created_of_effect henv heffect
  · obtain ⟨rfl, rfl⟩ := runs_ret_iff.1 hrest
    rw [Trail.nil_iff.1 hnil]
    exact ⟨rfl, hgroup⟩
  · -- the message of this failure is the one the code looks for
    obtain ⟨rfl, rfl⟩ := runs_ret_iff.1 hrest
    rw [Trail.nil_iff.1 hnil]
    exact ⟨rfl, hgroup⟩

/-- A fresh worker starts, makes sure the group exists and enters its loops. -/
theorem reaches_ready (henv : Healthy env) (hdown : s.workers worker = .down) :
    ∃ t, AloneRun S env worker s t ∧ SameEntries s.world t.world ∧ Ready S worker t ∧ t.world.stream.group.isSome := by
  have hstart : s.step S (.start worker) = some { s with
      world := { s.world with stops := s.world.stops.filter (· ≠ worker) }
      workers := s.setWorker worker (.booting ensureGroup) } := by
    simp only [System.step, hdown]
  obtain ⟨τ, x, t, hruns, htrail, hrun, hbooted⟩ := (place_booting henv).complete
    (s := { s with
      world := { s.world with stops := s.world.stops.filter (· ≠ worker) }
      workers := s.setWorker worker (.booting ensureGroup) }) (s.setWorker_self _)
  obtain ⟨rfl, hgroup⟩ := ensured_of_trail henv hruns htrail
  have hbooted : t.workers worker = .booting (.ret ()) := hbooted
  have henter : t.step S (.enter worker) =
      some { t with workers := t.setWorker worker (.up fun loop => .running (round S worker loop)) } := by
    simp only [System.step, hbooted]
  have hkept := sameEntries_of_trail htrail hruns (byWorker_of_byLoop byLoop_ensureGroup : ByWorker S worker _)
  refine ⟨_, ((Relation.ReflTransGen.single (.start hstart)).trans hrun).tail (.enter henter),
    ⟨hkept.added, hkept.dropped⟩, ⟨t.setWorker_self _, ?_⟩, hgroup⟩
  change worker ∉ t.world.stops
  rw [(onward_of_trail htrail).stops]
  simp

/-! ## One round gets something done -/

/-- A round of a worker that was not asked to stop goes on behind its first question. -/
theorem asked_of_trail {asked : Bool} {τ : List (Call Op.Reply)} (htold : worker ∉ w.stops)
    (h : Trail (Effect S env) w (⟨.stopIsSet worker, asked⟩ :: τ) w') :
    asked = false ∧ ∃ w₁, Onward w w₁ ∧ w₁.stream = w.stream ∧ Trail (Effect S env) w₁ τ w' := by
  obtain ⟨w₁, heffect, hrest⟩ := Trail.cons_iff.1 h
  obtain ⟨rfl, hstream⟩ := heard_stop heffect
  exact ⟨decide_eq_false htold, w₁, heffect.onward, hstream, hrest⟩

/-- Before a round of the reclaim loop claims anything, time may have passed. -/
theorem reclaiming_of_trail {τ : List (Call Op.Reply)} (htold : worker ∉ w.stops)
    (h : Trail (Effect S env) w (reclaiming S worker τ) w') :
    ∃ w₁, Onward w w₁ ∧ w₁.stream = w.stream ∧ Trail (Effect S env) w₁ τ w' := by
  obtain ⟨-, w₁, h₁, hs₁, hrest⟩ := asked_of_trail htold h
  obtain ⟨w₂, ⟨table, hsleep⟩, hrest⟩ := Trail.cons_iff.1 hrest
  have h₂ : Onward w₁ w₂ := Effect.onward ⟨table, hsleep⟩
  have hs₂ : w₂.stream = w₁.stream := stream_of_exec (w := { w₁ with table := table }) rfl hsleep
  obtain ⟨-, w₃, h₃, hs₃, hrest⟩ := asked_of_trail (by rwa [(h₁.trans h₂).stops]) hrest
  exact ⟨w₃, (h₁.trans h₂).trans h₃, hs₃.trans (hs₂.trans hs₁), hrest⟩

/-- What is left to do about an entry, as far as the worker goes by `max_deliveries`. -/
abbrev left (S : Service P) (w : World P) (id : Nat) : Nat := w.stream.weight S.settings.maxDeliveries id

theorem left_mono (h : Onward w w') (id : Nat) : left S w' id ≤ left S w id := Stream.weight_mono h.stream _ id

/-- A round of the consume loop gets an unread entry read. -/
theorem lighter_of_consume (henv : Healthy env) (hbatch : 1 ≤ S.settings.batchSize) {τ : List (Call Op.Reply)}
    {next : Next P} {g : Group} (htold : worker ∉ w.stops) (hg : w.stream.group = some g) (hunread : w.stream.unread g ≠ [])
    (hruns : Runs (consumeRound S worker) τ (.ok next)) (htrail : Trail (Effect S env) w τ w') :
    next ≠ .stop ∧ ∃ e ∈ w.stream.entries, left S w' e.id < left S w e.id := by
  have htake : (w.stream.unread g).take S.settings.batchSize ≠ [] := by
    rw [Ne, List.take_eq_nil_iff, not_or]
    exact ⟨by omega, hunread⟩
  -- what the group is asked for, it hands over
  have hread : ∀ {w₁ w₂ : World P} {reply}, Onward w w₁ → w₁.stream = w.stream →
      Effect S env (.xreadgroup worker S.settings.batchSize) w₁ reply w₂ →
      reply = .ok ((w.stream.unread g).take S.settings.batchSize) ∧
        ∃ e ∈ w.stream.entries, left S w₂ e.id < left S w e.id := by
    intro w₁ w₂ reply h₁ hs₁ heffect
    obtain ⟨hreply, hread⟩ := read_of_effect henv (by rwa [hs₁]) heffect
    rw [hs₁] at hreply hread
    obtain ⟨e, he⟩ := List.exists_mem_of_ne_nil _ htake
    exact ⟨hreply, e, (List.mem_filter.1 (List.mem_of_mem_take he)).1, Stream.weight_readNew hread he⟩
  obtain ⟨next', heq, hcalls⟩ := consumeCalls_of_runs hruns
  obtain rfl := Except.ok.inj heq
  cases hcalls with
  | stop => cases (asked_of_trail htold htrail).1
  | failed e =>
    obtain ⟨-, w₁, h₁, hs₁, hrest⟩ := asked_of_trail htold htrail
    obtain ⟨w₂, heffect, -⟩ := Trail.cons_iff.1 hrest
    cases (hread h₁ hs₁ heffect).1
  | read hne =>
    obtain ⟨-, w₁, h₁, hs₁, hrest⟩ := asked_of_trail htold htrail
    obtain ⟨w₂, heffect, hnil⟩ := Trail.cons_iff.1 hrest
    rw [Trail.nil_iff.1 hnil]
    exact ⟨by simp, (hread h₁ hs₁ heffect).2⟩
  | paced | polled =>
    obtain ⟨-, w₁, h₁, hs₁, hrest⟩ := asked_of_trail htold htrail
    obtain ⟨w₂, heffect, -⟩ := Trail.cons_iff.1 hrest
    exact absurd (Except.ok.inj (hread h₁ hs₁ heffect).1).symm htake

/-- The oldest pending entry is the first of those its owner has. -/
theorem lookup_oldest {g : Group} {p : Pending} {ps : List Pending} (hg : g.pending = p :: ps) {n : Nat} (hn : n ≠ 0) :
    (((g.ownedBy p.owner).take n).map fun q => (q.id, q.timesDelivered)).lookup p.id = some p.timesDelivered := by
  obtain ⟨n, rfl⟩ := Nat.exists_eq_succ_of_ne_zero hn
  unfold Group.ownedBy
  rw [hg, List.filter_cons_of_pos (by simp), List.take_succ_cons, List.map_cons, List.lookup_cons]
  simp

/-- A claim gets the oldest pending entry off the list or handed over once more, and if that is once too
often, says so. -/
theorem claim_of_trail (henv : Healthy env) (hbatch : 1 ≤ S.settings.batchSize) {τ : List (Call Op.Reply)}
    {x : Except Exn (List (QueuedMessage P) × List Nat)} {g : Group} {p : Pending} {ps : List Pending}
    (hgroup : w.stream.group = some g) (hg : g.pending = p :: ps)
    (hstale : S.settings.reclaimIdleMs ≤ w.now - p.deliveredAt)
    (hruns : Runs (claimStale worker S.settings.reclaimIdleMs S.settings.batchSize) τ x)
    (htrail : Trail (Effect S env) w τ w') :
    ∃ messages deleted, x = .ok (messages, deleted) ∧ (left S w' p.id < left S w p.id ∨
      (p.id ≤ g.lastDelivered ∧ 0 < left S w p.id ∧
        ∃ m ∈ messages, m.messageId = p.id ∧ S.settings.maxDeliveries < m.deliveryCount)) := by
  have hp : p ∈ g.pending := hg ▸ List.mem_cons_self ..
  have hopen : 0 < left S w p.id := Stream.weight_pos_of_open (Or.inr ⟨g, hgroup, p, hp, rfl⟩)
  have hclaim : ∀ {reply} {w₁ : World P} {τ₁ : List (Call Op.Reply)},
      Effect S env (.xautoclaim worker S.settings.reclaimIdleMs S.settings.batchSize) w reply w₁ →
      Trail (Effect S env) w₁ τ₁ w' → ∃ r, reply = .ok r ∧ (∃ g₁, w₁.stream.group = some g₁) ∧
        (left S w' p.id < left S w p.id ∨ (S.settings.maxDeliveries < p.timesDelivered ∧
          (∃ e, e.id = p.id ∧ (e, p.timesDelivered + 1) ∈ r.1) ∧ ∃ g₁ ps', w₁.stream.group = some g₁ ∧
            g₁.pending = ⟨p.id, worker, w.now, p.timesDelivered + 1⟩ :: ps')) := by
    intro reply w₁ τ₁ heffect hrest
    obtain ⟨r, rfl, hclaim⟩ := claimed_of_effect henv hgroup heffect
    obtain ⟨-, -, g₁, hg₁, -⟩ := Stream.autoclaim_group hclaim
    refine ⟨r, rfl, ⟨g₁, hg₁⟩, ?_⟩
    exact (Stream.weight_autoclaim hgroup hg hbatch hstale hclaim).imp_left
      (left_mono (onward_of_trail hrest) p.id).trans_lt
  cases claimCalls_of_runs hruns with
  | refused e =>
    obtain ⟨w₁, heffect, hrest⟩ := Trail.cons_iff.1 htrail
    obtain ⟨r, hreply, -⟩ := hclaim heffect hrest
    cases hreply
  | nothing deleted =>
    obtain ⟨w₁, heffect, hrest⟩ := Trail.cons_iff.1 htrail
    obtain ⟨r, hreply, -, hlight | ⟨-, ⟨e, -, he⟩, -⟩⟩ := hclaim heffect hrest
    · exact ⟨_, _, rfl, Or.inl hlight⟩
    · rw [← Except.ok.inj hreply] at he
      cases he
  | uncounted hne e =>
    obtain ⟨w₁, heffect, hrest⟩ := Trail.cons_iff.1 htrail
    obtain ⟨r, -, ⟨g₁, hg₁⟩, -⟩ := hclaim heffect hrest
    obtain ⟨w₂, hcounted, -⟩ := Trail.cons_iff.1 hrest
    obtain ⟨pending, hreply, -⟩ := counted_of_effect henv hg₁ (by simpa [wantedOf] using hne) hcounted
    cases hreply
  | @counted claimed deleted hne pending =>
    obtain ⟨w₁, heffect, hrest⟩ := Trail.cons_iff.1 htrail
    obtain ⟨r, hreply, -, hlight | ⟨hover, ⟨e, hid, he⟩, g₁, ps', hg₁, hpending⟩⟩ := hclaim heffect hrest
    · exact ⟨_, _, rfl, Or.inl hlight⟩
    · -- the entry is the worker's oldest now, so its count is among those looked up
      obtain ⟨w₂, hcounted, -⟩ := Trail.cons_iff.1 hrest
      have hwanted : wantedOf claimed ≠ [] := by simpa [wantedOf] using hne
      obtain ⟨pending', hreply', hcounts⟩ := counted_of_effect henv hg₁ hwanted hcounted
      obtain rfl := Except.ok.inj hreply'
      rw [← Except.ok.inj hreply] at he
      have hmem : p.id ∈ (wantedOf claimed).map Prod.fst := by
        refine List.mem_map.2 ⟨(p.id, p.timesDelivered + 1), List.mem_map.2 ⟨_, he, ?_⟩, rfl⟩
        rw [hid]
      have hlen : (wantedOf claimed).length ≠ 0 := fun h => hwanted (List.length_eq_zero_iff.1 h)
      refine ⟨_, _, rfl, Or.inr ⟨g.delivered p hp, hopen, _, List.mem_map_of_mem he, hid, ?_⟩⟩
      unfold claimedMessage
      dsimp only
      rw [hid, hcounts p.id hmem, lookup_oldest hpending hlen]
      exact Nat.lt_succ_of_lt hover

/-- A round of the reclaim loop gets something done about the oldest pending entry, once it is stale. -/
theorem lighter_of_reclaim (henv : Healthy env) (hbatch : 1 ≤ S.settings.batchSize) {τ : List (Call Op.Reply)}
    {next : Next P} {g : Group} {p : Pending} {ps : List Pending} (htold : worker ∉ w.stops)
    (hgroup : w.stream.group = some g) (hg : g.pending = p :: ps)
    (hstale : p.deliveredAt + S.settings.reclaimIdleMs ≤ w.now)
    (hruns : Runs (reclaimRound S worker) τ (.ok next)) (htrail : Trail (Effect S env) w τ w') :
    next ≠ .stop ∧ left S w' p.id < left S w p.id := by
  obtain ⟨next', heq, hcalls⟩ := reclaimCalls_of_runs hruns
  obtain rfl := Except.ok.inj heq
  have hclaim : ∀ {w₁ w₂ : World P} {τ x}, Onward w w₁ → w₁.stream = w.stream →
      Runs (claimStale worker S.settings.reclaimIdleMs S.settings.batchSize) τ x → Trail (Effect S env) w₁ τ w₂ →
      ∃ messages deleted, x = .ok (messages, deleted) ∧ (left S w₂ p.id < left S w p.id ∨
        (p.id ≤ g.lastDelivered ∧ 0 < left S w p.id ∧
          ∃ m ∈ messages, m.messageId = p.id ∧ S.settings.maxDeliveries < m.deliveryCount)) := by
    intro w₁ w₂ τ x h₁ hs₁ hruns htrail
    have hnow := h₁.now
    have hx := claim_of_trail henv hbatch (w := w₁) (by rw [hs₁, hgroup]) hg (by omega) hruns htrail
    unfold left at hx ⊢
    rwa [hs₁] at hx
  cases hcalls with
  | stop => cases (asked_of_trail htold htrail).1
  | woken =>
    obtain ⟨-, w₁, h₁, hs₁, hrest⟩ := asked_of_trail htold htrail
    obtain ⟨w₂, hsleep, hrest⟩ := Trail.cons_iff.1 hrest
    cases (asked_of_trail (by rwa [(h₁.trans hsleep.onward).stops]) hrest).1
  | failed h =>
    obtain ⟨w₁, h₁, hs₁, hrest⟩ := reclaiming_of_trail htold htrail
    obtain ⟨messages, deleted, heq, -⟩ := hclaim h₁ hs₁ h hrest
    cases heq
  | givenUp h hack =>
    obtain ⟨w₁, h₁, hs₁, hrest⟩ := reclaiming_of_trail htold htrail
    obtain ⟨w₂, -, hrest⟩ := Trail.append_iff.1 hrest
    obtain ⟨e', rfl⟩ := failed_of_ack hack
    obtain ⟨w₃, heffect, -⟩ := Trail.cons_iff.1 hrest
    obtain ⟨n, heq⟩ := acked_of_effect henv heffect
    cases heq
  | @claimed τ₁ σ τ₂ messages kept deleted n h hack hkept =>
    obtain ⟨w₁, h₁, hs₁, hrest⟩ := reclaiming_of_trail htold htrail
    obtain ⟨w₂, h₂, hrest⟩ := Trail.append_iff.1 hrest
    obtain ⟨w₃, h₃, h₄⟩ := Trail.append_iff.1 hrest
    refine ⟨by split <;> simp, ?_⟩
    obtain ⟨messages', deleted', heq, hlight⟩ := hclaim h₁ hs₁ h h₂
    obtain ⟨rfl, rfl⟩ := Prod.mk.inj (Except.ok.inj heq)
    rcases hlight with hlight | ⟨hread, hopen, m, hm, hid, hover⟩
    · exact (left_mono ((onward_of_trail h₃).trans (onward_of_trail h₄)) p.id).trans_lt hlight
    · -- the message was delivered too often, and leaves the pending list for the dead-letter stream
      obtain ⟨-, hparked, -⟩ := runs_retryable hkept
      obtain ⟨r, hr⟩ := hparked m hm hover
      obtain ⟨τ₃, τ₄, v, v', h₅, heffect, h₆⟩ := Trail.exists_of_mem h₄ hr
      have honward : Onward w v :=
        ((h₁.trans (onward_of_trail h₂)).trans (onward_of_trail h₃)).trans (onward_of_trail h₅)
      obtain ⟨g', hg', hlast, -⟩ := honward.stream.group g hgroup
      have hdone : left S v' p.id = 0 := by
        unfold left
        rw [parked_of_effect henv heffect]
        exact Stream.weight_ack hg' (hread.trans hlast) (List.mem_singleton.2 hid.symm)
      have hle := left_mono (S := S) (onward_of_trail h₆) p.id
      omega

/-! ## Until nothing is left -/

/-- As long as an entry of the stream is open, a worker at the beginning of its rounds can leave less to do. -/
theorem exists_lighter (henv : Healthy env) (hbatch : 1 ≤ S.settings.batchSize)
    (hconcurrency : 1 ≤ S.settings.concurrency) (hready : Ready S worker s) {g : Group}
    (hgroup : s.world.stream.group = some g) {e : Entry P} (he : e ∈ s.world.stream.entries)
    (hopen : s.world.stream.Open e.id) : ∃ t, Reaches S env worker s t ∧ Ready S worker t ∧
      ∃ e' ∈ s.world.stream.added, left S t.world e'.id < left S s.world e'.id := by
  rcases hopen with hunread | ⟨g', hg', p, hp, -⟩
  · -- an unread entry: the consume loop reads
    have hne : s.world.stream.unread g ≠ [] :=
      List.ne_nil_of_mem (List.mem_filter.2 ⟨he, decide_eq_true (hunread g hgroup)⟩)
    obtain ⟨τ, next, w, t, hruns, htrail, hback⟩ := reaches_round henv hconcurrency hready .consume
    obtain ⟨hnext, e', he', hlight⟩ := lighter_of_consume henv hbatch hready.told hgroup hne hruns htrail
    obtain ⟨hreach, honward, hready'⟩ := hback hnext
    exact ⟨t, hreach, hready', e', List.mem_append_right _ he', (left_mono honward _).trans_lt hlight⟩
  · -- a pending entry: the reclaim loop claims, once the oldest of them is stale
    obtain rfl := Option.some.inj (hgroup.symm.trans hg')
    obtain ⟨q, qs, hq⟩ := List.exists_cons_of_ne_nil (List.ne_nil_of_mem hp)
    obtain ⟨e', he', hid⟩ := s.world.stream.known g hgroup q (hq ▸ List.mem_cons_self ..)
    obtain ⟨s₁, hlater, hready₁, hstream, hnow⟩ :=
      exists_later hready (q.deliveredAt + S.settings.reclaimIdleMs)
    obtain ⟨τ, next, w, t, hruns, htrail, hback⟩ := reaches_round henv hconcurrency hready₁ .reclaim
    obtain ⟨hnext, hlight⟩ := lighter_of_reclaim henv hbatch hready₁.told (hstream ▸ hgroup) hq hnow hruns htrail
    obtain ⟨hreach, honward, hready'⟩ := hback hnext
    refine ⟨t, hlater.trans hreach, hready', e', he', ?_⟩
    unfold left at hlight ⊢
    rw [hstream] at hlight
    rw [hid]
    exact (left_mono honward _).trans_lt hlight

/-- So it can go on until every entry of the stream is settled. -/
theorem reaches_settled (henv : Healthy env) (hbatch : 1 ≤ S.settings.batchSize)
    (hconcurrency : 1 ≤ S.settings.concurrency) (hready : Ready S worker s) (hgroup : s.world.stream.group.isSome) :
    ∃ t, Reaches S env worker s t ∧ ∀ e ∈ s.world.stream.entries, ¬t.world.stream.Open e.id := by
  induction hn : s.world.stream.burden S.settings.maxDeliveries s.world.stream.added using Nat.strong_induction_on
    generalizing s with
  | h n ih =>
    by_cases hopen : ∃ e ∈ s.world.stream.entries, s.world.stream.Open e.id
    swap
    · exact ⟨s, .refl s, fun e he ho => hopen ⟨e, he, ho⟩⟩
    obtain ⟨e, he, ho⟩ := hopen
    obtain ⟨g, hg⟩ := Option.isSome_iff_exists.1 hgroup
    obtain ⟨t, hreach, hready', e', he', hlight⟩ := exists_lighter henv hbatch hconcurrency hready hg he ho
    obtain ⟨g', hg', -⟩ := hreach.onward.stream.group g hg
    have hless := Stream.burden_lt hreach.onward.stream he' hlight
    rw [← hreach.kept.added] at hless hn
    rw [hn] at hless
    obtain ⟨u, hrest, hsettled⟩ := ih _ (by rwa [hreach.kept.added] at hless ⊢) hready' (by rw [hg']; rfl) rfl
    refine ⟨u, hreach.trans hrest, fun f hf => hsettled f ?_⟩
    rwa [hreach.kept.entries]

/-- Whatever has happened, some worker is not running, and any such worker can start and settle every entry
that is in the stream by itself, if Redis answers it: no client and no other worker does anything, nothing is
added or trimmed, and what the database and the rate source answer does not matter, as long as an insert that
waits for the session of a dead worker fails some time, or that session is ended. -/
theorem service_recovers (henv : Healthy env) (hbatch : 1 ≤ S.settings.batchSize)
    (hconcurrency : 1 ≤ S.settings.concurrency) (h : System.Reachable S s) :
    (∃ worker, s.workers worker = .down) ∧ ∀ worker, s.workers worker = .down →
      ∃ t, AloneRun S env worker s t ∧ t.world.stream.entries = s.world.stream.entries ∧
        ∀ e ∈ s.world.stream.entries, ¬t.world.stream.Open e.id ∧ Landed S t.world e := by
  constructor
  · obtain ⟨n, hn⟩ := System.exists_down h
    exact ⟨n, hn n le_rfl⟩
  intro worker hdown
  obtain ⟨u, hboot, hkept, hready, hgroup⟩ := reaches_ready henv hdown
  obtain ⟨t, hreach, hsettled⟩ := reaches_settled henv hbatch hconcurrency hready hgroup
  have hentries := (hkept.trans hreach.kept).entries
  have hrun := hboot.trans hreach.run
  refine ⟨t, hrun, hentries, fun e he => ?_⟩
  have hclosed : ¬t.world.stream.Open e.id := hsettled e (by rwa [hkept.entries])
  refine ⟨hclosed, ?_⟩
  rw [← hentries] at he
  have ht : System.Reachable S t := System.Run.trans S h (AloneRun.run hrun)
  rcases (ok_of_reachable ht).inv.accounted e (List.mem_append_right _ he) with hopen | hlanded | hdropped
  · exact absurd hopen hclosed
  · exact hlanded
  · -- what was trimmed away is not in the stream
    exact absurd ((List.pairwise_append.1 t.world.stream.sorted).2.2 e hdropped e he) (lt_irrefl _)

/-- Redis answers; the database and everything else off the streams is down. -/
def outage : Environment EventIn where
  choice _ o := if o.offStream then { fault := .before ⟨.operationalError, "connection refused"⟩ } else {}
  ends _ _ := False

theorem outage_healthy : Healthy outage where
  redis := by
    intro w o ho
    unfold outage
    dsimp only
    rw [ho]
    rfl
  database := by
    intro w o
    unfold outage
    dsimp only
    split <;> rfl
  source := by
    intro w currency neg c e h
    cases h
  released := by
    intro w session stmt _
    exact Or.inl (by simp [outage, Op.offStream])
  random := by
    intro w hi
    exact ⟨min_le_left _ _, le_max_left _ _⟩

/-- The worker that crashed behind its commit is down, and can settle the three entries by itself during the
outage. -/
theorem crashTrace_recovers : ∃ s, System.Reachable (documentService {}) s ∧ s.world.stream.entries.length = 3 ∧
    ∃ t, AloneRun (documentService {}) outage 0 s t ∧ t.world.stream.entries = s.world.stream.entries ∧
      ∀ e ∈ s.world.stream.entries, ¬t.world.stream.Open e.id ∧ Landed (documentService {}) t.world e := by
  obtain ⟨s, hs, hp⟩ := System.exists_reachable (documentService {}) crashTrace
    (fun s => s.world.stream.entries.length = 3 && match s.workers 0 with
      | .down => true
      | .booting _ | .up _ => false) (by decide +kernel)
  obtain ⟨hentries, hdown⟩ := Bool.and_eq_true_iff.1 hp
  refine ⟨s, hs, of_decide_eq_true hentries,
    (service_recovers outage_healthy (by decide) (by decide) hs).2 0 ?_⟩
  cases hworker : s.workers 0 with
  | down => rfl
  | booting | up =>
    rw [hworker] at hdown
    cases hdown

end App
