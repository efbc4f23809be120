/-
What a worker takes out of the group's hands. Each entry it acknowledges or dead-letters was handed to the
same loop of the same worker before, or reported to it as trimmed away; and an entry whose settling was
confirmed is handed over to nobody again.
-/
import EventService.Run.Deliveries
import EventService.Run.Provenance
import EventService.Run.Requests
import EventService.Run.Attribution

namespace App

open Prog Store

variable {P : Type} {S : Service P}

/-- The entries a call is to take out of the group's hands. -/
def Op.settles : Op P → List Nat
  | .xack ids => ids
  | .deadLetter entry => [entry.originalId]
  | .xadd _ | .xgroupCreate | .xreadgroup _ _ | .xautoclaim _ _ _ | .xpending _ _ _ | .xlen | .xlenDlq
  | .xinfoGroups | .get _ | .set _ _ | .fetch _ | .openSession | .execute _ _ | .commit _ | .close _ | .now
  | .uniform _ | .sleep _ | .stopIsSet _ | .record _ _ => []

/-- The entries it did take out of them, as the caller was told. -/
def settled (call : Call (@Op.Reply P)) : List Nat :=
  match call with
  | ⟨.xack ids, .ok _⟩ => ids
  | ⟨.deadLetter entry, .ok _⟩ => [entry.originalId]
  | ⟨_, _⟩ => []

/-- The entries a call answered with: handed over, or reported as trimmed away. -/
def told (call : Call (@Op.Reply P)) : List Nat :=
  match call with
  | ⟨.xreadgroup _ _, .ok entries⟩ => entries.map Entry.id
  | ⟨.xautoclaim _ _ _, .ok r⟩ => r.1.map (fun c => c.1.id) ++ r.2
  | ⟨_, _⟩ => []

theorem told_of_delivered {o : Op P} {r : o.Reply} {d : Nat × Nat} (h : d ∈ delivered ⟨o, r⟩) : d.1 ∈ told ⟨o, r⟩ := by
  unfold delivered at h
  split at h
  · rename_i heq
    obtain ⟨rfl, hr⟩ := Call.mk.inj heq
    obtain rfl := eq_of_heq hr
    obtain ⟨e, he, rfl⟩ := List.mem_map.1 h
    exact List.mem_map_of_mem he
  · rename_i heq
    obtain ⟨rfl, hr⟩ := Call.mk.inj heq
    obtain rfl := eq_of_heq hr
    obtain ⟨x, hx, rfl⟩ := List.mem_map.1 h
    exact List.mem_append_left _ (List.mem_map.2 ⟨x, hx, rfl⟩)
  · cases h

theorem settles_of_offStream {o : Op P} (h : o.offStream = true) : o.settles = [] := by
  cases o with
  | xack | deadLetter => cases h
  | _ => rfl

/-! ## The code of a loop -/

/-- The calls of a claim, and those behind it: the claim is told of what it answers with. -/
theorem told_of_claimStale {consumer minIdleMs count : Nat} {τ : List (Call Op.Reply)}
    {messages : List (QueuedMessage P)} {deleted : List Nat}
    (h : Runs (claimStale consumer minIdleMs count) τ (.ok (messages, deleted))) :
    ∃ r τ', τ = ⟨.xautoclaim consumer minIdleMs count, .ok r⟩ :: τ' ∧ (∀ c ∈ τ', c.op.settles = []) ∧
      deleted = r.2 ∧ ∀ m ∈ messages, m.messageId ∈ r.1.map fun c => c.1.id := by
  cases claimCalls_of_runs h with
  | nothing => exact ⟨_, [], rfl, by simp, rfl, by simp⟩
  | counted hne pending =>
    refine ⟨_, _, rfl, ?_, rfl, fun m hm => ?_⟩
    · intro c hc
      rw [List.mem_singleton.1 hc]
      rfl
    · obtain ⟨c, hc, rfl⟩ := List.mem_map.1 hm
      exact List.mem_map.2 ⟨c, hc, rfl⟩

variable {worker : Nat}

/-- The calls of a round that begins to claim: what they settle, the claim before them answered with. -/
theorem told_of_reclaiming {τ τ' rest : List (Call Op.Reply)} {c : Call (@Op.Reply P)}
    {messages : List (QueuedMessage P)} {deleted : List Nat} {id : Nat} {claim : List (Call Op.Reply)}
    (hclaim : Runs (claimStale worker S.settings.reclaimIdleMs S.settings.batchSize) claim (.ok (messages, deleted)))
    (hrest : ∀ c ∈ rest, ∀ id ∈ c.op.settles, id ∈ deleted ∨ ∃ m ∈ messages, m.messageId = id)
    (hcalls : τ ++ c :: τ' = reclaiming S worker (claim ++ rest)) (hid : id ∈ c.op.settles) :
    ∃ c' ∈ τ, id ∈ told c' := by
  obtain ⟨r, claim', rfl, hothers, rfl, hmessages⟩ := told_of_claimStale hclaim
  refine ⟨⟨.xautoclaim worker S.settings.reclaimIdleMs S.settings.batchSize, .ok r⟩, ?_, ?_⟩
  · have hpre : reclaiming S worker
        [⟨.xautoclaim worker S.settings.reclaimIdleMs S.settings.batchSize, .ok r⟩] <+: τ := by
      refine prefix_of_append_cons_eq hcalls fun hmem => ?_
      simp only [reclaiming, List.mem_cons, List.not_mem_nil, or_false] at hmem
      rcases hmem with rfl | rfl | rfl | rfl <;> cases hid
    exact hpre.subset (by simp [reclaiming])
  · have hmem : c ∈ reclaiming S worker (⟨.xautoclaim worker S.settings.reclaimIdleMs S.settings.batchSize, .ok r⟩ ::
        claim' ++ rest) := hcalls ▸ List.mem_append_right _ (List.mem_cons_self ..)
    have hbehind : c ∈ rest := by
      unfold reclaiming at hmem
      simp only [List.mem_cons, List.cons_append, List.mem_append] at hmem
      rcases hmem with rfl | rfl | rfl | rfl | hmem | hmem
      · cases hid
      · cases hid
      · cases hid
      · cases hid
      · rw [hothers c hmem] at hid
        cases hid
      · exact hmem
    rcases hrest c hbehind id hid with hdel | ⟨m, hm, rfl⟩
    · exact List.mem_append_right _ hdel
    · exact List.mem_append_left _ (hmessages m hm)

theorem settles_of_consume {τ : List (Call (@Op.Reply P))} {next : Next P} (h : ConsumeCalls S worker τ next) :
    ∀ c ∈ τ, c.op.settles = [] := by
  cases h <;> simp [Op.settles]

theorem settles_of_metrics {τ : List (Call (@Op.Reply P))} {next : Next P} (h : MetricsCalls S worker τ next) :
    ∀ c ∈ τ, c.op.settles = [] := by
  cases h with
  | stop => simp [Op.settles]
  | @shown calls _ hstats =>
    have hnone : ∀ c ∈ calls, c.op.settles = [] := by
      refine hstats.only (A := fun o => o.settles = []) ?_
      unfold stats
      refine Only.bind (only_ask_lift rfl) fun _ => Only.bind (only_ask_lift rfl) fun _ => ?_
      refine Only.bind (only_ask_lift rfl) fun groups => ?_
      cases groups <;> trivial
    intro c hc
    rcases List.mem_cons.1 hc with rfl | hc
    · rfl
    rcases List.mem_append.1 hc with hc | hc
    · exact hnone c hc
    · rw [List.mem_singleton.1 hc]
      rfl

/-- A loop settles what it was told of in the same round. -/
theorem told_of_round {loop : Loop} {τ : List (Call Op.Reply)} {o : Op P} {k : o.Reply → Code P (Next P)} {id : Nat}
    (h : After (round S worker loop) τ (.op o k)) (hid : id ∈ o.settles) : ∃ c ∈ τ, id ∈ told c := by
  obtain ⟨r, τ', x, hruns⟩ := h.exists_runs nonempty_reply
  have hmem : (⟨o, r⟩ : Call Op.Reply) ∈ τ ++ ⟨o, r⟩ :: τ' := List.mem_append_right _ (List.mem_cons_self ..)
  have hnone : ¬∀ c ∈ τ ++ ⟨o, r⟩ :: τ', c.op.settles = [] := by
    intro hall
    rw [hall _ hmem] at hid
    cases hid
  cases loop with
  | consume =>
    obtain ⟨next, -, hcalls⟩ := consumeCalls_of_runs hruns
    exact absurd (settles_of_consume hcalls) hnone
  | metrics =>
    obtain ⟨next, -, hcalls⟩ := metricsCalls_of_runs hruns
    exact absurd (settles_of_metrics hcalls) hnone
  | reclaim =>
    obtain ⟨next, -, hcalls⟩ := reclaimCalls_of_runs hruns
    generalize hcallsEq : τ ++ ⟨o, r⟩ :: τ' = calls at hcalls hnone
    cases hcalls with
    | stop | woken => exact absurd (by simp [Op.settles]) hnone
    | @failed claim e hclaim =>
      refine absurd (fun c hc => ?_) hnone
      unfold reclaiming at hc
      cases claimCalls_of_runs hclaim with
      | refused | uncounted =>
        simp only [List.mem_cons, List.not_mem_nil, or_false] at hc
        rcases hc with rfl | rfl | rfl | rfl | rfl <;> rfl
    | givenUp hclaim hack =>
      refine told_of_reclaiming hclaim (fun c hc id hid => ?_) hcallsEq hid
      rw [op_of_ack hack c hc] at hid
      exact Or.inl hid
    | claimed hclaim hack hkept =>
      refine told_of_reclaiming hclaim (fun c hc id hid => ?_) hcallsEq hid
      rcases List.mem_append.1 hc with hc | hc
      · rw [op_of_ack hack c hc] at hid
        exact Or.inl hid
      · obtain ⟨m, hm, -, hop⟩ := (runs_retryable hkept).2.2 c hc
        rw [hop] at hid
        exact Or.inr ⟨m, hm, (List.mem_singleton.1 hid).symm⟩

/-- The messages of a batch are what the round before was given, each with the number of this delivery. -/
theorem delivered_of_handed {loop : Loop} {τ : List (Call Op.Reply)} {messages : List (QueuedMessage P)}
    {m : QueuedMessage P} (h : Runs (round S worker loop) τ (.ok (.handle messages))) (hm : m ∈ messages) :
    ∃ c ∈ τ, (m.messageId, m.number) ∈ delivered c := by
  cases loop with
  | consume =>
    obtain ⟨next, heq, hcalls⟩ := consumeCalls_of_runs h
    obtain rfl := Except.ok.inj heq
    cases hcalls with
    | read hne =>
      obtain ⟨e, he, rfl⟩ := List.mem_map.1 hm
      exact ⟨_, List.mem_cons_of_mem _ (List.mem_singleton_self _), List.mem_map.2 ⟨e, he, rfl⟩⟩
  | metrics =>
    obtain ⟨next, heq, hcalls⟩ := metricsCalls_of_runs h
    obtain rfl := Except.ok.inj heq
    cases hcalls
  | reclaim =>
    obtain ⟨next, heq, hcalls⟩ := reclaimCalls_of_runs h
    obtain rfl := Except.ok.inj heq
    generalize hnext : Next.handle messages = next at hcalls
    cases hcalls with
    | stop | woken | failed | givenUp => cases hnext
    | claimed hclaim hack hkept =>
      split at hnext
      · cases hnext
      · obtain rfl := Next.handle.inj hnext
        obtain ⟨claimed, counts, claim', rfl, rfl⟩ := runs_claimStale_ok hclaim
        rw [Except.ok.inj (runs_retryable hkept).1] at hm
        obtain ⟨x, hx, rfl⟩ := List.mem_map.1 (List.mem_filter.1 hm).1
        exact ⟨_, List.mem_append_right [_, _, _] (List.mem_cons_self ..), List.mem_map.2 ⟨x, hx, rfl⟩⟩

/-- So the round was told of them. -/
theorem told_of_handed {loop : Loop} {τ : List (Call Op.Reply)} {messages : List (QueuedMessage P)}
    {m : QueuedMessage P} (h : Runs (round S worker loop) τ (.ok (.handle messages))) (hm : m ∈ messages) :
    ∃ c ∈ τ, m.messageId ∈ told c := by
  obtain ⟨c, hc, hmem⟩ := delivered_of_handed h hm
  exact ⟨c, hc, told_of_delivered hmem⟩

/-- A handler settles its own message. -/
theorem settles_of_handleOne {m : QueuedMessage P} {τ : List (Call Op.Reply)} {o : Op P}
    {k : o.Reply → Code P (Option Nat)} {id : Nat} (h : After (handleOne S m) τ (.op o k)) (hid : id ∈ o.settles) :
    id = m.messageId := by
  obtain ⟨r, τ', x, hruns⟩ := h.exists_runs nonempty_reply
  have hmem : (⟨o, r⟩ : Call Op.Reply) ∈ τ ++ ⟨o, r⟩ :: τ' := List.mem_append_right _ (List.mem_cons_self ..)
  have hoff : o.offStream ≠ true := by
    intro hoff
    rw [settles_of_offStream hoff] at hid
    cases hid
  rcases handled_cases hruns with ⟨-, -, -, hall⟩ | ⟨e, τ₁, r', -, -, -, heq, hall⟩ | ⟨-, -, -, hall⟩
  · exact absurd (hall _ hmem) hoff
  · rw [heq] at hmem
    rcases List.mem_append.1 hmem with hmem | hmem
    · exact absurd (hall _ hmem) hoff
    · obtain ⟨rfl, -⟩ := Call.mk.inj (List.mem_singleton.1 hmem)
      exact List.mem_singleton.1 hid
  · exact absurd (hall _ hmem) hoff

/-- The end of a batch settles messages of the batch. -/
theorem settles_of_ackDone {messages : List (QueuedMessage P)} {results : List (Option Nat)}
    {made σ : List (Call Op.Reply)} {o : Op P} {k : o.Reply → Code P Unit} {id : Nat}
    (hresults : List.Forall₂ (fun m r => ∃ ρ, ρ ⊆ made ∧ Runs (handleOne S m) ρ (.ok r)) messages results)
    (h : After (ackDone results) σ (.op o k)) (hid : id ∈ o.settles) : ∃ m ∈ messages, id = m.messageId := by
  obtain ⟨r, τ', x, hruns⟩ := h.exists_runs nonempty_reply
  have hmem : (⟨o, r⟩ : Call Op.Reply) ∈ σ ++ ⟨o, r⟩ :: τ' := List.mem_append_right _ (List.mem_cons_self ..)
  obtain ⟨-, ⟨-, heq⟩ | ⟨-, r', heq⟩⟩ := runs_ackDone hruns
  · rw [heq] at hmem
    cases hmem
  · rw [heq] at hmem
    obtain ⟨rfl, -⟩ := Call.mk.inj (List.mem_singleton.1 hmem)
    obtain ⟨result, hresult, hsome⟩ := List.mem_filterMap.1 hid
    obtain ⟨i, hi, rfl⟩ := List.mem_iff_getElem.1 hresult
    have hi' : i < messages.length := hresults.length_eq ▸ hi
    obtain ⟨ρ, -, hhandled⟩ := List.Forall₂.get hresults hi' hi
    refine ⟨messages[i], List.getElem_mem hi', ?_⟩
    simp only [List.get_eq_getElem] at hhandled
    rw [show results[i] = some id from hsome] at hhandled
    rcases handled_cases hhandled with ⟨-, -, hx, -⟩ | ⟨-, -, -, -, -, hx, -⟩ | ⟨-, -, hx, -⟩
    · exact Option.some.inj (Except.ok.inj hx)
    · cases hx
    · cases hx

/-! ## The service -/

variable {s t : System P} {log : List (Event P)}

/-- A request settles nothing. -/
theorem settles_of_serve {r : Request} {τ : List (Call Op.Reply)} {o : Op P} {k : o.Reply → Code P Response}
    (h : After (serve S r) τ (.op o k)) : o.settles = [] := by
  rcases op_of_serve h with rfl | ⟨event, -, rfl⟩
  · rfl
  · rfl

/-- Nor does a worker that starts. -/
theorem settles_of_ensureGroup {τ : List (Call Op.Reply)} {o : Op P} {k : o.Reply → Code P Unit}
    (h : After ensureGroup τ (.op o k)) : o.settles = [] := by
  have honly : (ensureGroup : Code P Unit).Only fun o => o.settles = [] := by
    refine Only.bind (only_perform rfl) fun x => ?_
    rcases x with e | u
    · dsimp only
      split
      · split <;> trivial
      · trivial
    · trivial
  exact (h.only honly).2.1

/-- A worker settles only what the same loop of it was told of before. -/
theorem told_of_settles (h : System.Chronicle S s log) : ∀ l₁ ev, l₁ ++ [ev] <+: log → ∀ id ∈ ev.call.op.settles,
    ∃ worker loop, ev.caller.worksFor worker loop = true ∧ ∃ c ∈ callsFor worker loop l₁, id ∈ told c := by
  refine h.throughout fun s t log p o reply hlog _ _ hgoes id hid => ?_
  have hfrom := provenance_of_chronicle hlog
  cases hgoes with
  | client hcode hrequests hworkers =>
    rw [settles_of_serve (hfrom.requests _ _ _ hcode)] at hid
    cases hid
  | booting hcode hworkers hrequests =>
    obtain ⟨τ, hafter⟩ := hfrom.booting _ _ hcode
    rw [settles_of_ensureGroup hafter] at hid
    cases hid
  | @running worker lanes loop _ k _ hup hcode hworkers hrequests =>
    refine ⟨worker, loop, by simp [Process.worksFor], ?_⟩
    have hlane := hfrom.lanes worker lanes loop hup
    rw [hcode] at hlane
    cases hlane with
    | running hafter hτ =>
      obtain ⟨c, hc, htold⟩ := told_of_round hafter hid
      exact ⟨c, hτ hc, htold⟩
  | @acking worker lanes loop _ k _ hup hcode hworkers hrequests =>
    refine ⟨worker, loop, by simp [Process.worksFor], ?_⟩
    have hlane := hfrom.lanes worker lanes loop hup
    rw [hcode] at hlane
    cases hlane with
    | acking hround hτ hresults hafter hσ =>
      obtain ⟨m, hm, rfl⟩ := settles_of_ackDone hresults hafter hid
      obtain ⟨c, hc, htold⟩ := told_of_handed hround hm
      exact ⟨c, hτ hc, htold⟩
  | @handler worker lanes loop hs i x _ k _ hup hlane hx hcode hworkers hrequests =>
    refine ⟨worker, loop, by simp [Process.worksFor], ?_⟩
    have hfrom := hfrom.lanes worker lanes loop hup
    rw [hlane] at hfrom
    cases hfrom with
    | handling hround hτ hafter =>
      have hmem : x ∈ hs := List.mem_of_getElem? hx
      obtain ⟨σ, -, hafter⟩ := hafter x hmem
      rw [hcode] at hafter
      obtain rfl := settles_of_handleOne hafter hid
      obtain ⟨c, hc, htold⟩ := told_of_handed hround (List.mem_map_of_mem hmem)
      exact ⟨c, hτ hc, htold⟩

/-! ## Afterwards -/

/-- The group was given the entry. -/
def Given (w : World P) (id : Nat) : Prop := ∃ g ∈ w.stream.group, id ≤ g.lastDelivered

theorem Given.mono {w w' : World P} (h : Le w w') {id : Nat} (hid : Given w id) : Given w' id := by
  obtain ⟨g, hg, hread⟩ := hid
  obtain ⟨g', hg', hlast, -⟩ := h.stream.group g hg
  exact ⟨g', hg', hread.trans hlast⟩

theorem given_of_told {o : Op P} {c : Choice} {r : o.Reply} {w w' : World P} (h : World.exec S o c w = some (r, w'))
    {id : Nat} (hid : id ∈ told ⟨o, r⟩) : Given w' id := by
  unfold told at hid
  split at hid
  · rename_i heq
    obtain ⟨rfl, hr⟩ := Call.mk.inj heq
    obtain rfl := eq_of_heq hr
    obtain ⟨g, hg, rfl, hg'⟩ := exec_xreadgroup_ok h
    obtain ⟨e, he, rfl⟩ := List.mem_map.1 hid
    exact ⟨_, hg', (w.stream.deliver g _ w.now _).delivered ⟨e.id, _, w.now, 1⟩
      (List.mem_append_right _ (List.mem_map.2 ⟨e, he, rfl⟩))⟩
  · rename_i consumer minIdle count r heq
    obtain ⟨rfl, hr⟩ := Call.mk.inj heq
    obtain rfl := eq_of_heq hr
    obtain ⟨g, hg, rfl, hg'⟩ := exec_xautoclaim_ok h
    have hspec := w.stream.claim_spec g consumer w.now minIdle count
    refine ⟨_, hg', ?_⟩
    rcases List.mem_append.1 hid with hid | hid
    · obtain ⟨x, hx, rfl⟩ := List.mem_map.1 hid
      obtain ⟨p, hp, hfind, -⟩ := hspec.taken x hx
      rw [(Stream.mem_entries_of_find hfind).2]
      exact g.delivered p hp
    · obtain ⟨-, p, hp, rfl⟩ := hspec.gone id hid
      exact g.delivered p hp
  · cases hid

/-- What a caller was told is settled is not pending. -/
theorem not_isPending_of_settled {o : Op P} {c : Choice} {r : o.Reply} {w w' : World P}
    (h : World.exec S o c w = some (r, w')) {id : Nat} (hid : id ∈ settled ⟨o, r⟩) : ¬w'.stream.IsPending id := by
  unfold settled at hid
  split at hid
  · rename_i heq
    obtain ⟨rfl, hr⟩ := Call.mk.inj heq
    obtain rfl := eq_of_heq hr
    have happlied := applied_of_command (Option.some.inj h)
    rw [← (Prod.mk.inj happlied).2]
    exact Stream.not_isPending_ack hid
  · rename_i entry u heq
    obtain ⟨rfl, hr⟩ := Call.mk.inj heq
    obtain rfl := eq_of_heq hr
    have hworld : (w.deadLetterExec S c.trim entry).2 = w' :=
      congrArg Prod.snd (applied_of_command (Option.some.inj h))
    rw [← hworld]
    unfold World.deadLetterExec
    split
    · exact Stream.not_isPending_ack hid
    · exact Stream.not_isPending_ack hid
  · cases hid

/-- Each entry a worker settles, it was told of before, by a call of the same loop; and once a settling is
confirmed the group is done with the entry, and hands it over to nobody again, whatever happens. -/
theorem settled_for_good (h : System.Chronicle S s log) {l₁ l₂ : List (Event P)} {ev : Event P}
    (hlog : log = l₁ ++ ev :: l₂) {id : Nat} (hid : id ∈ ev.call.op.settles) :
    (∃ worker loop, ev.caller.worksFor worker loop = true ∧ ∃ c ∈ callsFor worker loop l₁, id ∈ told c) ∧
      (id ∈ settled ev.call →
        ¬ev.after.stream.Open id ∧ ∀ ev' ∈ l₂, ∀ d ∈ delivered ev'.call, d.1 ≠ id) := by
  have hpre : l₁ ++ [ev] <+: log := ⟨l₂, by rw [hlog, List.append_assoc]; rfl⟩
  have htold := told_of_settles h l₁ ev hpre id hid
  refine ⟨htold, fun hsettled => ?_⟩
  obtain ⟨⟨c, hexec⟩, hle, hbefore⟩ := h.ordered l₁ ev hpre
  have hclosed : ¬ev.after.stream.Open id := by
    obtain ⟨worker, loop, -, call, hcall, hmem⟩ := htold
    obtain ⟨ev₀, hev₀, -, rfl⟩ := mem_callsFor.1 hcall
    obtain ⟨l, l', rfl⟩ := List.append_of_mem hev₀
    have hpre₀ : l ++ [ev₀] <+: log := ⟨l' ++ ev :: l₂, by rw [hlog]; simp⟩
    obtain ⟨⟨c₀, hexec₀⟩, -, -⟩ := h.ordered l ev₀ hpre₀
    -- it was given to somebody then, so it is not unread now, and it is pending no more
    obtain ⟨g, hg, hread⟩ := (given_of_told hexec₀ hmem).mono ((hbefore ev₀ hev₀).trans hle)
    rintro (hunread | hpending)
    · exact absurd (hunread g hg) (not_lt.2 hread)
    · exact not_isPending_of_settled hexec hsettled hpending
  refine ⟨hclosed, fun ev' hev' d hd heq => hclosed ?_⟩
  have hopen := (inTurn_of_chronicle h).opened
  rw [hlog] at hopen
  have hlater := (List.pairwise_append.1 hopen).2.1
  rw [← heq]
  exact (List.pairwise_cons.1 hlater).1 ev' hev' d hd

/-- Each delivery of an entry has a larger number than those before it, entries are handed over for the
first time in the order in which they were accepted, and none is handed over that the group is done with. -/
theorem handed_over_in_turn (h : System.Chronicle S s log) :
    ((deliveries log).Pairwise fun d d' => d.1 = d'.1 → d.2 < d'.2) ∧
      (((deliveries log).filter fun d => d.2 = 1).Pairwise fun d d' => d.1 < d'.1) ∧
      log.Pairwise fun ev ev' => ∀ d ∈ delivered ev'.call, ev.after.stream.Open d.1 :=
  ⟨(inTurn_of_chronicle h).numbered, (inTurn_of_chronicle h).first, (inTurn_of_chronicle h).opened⟩

/-- A worker crashes in the middle of a batch; another claims the entry, and acknowledges it. -/
def reclaimedRun : List Action := List.flatten [
  Trace.publish 0 (Trace.document "a" (.finite false 5 0) "USD"),
  Trace.publish 1 (Trace.document "b" (.finite false 7 0) "USD"), Trace.boot 0, Trace.boot 1,
  Trace.calls 0 .consume 2, [.move 0 .consume, .crash 0, .tick 30000],
  Trace.calls 1 .consume 2, Trace.calls 1 .reclaim 5, [.move 1 .reclaim], Trace.handles 1 .reclaim 0 6,
  [.move 1 .reclaim], Trace.calls 1 .reclaim 1]

theorem exists_reclaimedRun : ∃ s log, System.Chronicle (documentService { batchSize := 1 }) s log ∧
    (∃ ev ∈ log, 1 ∈ ev.call.op.settles ∧ 1 ∈ settled ev.call) ∧ deliveries log = [(1, 1), (2, 1), (1, 2)] := by
  obtain ⟨s, log, h, hp⟩ := System.exists_chronicle_of (documentService { batchSize := 1 }) reclaimedRun
    (fun _ log => log.any (fun ev => decide (1 ∈ ev.call.op.settles ∧ 1 ∈ settled ev.call)) &&
      decide (deliveries log = [(1, 1), (2, 1), (1, 2)])) (by decide +kernel)
  rw [Bool.and_eq_true, List.any_eq_true, decide_eq_true_eq] at hp
  obtain ⟨⟨ev, hev, hids⟩, hdeliveries⟩ := hp
  exact ⟨s, log, h, ⟨ev, hev, of_decide_eq_true hids⟩, hdeliveries⟩

theorem reclaimedRun_settles_for_good : ∃ s log l₁ ev l₂,
    System.Chronicle (documentService { batchSize := 1 }) s log ∧ log = l₁ ++ ev :: l₂ ∧ 1 ∈ settled ev.call ∧
      ¬ev.after.stream.Open 1 := by
  obtain ⟨s, log, h, ⟨ev, hev, hid, hsettled⟩, -⟩ := exists_reclaimedRun
  obtain ⟨l₁, l₂, hlog⟩ := List.append_of_mem hev
  exact ⟨s, log, l₁, ev, l₂, h, hlog, hsettled, ((settled_for_good h hlog hid).2 hsettled).1⟩

theorem reclaimedRun_hands_over_in_turn : ∃ s log,
    System.Chronicle (documentService { batchSize := 1 }) s log ∧ deliveries log = [(1, 1), (2, 1), (1, 2)] ∧
      ((deliveries log).Pairwise fun d d' => d.1 = d'.1 → d.2 < d'.2) ∧
      log.Pairwise fun ev ev' => ∀ d ∈ delivered ev'.call, ev.after.stream.Open d.1 := by
  obtain ⟨s, log, h, -, hdeliveries⟩ := exists_reclaimedRun
  have hturn := handed_over_in_turn h
  exact ⟨s, log, h, hdeliveries, hturn.1, hturn.2.2⟩

end App
