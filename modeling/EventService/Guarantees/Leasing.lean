/-
Within `reclaim_idle_ms` of a delivery nobody else is handed the entry: not by another worker, not by the
other loop of the same worker, whatever failed in between. So two handlers have one message only if the first
has had it for that long, and a message that is dead-lettered for its deliveries has had as many of these.
-/
import EventService.Guarantees.Settling
import EventService.Store.Leases

namespace App

open Prog Store

variable {P : Type} {S : Service P} {w w' : World P} {lease : Nat}

/-! ## One call -/

/-- If the call is a claim, it takes over what has been idle for a lease. -/
def Op.ClaimsBehind (lease : Nat) (o : Op P) : Prop :=
  ∀ consumer minIdle count, o = .xautoclaim consumer minIdle count → minIdle = lease

theorem readNew_of_exec {consumer count : Nat} {c : Choice} {entries : List (Entry P)}
    (h : World.exec S (.xreadgroup consumer count) c w = some (.ok entries, w')) :
    w.stream.readNew consumer w.now count = .ok (entries, w'.stream) := by
  have happlied := applied_of_command (Option.some.inj h)
  unfold World.groupCommand at happlied
  split at happlied
  · cases (Prod.mk.inj happlied).1
  · rename_i hread
    obtain ⟨hreply, rfl⟩ := Prod.mk.inj happlied
    obtain rfl := Except.ok.inj hreply
    exact hread

theorem autoclaim_of_exec {consumer minIdle count : Nat} {c : Choice} {r : List (Entry P × Nat) × List Nat}
    (h : World.exec S (.xautoclaim consumer minIdle count) c w = some (.ok r, w')) :
    w.stream.autoclaim consumer w.now minIdle count = .ok (r, w'.stream) := by
  have happlied := applied_of_command (Option.some.inj h)
  split at happlied
  · cases (Prod.mk.inj happlied).1
  · rename_i hclaim
    obtain ⟨hreply, rfl⟩ := Prod.mk.inj happlied
    obtain rfl := Except.ok.inj hreply
    exact hclaim

theorem timed_of_exec {o : Op P} {c : Choice} {r : o.Reply} (ht : w.stream.Timed w.now)
    (h : World.exec S o c w = some (r, w')) : w'.stream.Timed w'.now := by
  rw [now_of_exec h]
  rcases changed_of_exec h with rfl | hchanged
  · exact ht
  · cases hchanged with
    | xgroupCreate hcreate =>
      unfold Stream.createGroup at hcreate
      split at hcreate
      · cases hcreate
      · obtain rfl := Option.some.inj hcreate
        intro g hg p hp
        rw [← Option.some.inj hg] at hp
        cases hp
    | xreadgroup hread => exact Stream.timed_readNew ht hread
    | xautoclaim hclaim => exact Stream.timed_autoclaim ht hclaim
    | xack => exact Stream.timed_ack ht _
    | deadLetter k =>
      unfold World.deadLetterExec
      split
      · exact Stream.timed_ack ht _
      · exact Stream.timed_ack ht _
    | xadd | xpending | set | fetch | openSession | conflict | inserted | commit | close | record => exact ht

/-- A lease goes on, whoever calls what. -/
theorem leased_of_exec {o : Op P} {c : Choice} {r : o.Reply} {id n time : Nat} (ht : w.stream.Timed w.now)
    (ho : o.ClaimsBehind lease) (hl : w.stream.Leased lease id n time) (h : World.exec S o c w = some (r, w')) :
    w'.stream.Leased lease id n time := by
  rcases changed_of_exec h with rfl | hchanged
  · exact hl
  · cases hchanged with
    | xgroupCreate hcreate =>
      -- there is a group, so none is created
      obtain ⟨g, hg, -⟩ := hl
      unfold Stream.createGroup at hcreate
      rw [Option.mem_def.1 hg] at hcreate
      cases hcreate
    | xreadgroup hread => exact Stream.leased_readNew hl hread
    | xautoclaim hclaim =>
      obtain rfl := ho _ _ _ rfl
      exact Stream.leased_autoclaim ht hl hclaim
    | xack => exact Stream.leased_ack hl _
    | deadLetter k =>
      unfold World.deadLetterExec
      split
      · exact Stream.leased_ack hl _
      · exact Stream.leased_ack hl _
    | xadd | xpending | set | fetch | openSession | conflict | inserted | commit | close | record => exact hl

/-- A delivery begins a lease, behind those before it. -/
theorem leased_of_delivered {o : Op P} {c : Choice} {r : o.Reply} (ht : w.stream.Timed w.now)
    (ho : o.ClaimsBehind lease) (h : World.exec S o c w = some (r, w')) {d : Nat × Nat} (hd : d ∈ delivered ⟨o, r⟩) :
    w'.stream.Leased lease d.1 d.2 w.now ∧
      ∀ n time, w.stream.Leased lease d.1 n time → n < d.2 ∧ time + lease * (d.2 - n) ≤ w.now := by
  unfold delivered at hd
  split at hd
  · rename_i heq
    obtain ⟨rfl, hr⟩ := Call.mk.inj heq
    obtain rfl := eq_of_heq hr
    obtain ⟨e, he, rfl⟩ := List.mem_map.1 hd
    obtain ⟨hbegun, hnone⟩ := Stream.leased_of_read (readNew_of_exec h) he
    exact ⟨hbegun, fun n time hl => absurd hl (hnone n time)⟩
  · rename_i heq
    obtain ⟨rfl, hr⟩ := Call.mk.inj heq
    obtain rfl := eq_of_heq hr
    obtain rfl := ho _ _ _ rfl
    obtain ⟨x, hx, rfl⟩ := List.mem_map.1 hd
    exact Stream.leased_of_claim ht (autoclaim_of_exec h) hx
  · cases hd

/-! ## The service -/

variable {s : System P} {log : List (Event P)}

/-- Only workers claim, and as they are set up to. -/
theorem claimsBehind_of_chronicle (h : System.Chronicle S s log) :
    ∀ ev ∈ log, ev.call.op.ClaimsBehind S.settings.reclaimIdleMs := by
  intro ev hev
  rcases byWorker_of_chronicle h ev hev with ⟨i, hcaller⟩ | ⟨worker, -, hop⟩
  · have hclient : ∀ l₁ ev, l₁ ++ [ev] <+: log → ev.caller = .client i →
        ev.call.op.ClaimsBehind S.settings.reclaimIdleMs := by
      refine h.throughout fun s t log p o reply hlog _ _ hgoes hp => ?_
      obtain rfl : p = .client i := hp
      cases hgoes with
      | @client _ r _ k _ hcode =>
        rcases op_of_serve ((provenance_of_chronicle hlog).requests i r _ hcode) with hop | ⟨event, -, hop⟩
        · intro consumer minIdle count heq
          cases hop.symm.trans heq
        · intro consumer minIdle count heq
          cases hop.symm.trans heq
    obtain ⟨l, l', rfl⟩ := List.append_of_mem hev
    exact hclient l ev ⟨l', by simp⟩ hcaller
  · intro consumer minIdle count heq
    rw [heq] at hop
    exact hop.2.1

/-- Between two deliveries of an entry there is a lease for each by which their numbers differ. -/
def Spaced (lease : Nat) (ev ev' : Event P) : Prop :=
  ∀ d ∈ delivered ev.call, ∀ d' ∈ delivered ev'.call, d.1 = d'.1 →
    d.2 < d'.2 ∧ ev.before.now + lease * (d'.2 - d.2) ≤ ev'.before.now

/-- Every delivery has begun a lease, and the next ones have waited for it. -/
structure Leases (lease : Nat) (w : World P) (log : List (Event P)) : Prop where
  timed : w.stream.Timed w.now
  held : ∀ ev ∈ log, ∀ d ∈ delivered ev.call, w.stream.Leased lease d.1 d.2 ev.before.now
  spaced : log.Pairwise (Spaced lease)

theorem Leases.call (h : Leases lease w log) {p : Process} {o : Op P} {reply : o.Reply} (ho : o.ClaimsBehind lease)
    (hmade : Event.Made S ⟨p, ⟨o, reply⟩, w, w'⟩) : Leases lease w' (log ++ [⟨p, ⟨o, reply⟩, w, w'⟩]) := by
  obtain ⟨c, hexec⟩ := hmade
  refine ⟨timed_of_exec h.timed hexec, fun ev hev d hd => ?_, ?_⟩
  · rcases List.mem_append.1 hev with hev | hev
    · exact leased_of_exec h.timed ho (h.held ev hev d hd) hexec
    · obtain rfl := List.mem_singleton.1 hev
      exact (leased_of_delivered h.timed ho hexec hd).1
  · refine List.pairwise_append.2 ⟨h.spaced, List.pairwise_singleton _ _, fun ev hev ev' hev' d hd d' hd' heq => ?_⟩
    obtain rfl := List.mem_singleton.1 hev'
    have hheld := h.held ev hev d hd
    rw [heq] at hheld
    exact (leased_of_delivered h.timed ho hexec hd').2 d.2 _ hheld

theorem Leases.idle (h : Leases lease w log) (hw : Idle w w') : Leases lease w' log where
  timed := by
    rw [hw.stream]
    exact fun g hg p hp => (h.timed g hg p hp).trans hw.now
  held := by
    rw [hw.stream]
    exact h.held
  spaced := h.spaced

/-- Who is handed an entry has it for itself for `reclaim_idle_ms`: two deliveries of it are that far apart,
and as many times that as their numbers differ. -/
theorem leases_are_kept (h : System.Chronicle S s log) : log.Pairwise (Spaced S.settings.reclaimIdleMs) := by
  have hleases : (∀ ev ∈ log, ev.call.op.ClaimsBehind S.settings.reclaimIdleMs) →
      Leases S.settings.reclaimIdleMs s.world log := by
    refine h.keeps (I := fun s log => (∀ ev ∈ log, ev.call.op.ClaimsBehind S.settings.reclaimIdleMs) →
      Leases S.settings.reclaimIdleMs s.world log) (fun _ => ?_) ?_ ?_
    · exact ⟨Stream.timed_empty, by simp, List.Pairwise.nil⟩
    · intro s t log p o reply _ ih _ hmade _ hbehind
      obtain ⟨hlog, hlast⟩ := List.forall_mem_append.1 hbehind
      exact (ih hlog).call (hlast _ (List.mem_singleton_self _)) hmade
    · intro s t log ih _ hidle _ hbehind
      exact (ih hbehind).idle hidle
  exact (hleases (claimsBehind_of_chronicle h)).spaced

theorem reclaimedRun_keeps_leases : ∃ s log, System.Chronicle (documentService { batchSize := 1 }) s log ∧
    deliveries log = [(1, 1), (2, 1), (1, 2)] ∧ log.Pairwise (Spaced 30000) := by
  obtain ⟨s, log, h, -, hdeliveries⟩ := exists_reclaimedRun
  exact ⟨s, log, h, hdeliveries, leases_are_kept h⟩

end App
