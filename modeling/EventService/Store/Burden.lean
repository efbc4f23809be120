/-
How much a consumer group still has to do. Each entry that was added weighs the more the less the group has
done about it: an unread entry the most, a pending one by the deliveries it may still get, an entry the group
is done with nothing. No change of a stream makes an entry heavier, and reading, claiming and acknowledging
make one lighter.
-/
import Mathlib
import EventService.Store.Stream

namespace Store

namespace Stream

variable {α : Type} {s s' : Stream α} {g g' : Group} {limit id consumer now minIdle count : Nat}

/-- What is left to do about an entry, if it is to be delivered up to `limit` times and once more. -/
def weight (limit : Nat) (s : Stream α) (id : Nat) : Nat :=
  match s.group with
  | none => limit + 3
  | some g =>
    if g.lastDelivered < id then limit + 3
    else match g.pending.find? fun p => p.id = id with
      | none => 0
      | some p => limit + 2 - min (limit + 1) p.timesDelivered

/-- What is left to do about some entries. -/
def burden (limit : Nat) (s : Stream α) (es : List (Entry α)) : Nat := (es.map fun e => s.weight limit e.id).sum

theorem weight_of_unread (hg : s.group = some g) (h : g.lastDelivered < id) : s.weight limit id = limit + 3 := by
  unfold weight
  rw [hg]
  exact if_pos h

theorem weight_of_pending (limit : Nat) {p : Pending} (hg : s.group = some g) (hp : p ∈ g.pending) :
    s.weight limit p.id = limit + 2 - min (limit + 1) p.timesDelivered := by
  have hfind : g.pending.find? (fun q => q.id = p.id) = some p := by
    cases hq : g.pending.find? fun q => q.id = p.id with
    | none => exact absurd (List.find?_eq_none.1 hq p hp) (by simp)
    | some q =>
      have hid : q.id = p.id := by simpa using List.find?_some hq
      rw [Group.pending_unique (List.mem_of_find?_eq_some hq) hp hid]
  unfold weight
  rw [hg]
  dsimp only
  rw [if_neg (not_lt.2 (g.delivered p hp)), hfind]

theorem weight_of_not_open (h : ¬s.Open id) : s.weight limit id = 0 := by
  unfold weight
  cases hg : s.group with
  | none =>
    refine absurd (Or.inl fun g hg' => ?_) h
    cases hg.symm.trans hg'
  | some g =>
    dsimp only
    rw [if_neg fun hlt => h (Or.inl fun g' hg' => Option.some.inj (hg.symm.trans hg') ▸ hlt)]
    cases hp : g.pending.find? fun p => p.id = id with
    | none => rfl
    | some p =>
      refine absurd (Or.inr ⟨g, hg, p, List.mem_of_find?_eq_some hp, ?_⟩) h
      simpa using List.find?_some hp

theorem weight_pos_of_open (h : s.Open id) : 0 < s.weight limit id := by
  rcases h with hunread | ⟨g, hg, p, hp, rfl⟩
  · cases hg : s.group with
    | none =>
      unfold weight
      rw [hg]
      exact Nat.succ_pos _
    | some g =>
      rw [weight_of_unread hg (hunread g hg)]
      exact Nat.succ_pos _
  · rw [weight_of_pending limit hg hp]
    omega

theorem weight_le (limit : Nat) (s : Stream α) (id : Nat) : s.weight limit id ≤ limit + 3 := by
  unfold weight
  split
  · exact le_rfl
  · split
    · exact le_rfl
    · split
      · exact Nat.zero_le _
      · omega

/-- Nothing gets heavier. -/
theorem weight_mono (h : s.Le s') (limit id : Nat) : s'.weight limit id ≤ s.weight limit id := by
  by_cases hopen : s'.Open id
  · cases hg : s.group with
    | none =>
      refine (weight_le limit s' id).trans_eq ?_
      unfold weight
      rw [hg]
    | some g =>
      by_cases hread : g.lastDelivered < id
      · rw [weight_of_unread hg hread]
        exact weight_le limit s' id
      · -- what was read before is open only if it is pending, and was pending before
        obtain ⟨g', hg', hlast, hpend⟩ := h.group g hg
        rcases hopen with hunread | ⟨g'', hg'', p', hp', rfl⟩
        · exact absurd (hunread g' hg') (not_lt.2 ((not_lt.1 hread).trans hlast))
        · obtain rfl := Option.some.inj (hg'.symm.trans hg'')
          obtain ⟨p, hp, hid, htimes⟩ := hpend p' hp' (not_lt.1 hread)
          rw [weight_of_pending limit hg' hp', ← hid, weight_of_pending limit hg hp]
          omega
  · rw [weight_of_not_open hopen]
    exact Nat.zero_le _

/-- If one entry gets lighter, there is less to do. -/
theorem burden_lt (h : s.Le s') {es : List (Entry α)} {e : Entry α} (he : e ∈ es)
    (hlt : s'.weight limit e.id < s.weight limit e.id) : s'.burden limit es < s.burden limit es :=
  List.sum_lt_sum _ _ (fun e _ => weight_mono h limit e.id) ⟨e, he, hlt⟩

/-- An entry that is read for the first time gets lighter. -/
theorem weight_readNew {es : List (Entry α)} {e : Entry α} (h : s.readNew consumer now count = .ok (es, s'))
    (he : e ∈ es) : s'.weight limit e.id < s.weight limit e.id := by
  unfold readNew at h
  split at h
  · cases h
  · rename_i g hg
    obtain ⟨rfl, rfl⟩ := Prod.mk.inj (Except.ok.inj h)
    rw [weight_of_unread hg (lt_of_mem_unread (List.mem_of_mem_take he))]
    have hp : (⟨e.id, consumer, now, 1⟩ : Pending) ∈ (s.deliver g consumer now count).pending :=
      List.mem_append_right _ (List.mem_map.2 ⟨e, he, rfl⟩)
    have hweight := weight_of_pending limit (s := s.withGroup (s.deliver g consumer now count)
      (s.deliver_le_lastId (s.read g hg) consumer now count) (s.deliver_known (s.known g hg) consumer now count)) rfl hp
    dsimp only at hweight
    rw [hweight]
    omega

/-- An entry that is acknowledged weighs nothing. -/
theorem weight_ack (hg : s.group = some g) (hread : id ≤ g.lastDelivered) {ids : List Nat} (hid : id ∈ ids) :
    (s.ack ids).2.weight limit id = 0 := by
  apply weight_of_not_open
  rintro (hunread | hpending)
  · obtain ⟨g', hg', hlast, -⟩ := (Le.ack s ids).group g hg
    exact absurd (hunread g' hg') (not_lt.2 (hread.trans hlast))
  · exact not_isPending_ack hid hpending

/-! ## Claiming -/

variable {p : Pending} {ps : List Pending}

/-- A claim begins with the oldest pending entry: it is gone, or it is handed over. -/
theorem claim_cons (consumer : Nat) (hg : g.pending = p :: ps) (hcount : 1 ≤ count) (hstale : minIdle ≤ now - p.deliveredAt) :
    (∃ r : Claim α, (∀ q ∈ r.pending, q.id ≠ p.id) ∧
      s.claim g consumer now minIdle count = ⟨r.pending, r.claimed, p.id :: r.deleted⟩) ∨
    ∃ (e : Entry α) (r : Claim α), s.find p.id = some e ∧ s.claim g consumer now minIdle count =
      ⟨⟨p.id, consumer, now, p.timesDelivered + 1⟩ :: r.pending, (e, p.timesDelivered + 1) :: r.claimed, r.deleted⟩ := by
  obtain ⟨n, rfl⟩ := Nat.exists_eq_add_of_le' hcount
  have hattempts : 10 * (n + 1) = 10 * n + 9 + 1 := by omega
  have hclaim : s.claim g consumer now minIdle (n + 1) =
      claimFrom s.find consumer now minIdle (10 * n + 9 + 1) (n + 1) (p :: ps) := by
    unfold claim
    rw [hg, hattempts]
  rw [hclaim]
  unfold claimFrom
  split
  · refine Or.inl ⟨_, fun q hq hid => ?_, rfl⟩
    obtain ⟨q', hq', hid', -⟩ := (claimFrom_spec s.find consumer now minIdle (10 * n + 9) n ps).grown q hq
    have hsorted := g.sorted
    rw [hg] at hsorted
    exact absurd (hid'.trans hid) ((List.pairwise_cons.1 hsorted).1 q' hq').ne'
  · rename_i e hfind
    rw [if_neg (not_lt.2 hstale)]
    exact Or.inr ⟨e, _, hfind, rfl⟩

/-- The oldest pending entry gets lighter when it is claimed, unless it has been delivered too often already. -/
theorem weight_autoclaim {r : List (Entry α × Nat) × List Nat} (hgroup : s.group = some g) (hg : g.pending = p :: ps)
    (hcount : 1 ≤ count) (hstale : minIdle ≤ now - p.deliveredAt)
    (h : s.autoclaim consumer now minIdle count = .ok (r, s')) :
    s'.weight limit p.id < s.weight limit p.id ∨
      (limit < p.timesDelivered ∧ (∃ e, e.id = p.id ∧ (e, p.timesDelivered + 1) ∈ r.1) ∧
        ∃ g' ps', s'.group = some g' ∧ g'.pending = ⟨p.id, consumer, now, p.timesDelivered + 1⟩ :: ps') := by
  have hp : p ∈ g.pending := hg ▸ List.mem_cons_self ..
  have hold := weight_of_pending limit hgroup hp
  have hle := Le.autoclaim h
  unfold autoclaim at h
  split at h
  · rename_i hnone
    cases hnone.symm.trans hgroup
  rename_i g₀ hg₀
  obtain rfl := Option.some.inj (hgroup.symm.trans hg₀)
  obtain ⟨rfl, rfl⟩ := Prod.mk.inj (Except.ok.inj h)
  rcases s.claim_cons consumer hg hcount hstale with ⟨c, hother, hclaim⟩ | ⟨e, c, hfind, hclaim⟩
  · left
    rw [hold]
    refine (weight_of_not_open ?_).trans_lt (by omega)
    rintro (hunread | ⟨g', hg', q, hq, hid⟩)
    · exact absurd (hunread _ rfl) (not_lt.2 (g.delivered p hp))
    · rw [← Option.some.inj hg'] at hq
      change q ∈ (s.claim g consumer now minIdle count).pending at hq
      rw [hclaim] at hq
      exact hother q hq hid
  · by_cases hlimit : limit < p.timesDelivered
    · refine Or.inr ⟨hlimit, ⟨e, s.find_id p.id e hfind, ?_⟩, _, c.pending, rfl, ?_⟩
      · rw [hclaim]
        exact List.mem_cons_self ..
      · change (s.claim g consumer now minIdle count).pending = _
        rw [hclaim]
    · left
      rw [hold]
      have hmem : (⟨p.id, consumer, now, p.timesDelivered + 1⟩ : Pending) ∈
          (s.claimGroup g consumer now minIdle count).pending := by
        change _ ∈ (s.claim g consumer now minIdle count).pending
        rw [hclaim]
        exact List.mem_cons_self ..
      have hnew := weight_of_pending limit (s := s.withGroup (s.claimGroup g consumer now minIdle count)
        (s.read g hg₀) (s.claimGroup_known (s.known g hg₀) consumer now minIdle count)) rfl hmem
      dsimp only at hnew
      rw [hnew]
      omega

end Stream

end Store
