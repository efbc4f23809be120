/-
How long an entry stays with the consumer it was handed to. A claim takes over only what has been idle for
long enough, and every delivery starts the time anew. So each further delivery of an entry is at least that
long behind the one before it, whoever asks and whatever became of the answers in between.
-/
import EventService.Store.Stream

namespace Store

namespace Stream

variable {α : Type} {s s' : Stream α} {lease id n time now : Nat}

/-- Nothing was delivered after `now`. -/
def Timed (now : Nat) (s : Stream α) : Prop := ∀ g ∈ s.group, ∀ p ∈ g.pending, p.deliveredAt ≤ now

/-- The entry was handed over for the `n`-th time at `time`; if it is pending, every delivery since then has
taken the time of a lease. -/
def Leased (lease : Nat) (s : Stream α) (id n time : Nat) : Prop :=
  ∃ g ∈ s.group, id ≤ g.lastDelivered ∧
    ∀ p ∈ g.pending, p.id = id → n ≤ p.timesDelivered ∧ time + lease * (p.timesDelivered - n) ≤ p.deliveredAt

/-! ## Claims -/

/-- What a claim does to an entry it hands over: it was idle for long enough, and its time begins anew. -/
structure Renewed (now minIdle : Nat) (p p' : Pending) : Prop where
  id : p'.id = p.id
  times : p'.timesDelivered = p.timesDelivered + 1
  at_now : p'.deliveredAt = now
  idle : minIdle ≤ now - p.deliveredAt

/-- A claim leaves an entry as it is, or renews it. -/
theorem renewed_claimFrom (find : Nat → Option (Entry α)) (consumer now minIdle : Nat) :
    ∀ (attempts count : Nat) (ps : List Pending),
      ∀ p' ∈ (claimFrom find consumer now minIdle attempts count ps).pending,
        p' ∈ ps ∨ ∃ p ∈ ps, Renewed now minIdle p p'
  | 0, _, ps => fun p' hp' => Or.inl hp'
  | _ + 1, 0, ps => fun p' hp' => Or.inl hp'
  | _ + 1, _ + 1, [] => fun p' hp' => Or.inl hp'
  | attempts + 1, count + 1, p :: ps => by
    have hrest : ∀ count', ∀ p' ∈ (claimFrom find consumer now minIdle attempts count' ps).pending,
        p' ∈ p :: ps ∨ ∃ q ∈ p :: ps, Renewed now minIdle q p' := by
      intro count' p' hp'
      rcases renewed_claimFrom find consumer now minIdle attempts count' ps p' hp' with hold | ⟨q, hq, hrenewed⟩
      · exact Or.inl (List.mem_cons_of_mem _ hold)
      · exact Or.inr ⟨q, List.mem_cons_of_mem _ hq, hrenewed⟩
    intro p' hp'
    unfold claimFrom at hp'
    split at hp'
    · exact hrest count p' hp'
    · split at hp'
      · rcases List.mem_cons.1 hp' with rfl | hp'
        · exact Or.inl (List.mem_cons_self ..)
        · exact hrest (count + 1) p' hp'
      · rename_i hidle
        rcases List.mem_cons.1 hp' with rfl | hp'
        · exact Or.inr ⟨p, List.mem_cons_self .., rfl, rfl, rfl, not_lt.1 hidle⟩
        · exact hrest count p' hp'

theorem renewed_claim {g : Group} {consumer minIdle count : Nat} {p' : Pending}
    (hp' : p' ∈ (s.claim g consumer now minIdle count).pending) :
    p' ∈ g.pending ∨ ∃ p ∈ g.pending, Renewed now minIdle p p' :=
  renewed_claimFrom _ _ _ _ _ _ _ p' hp'

/-- What a claim hands over, it has renewed. -/
theorem renewed_of_claimed {g : Group} {consumer minIdle count : Nat} {c : Entry α × Nat}
    (hc : c ∈ (s.claim g consumer now minIdle count).claimed) : ∃ p ∈ g.pending, p.id = c.1.id ∧
      ∃ p' ∈ (s.claim g consumer now minIdle count).pending, Renewed now minIdle p p' ∧ p'.timesDelivered = c.2 := by
  obtain ⟨p, hp, hfind, hlt, p', hp', hid, htimes⟩ := (s.claim_spec g consumer now minIdle count).taken c hc
  refine ⟨p, hp, (mem_entries_of_find hfind).2.symm, p', hp', ?_, htimes⟩
  rcases renewed_claim hp' with hold | ⟨q, hq, hrenewed⟩
  · -- it is not the entry as it was, which had been delivered less often
    rw [Group.pending_unique hold hp hid] at htimes
    exact absurd htimes hlt.ne
  · rwa [Group.pending_unique hp hq (hid.symm.trans hrenewed.id)]

/-! ## Changes of the stream -/

theorem timed_empty : (empty : Stream α).Timed now := by
  intro g hg
  cases hg

theorem timed_readNew {consumer count : Nat} {es : List (Entry α)} (ht : s.Timed now)
    (h : s.readNew consumer now count = .ok (es, s')) : s'.Timed now := by
  unfold readNew at h
  split at h
  · cases h
  · rename_i g hg
    obtain ⟨-, rfl⟩ := Prod.mk.inj (Except.ok.inj h)
    intro g' hg' p hp
    rw [← Option.some.inj hg'] at hp
    rcases List.mem_append.1 hp with hp | hp
    · exact ht g hg p hp
    · obtain ⟨e, -, rfl⟩ := List.mem_map.1 hp
      exact le_rfl

theorem timed_autoclaim {consumer minIdle count : Nat} {r : List (Entry α × Nat) × List Nat} (ht : s.Timed now)
    (h : s.autoclaim consumer now minIdle count = .ok (r, s')) : s'.Timed now := by
  unfold autoclaim at h
  split at h
  · cases h
  · rename_i g hg
    obtain ⟨-, rfl⟩ := Prod.mk.inj (Except.ok.inj h)
    intro g' hg' p' hp'
    rw [← Option.some.inj hg'] at hp'
    rcases renewed_claim hp' with hold | ⟨p, -, hrenewed⟩
    · exact ht g hg p' hold
    · exact hrenewed.at_now.le

theorem timed_ack (ht : s.Timed now) (ids : List Nat) : (s.ack ids).2.Timed now := by
  intro g' hg' p hp
  unfold ack at hg'
  split at hg'
  · exact ht g' hg' p hp
  · rename_i g hg
    rw [← Option.some.inj hg'] at hp
    exact ht g hg p (Group.mem_of_mem_ack hp)

theorem leased_readNew {consumer count : Nat} {es : List (Entry α)} (hl : s.Leased lease id n time)
    (h : s.readNew consumer now count = .ok (es, s')) : s'.Leased lease id n time := by
  obtain ⟨g, hg, hread, hpending⟩ := hl
  unfold readNew at h
  split at h
  · cases h
  · rename_i g₀ hg₀
    obtain rfl := Option.some.inj (Option.mem_def.1 hg ▸ hg₀)
    obtain ⟨-, rfl⟩ := Prod.mk.inj (Except.ok.inj h)
    refine ⟨_, rfl, hread.trans (le_lastIdOr_start fun e he => lt_of_mem_unread (List.mem_of_mem_take he)), ?_⟩
    intro p hp hid
    rcases List.mem_append.1 hp with hp | hp
    · exact hpending p hp hid
    · -- what is read now was unread
      obtain ⟨e, he, rfl⟩ := List.mem_map.1 hp
      have hunread := lt_of_mem_unread (List.mem_of_mem_take he)
      dsimp only at hid
      omega

/-- A claim with the lease as its idle time: a renewed entry was idle for one. -/
theorem leased_autoclaim {consumer count : Nat} {r : List (Entry α × Nat) × List Nat} (ht : s.Timed now)
    (hl : s.Leased lease id n time) (h : s.autoclaim consumer now lease count = .ok (r, s')) :
    s'.Leased lease id n time := by
  obtain ⟨g, hg, hread, hpending⟩ := hl
  unfold autoclaim at h
  split at h
  · cases h
  · rename_i g₀ hg₀
    obtain rfl := Option.some.inj (Option.mem_def.1 hg ▸ hg₀)
    obtain ⟨-, rfl⟩ := Prod.mk.inj (Except.ok.inj h)
    refine ⟨_, rfl, hread, fun p' hp' hid => ?_⟩
    rcases renewed_claim hp' with hold | ⟨p, hp, hrenewed⟩
    · exact hpending p' hold hid
    · obtain ⟨hn, htime⟩ := hpending p hp (hrenewed.id.symm.trans hid)
      have hidle := hrenewed.idle
      have hpast := ht g hg p hp
      rw [hrenewed.times, hrenewed.at_now, Nat.succ_sub hn, Nat.mul_succ]
      omega

theorem leased_ack (hl : s.Leased lease id n time) (ids : List Nat) : (s.ack ids).2.Leased lease id n time := by
  obtain ⟨g, hg, hread, hpending⟩ := hl
  have hack : (s.ack ids).2.group = some (g.ack ids) := by
    unfold ack
    split
    · rename_i hnone
      cases hnone.symm.trans hg
    · rename_i g₀ hg₀
      obtain rfl := Option.some.inj (Option.mem_def.1 hg ▸ hg₀)
      rfl
  exact ⟨_, hack, hread, fun p hp hid => hpending p (Group.mem_of_mem_ack hp) hid⟩

/-! ## Deliveries -/

/-- A read begins a lease on what it hands over, and no lease was on it before. -/
theorem leased_of_read {consumer count : Nat} {es : List (Entry α)} {e : Entry α}
    (h : s.readNew consumer now count = .ok (es, s')) (he : e ∈ es) :
    s'.Leased lease e.id 1 now ∧ ∀ n time, ¬s.Leased lease e.id n time := by
  unfold readNew at h
  split at h
  · cases h
  · rename_i g hg
    obtain ⟨rfl, rfl⟩ := Prod.mk.inj (Except.ok.inj h)
    have hunread := lt_of_mem_unread (List.mem_of_mem_take he)
    have hp : (⟨e.id, consumer, now, 1⟩ : Pending) ∈ (s.deliver g consumer now count).pending :=
      List.mem_append_right _ (List.mem_map.2 ⟨e, he, rfl⟩)
    constructor
    · refine ⟨_, rfl, (s.deliver g consumer now count).delivered _ hp, fun p hp' hid => ?_⟩
      rw [Group.pending_unique hp' hp hid]
      simp
    · rintro n time ⟨g₀, hg₀, hread, -⟩
      obtain rfl := Option.some.inj (Option.mem_def.1 hg₀ ▸ hg)
      omega

/-- A claim begins another one, and every lease that was on it before is over by as many as there were
deliveries in between. -/
theorem leased_of_claim {consumer count : Nat} {r : List (Entry α × Nat) × List Nat} {c : Entry α × Nat}
    (ht : s.Timed now) (h : s.autoclaim consumer now lease count = .ok (r, s')) (hc : c ∈ r.1) :
    s'.Leased lease c.1.id c.2 now ∧
      ∀ n time, s.Leased lease c.1.id n time → n < c.2 ∧ time + lease * (c.2 - n) ≤ now := by
  unfold autoclaim at h
  split at h
  · cases h
  · rename_i g hg
    obtain ⟨rfl, rfl⟩ := Prod.mk.inj (Except.ok.inj h)
    obtain ⟨p, hp, hid, p', hp', hrenewed, htimes⟩ := renewed_of_claimed hc
    have hid' : p'.id = c.1.id := hrenewed.id.trans hid
    constructor
    · refine ⟨_, rfl, hid' ▸ (s.claimGroup g consumer now lease count).delivered p' hp', fun q hq hqid => ?_⟩
      rw [Group.pending_unique (g := s.claimGroup g consumer now lease count) hq hp' (hqid.trans hid'.symm), htimes,
        hrenewed.at_now]
      simp
    · rintro n time ⟨g₀, hg₀, -, hpending⟩
      obtain rfl := Option.some.inj (Option.mem_def.1 hg₀ ▸ hg)
      obtain ⟨hn, htime⟩ := hpending p hp hid
      have hidle := hrenewed.idle
      have hpast := ht _ hg p hp
      rw [← htimes, hrenewed.times, Nat.succ_sub hn, Nat.mul_succ]
      omega

end Stream

end Store
