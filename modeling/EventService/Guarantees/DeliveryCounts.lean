/-
Whether `claim_stale` reports true delivery counts. The counts come from a second lookup that
answers with as many of the consumer's own entries as were claimed, the oldest first; a claimed
entry the answer does not reach is reported as delivered once. So the counts are true exactly if
every claimed entry is reached, which is so exactly if the consumer holds no older entry in front of
a claimed one that this claim passes over.
-/
import EventService.Model.System
import EventService.Run.Rounds

namespace App

open Prog Store

variable {P : Type} (S : Service P)

/-! ## Lookups -/

/-- The lookup reaches the entries that have fewer entries of the consumer in front of them than it
answers with, and tells their counts. -/
theorem lookup_pendingOf {g : Group} {consumer k : Nat} {p : Pending} (hp : p ∈ g.pending)
    (howner : p.owner = consumer) :
    (((g.ownedBy consumer).take k).map fun p => (p.id, p.timesDelivered)).lookup p.id =
      if g.ahead consumer p.id < k then some p.timesDelivered else none := by
  have hown : p ∈ g.ownedBy consumer := List.mem_filter.2 ⟨hp, by simpa using howner⟩
  have hreach := Group.mem_take_iff (g.ownedBy_sorted consumer) hown k
  split
  · rename_i hlt
    have hmem := hreach.2 hlt
    cases hl : (((g.ownedBy consumer).take k).map fun p => (p.id, p.timesDelivered)).lookup p.id with
    | none =>
      have hnone := List.lookup_eq_none_iff.1 hl _ (List.mem_map_of_mem hmem)
      simp at hnone
    | some n =>
      -- the id is pending once, so what was found is its own count
      obtain ⟨q, hq, heq⟩ := List.mem_map.1 (List.mem_of_lookup_eq_some hl)
      obtain ⟨hid, rfl⟩ := Prod.mk.inj heq
      rw [Group.pending_unique (List.mem_filter.1 (List.mem_of_mem_take hq)).1 hp hid]
  · rename_i hge
    refine List.lookup_eq_none_iff.2 fun a ha => ?_
    obtain ⟨q, hq, rfl⟩ := List.mem_map.1 ha
    have hne : p.id ≠ q.id := by
      intro hid
      obtain rfl := Group.pending_unique hp (List.mem_filter.1 (List.mem_of_mem_take hq)).1 hid
      exact hge (hreach.1 hq)
    simpa using hne

/-- Restricting the answer to the ids that were asked for loses none of them. -/
theorem lookup_filter {l : List (Nat × Nat)} {ids : List Nat} {id : Nat} (h : id ∈ ids) :
    (l.filter fun a => a.1 ∈ ids).lookup id = l.lookup id := by
  induction l with
  | nil => rfl
  | cons a l ih =>
    obtain ⟨key, n⟩ := a
    by_cases hkey : key ∈ ids
    · rw [List.filter_cons_of_pos (by simpa using hkey), List.lookup_cons, List.lookup_cons, ih]
    · have hne : (id == key) = false := by
        rw [beq_eq_false_iff_ne]
        rintro rfl
        exact hkey h
      rw [List.filter_cons_of_neg (by simpa using hkey), List.lookup_cons, hne, ih]

/-! ## Two commands -/

/-- `XPENDING` that answers tells the consumer's first entries, and changes no stream. -/
theorem exec_xpending_ok {w w₁ : World P} {consumer count : Nat} {wanted : List (Nat × Nat)} {c : Choice}
    {r : List (Nat × Nat)} {g : Group} (hg : w.stream.group = some g)
    (h : World.exec S (.xpending consumer count wanted) c w = some (.ok r, w₁)) :
    r = ((g.ownedBy consumer).take count).map (fun p => (p.id, p.timesDelivered)) ∧
      w₁.stream = w.stream := by
  simp only [World.exec, Stream.pendingOf, hg] at h
  split at h
  · rename_i r' _ hr'
    obtain ⟨hreply, rfl⟩ := Prod.mk.inj (Option.some.inj h)
    exact ⟨(Except.ok.inj hreply).symm.trans (Except.ok.inj hr').symm, rfl⟩
  · rename_i hr'
    cases hr'
  · cases (Prod.mk.inj (Option.some.inj h)).1
  · cases (Prod.mk.inj (Option.some.inj h)).1

/-- The second lookup tells, of the entries asked for, the counts that `XPENDING` answers with. -/
theorem lookup_counted {w w' : World P} {consumer : Nat} {wanted pending : List (Nat × Nat)} {c : Choice} {g : Group}
    (hg : w.stream.group = some g) (hne : wanted ≠ [])
    (h : World.exec S (.xpending consumer (max wanted.length 1) wanted) c w = some (.ok pending, w')) :
    w'.stream = w.stream ∧ ∀ id ∈ wanted.map Prod.fst,
      (pending.filter fun entry => entry.1 ∈ wanted.map Prod.fst).lookup id =
        (((g.ownedBy consumer).take wanted.length).map fun p => (p.id, p.timesDelivered)).lookup id := by
  obtain ⟨rfl, hstream⟩ := exec_xpending_ok S hg h
  refine ⟨hstream, fun id hid => ?_⟩
  rw [lookup_filter hid, max_eq_left (List.length_pos_of_ne_nil hne)]

/-! ## What is reported -/

/-- Every claimed entry is on its first delivery, or the consumer's own entries in front of it that this
claim passes over are fewer than the claimed entries from it on. -/
def CountsReach (w : World P) (consumer minIdleMs count : Nat) : Prop :=
  ∀ g ∈ w.stream.group, ∀ c ∈ (w.stream.claim g consumer w.now minIdleMs count).claimed, c.2 = 1 ∨
    w.stream.passedOver g consumer w.now minIdleMs c.1.id <
      (w.stream.claim g consumer w.now minIdleMs count).claimed.countP fun d => c.1.id ≤ d.1.id

/-- The lookup reaches an entry where the condition says so. -/
theorem ahead_lt_iff {w : World P} {g : Group} {consumer minIdleMs count : Nat} {c : Entry P × Nat}
    (hc : c ∈ (w.stream.claim g consumer w.now minIdleMs count).claimed) :
    (w.stream.claimGroup g consumer w.now minIdleMs count).ahead consumer c.1.id <
        (w.stream.claim g consumer w.now minIdleMs count).claimed.length ↔
      w.stream.passedOver g consumer w.now minIdleMs c.1.id <
        (w.stream.claim g consumer w.now minIdleMs count).claimed.countP fun d => c.1.id ≤ d.1.id := by
  have hsplit := List.length_eq_countP_add_countP (fun d : Entry P × Nat => decide (d.1.id < c.1.id))
    (l := (w.stream.claim g consumer w.now minIdleMs count).claimed)
  simp only [decide_eq_true_eq, not_lt] at hsplit
  rw [w.stream.ahead_claimGroup g hc, hsplit]
  omega

theorem passedOver_mono (s : Stream P) (g : Group) {consumer now minIdle id id' : Nat} (h : id ≤ id') :
    s.passedOver g consumer now minIdle id ≤ s.passedOver g consumer now minIdle id' := by
  refine List.countP_mono_left fun p _ hp => ?_
  simp only [Bool.and_eq_true, decide_eq_true_eq] at hp ⊢
  exact ⟨hp.1.trans_le h, hp.2⟩

/-- Where everything that is pending was delivered before, nothing may be passed over in front of a claimed
entry: the last of them has no other claimed entry behind it. -/
theorem countsReach_iff {w : World P} {g : Group} {consumer minIdleMs count : Nat}
    (hg : w.stream.group = some g) (hdelivered : ∀ p ∈ g.pending, 1 ≤ p.timesDelivered) :
    CountsReach w consumer minIdleMs count ↔
      ∀ c ∈ (w.stream.claim g consumer w.now minIdleMs count).claimed,
        w.stream.passedOver g consumer w.now minIdleMs c.1.id = 0 := by
  have hsorted := w.stream.claimed_sorted g consumer w.now minIdleMs count
  have hagain : ∀ c ∈ (w.stream.claim g consumer w.now minIdleMs count).claimed, c.2 ≠ 1 := by
    intro c hc
    obtain ⟨p, hp, -, hlt, -⟩ := (w.stream.claim_spec g consumer w.now minIdleMs count).taken c hc
    have hle := hdelivered p hp
    omega
  constructor
  · intro hreach c hc
    have hreach := hreach g hg
    generalize (w.stream.claim g consumer w.now minIdleMs count).claimed = claimed at *
    obtain ⟨before, last, rfl⟩ := (List.eq_nil_or_concat' claimed).resolve_left (List.ne_nil_of_mem hc)
    obtain ⟨-, -, hbefore⟩ := List.pairwise_append.1 hsorted
    have hlast : last ∈ before ++ [last] := List.mem_append_right _ (List.mem_singleton_self _)
    have hone : (before ++ [last]).countP (fun d => last.1.id ≤ d.1.id) = 1 := by
      have hnone : before.countP (fun d => last.1.id ≤ d.1.id) = 0 := by
        refine List.countP_eq_zero.2 fun d hd => ?_
        have hlt := hbefore d hd last (List.mem_singleton_self _)
        simpa using hlt
      rw [List.countP_append, hnone]
      simp
    have hzero := (hreach last hlast).resolve_left (hagain last hlast)
    rw [hone] at hzero
    have hle : c.1.id ≤ last.1.id := by
      rcases List.mem_append.1 hc with hc | hc
      · exact (hbefore c hc last (List.mem_singleton_self _)).le
      · rw [List.mem_singleton.1 hc]
    have hmono := @passedOver_mono _ w.stream g consumer w.now minIdleMs _ _ hle
    omega
  · intro hnone g' hg' c hc
    obtain rfl : g = g' := Option.some.inj (hg.symm.trans hg')
    refine Or.inr ?_
    rw [hnone c hc]
    exact List.countP_pos_iff.2 ⟨c, hc, by simp⟩

/-- What `claim_stale` returns: the claimed entries, each with its count if the lookup reaches it and
with 1 if it does not. -/
theorem claimStale_ok {w w' : World P} {consumer minIdleMs count : Nat} {τ : List (Call Op.Reply)}
    {messages : List (QueuedMessage P)} {deleted : List Nat}
    (hruns : Runs (claimStale consumer minIdleMs count) τ (.ok (messages, deleted)))
    (hserved : Served (World.exec S) w τ w') :
    ∃ g ∈ w.stream.group, w'.stream.group = some (w.stream.claimGroup g consumer w.now minIdleMs count) ∧
      messages = (w.stream.claim g consumer w.now minIdleMs count).claimed.map fun c =>
        { messageId := c.1.id, payload := c.1.payload, number := c.2
          deliveryCount :=
            if (w.stream.claimGroup g consumer w.now minIdleMs count).ahead consumer c.1.id <
              (w.stream.claim g consumer w.now minIdleMs count).claimed.length then c.2 else 1 } := by
  cases claimCalls_of_runs hruns with
  | nothing =>
    obtain ⟨c, hexec⟩ := (served_single_iff S).1 hserved
    obtain ⟨g, hg, heq, hgroup⟩ := exec_xautoclaim_ok hexec
    refine ⟨g, hg, hgroup, ?_⟩
    rw [← (Prod.mk.inj heq).1, List.map_nil]
  | counted hne pending =>
    obtain ⟨c, w₁, hclaim, hrest⟩ := Served.cons_iff.1 hserved
    obtain ⟨c', hlookup⟩ := (served_single_iff S).1 hrest
    obtain ⟨g, hg, heq, hgroup⟩ := exec_xautoclaim_ok hclaim
    obtain ⟨rfl, rfl⟩ := Prod.mk.inj heq
    obtain ⟨hstream, hcounts⟩ := lookup_counted S hgroup (by simpa [wantedOf] using hne) hlookup
    refine ⟨g, hg, by rw [hstream, hgroup], List.map_congr_left fun c hc => ?_⟩
    obtain ⟨p, hp, hfind, howner, htimes⟩ := Stream.owned_claimFrom _ _ _ _ _ _ _ c hc
    have hid : p.id = c.1.id := (Stream.mem_entries_of_find hfind).2.symm
    have hreached := lookup_pendingOf
      (g := w.stream.claimGroup g consumer w.now minIdleMs count)
      (k := (w.stream.claim g consumer w.now minIdleMs count).claimed.length) hp howner
    rw [hid, htimes] at hreached
    unfold claimedMessage
    rw [hcounts c.1.id (by simpa [wantedOf] using ⟨c.1, ⟨c.2, hc⟩, rfl⟩), wantedOf, List.length_map, hreached]
    split <;> rfl

/-- The counts `claim_stale` reports are those of the pending list its claim left, if and only if the
lookup reaches every claimed entry that was delivered before. -/
theorem claimStale_counts_iff {w w' : World P} {consumer minIdleMs count : Nat} {τ : List (Call Op.Reply)}
    {messages : List (QueuedMessage P)} {deleted : List Nat}
    (hruns : Runs (claimStale consumer minIdleMs count) τ (.ok (messages, deleted)))
    (hserved : Served (World.exec S) w τ w') :
    (∀ m ∈ messages, ∃ g ∈ w'.stream.group, ∃ p ∈ g.pending, p.id = m.messageId ∧
      m.deliveryCount = p.timesDelivered) ↔ CountsReach w consumer minIdleMs count := by
  obtain ⟨g, hg, hgroup, rfl⟩ := claimStale_ok S hruns hserved
  -- each claimed entry is pending once, with the number of this delivery as its count
  have hpending : ∀ c ∈ (w.stream.claim g consumer w.now minIdleMs count).claimed,
      ∃ p ∈ (w.stream.claimGroup g consumer w.now minIdleMs count).pending,
        p.id = c.1.id ∧ p.timesDelivered = c.2 := by
    intro c hc
    obtain ⟨p, hp, hfind, -, htimes⟩ := Stream.owned_claimFrom _ _ _ _ _ _ _ c hc
    exact ⟨p, hp, (Stream.mem_entries_of_find hfind).2.symm, htimes⟩
  constructor
  · intro htrue g' hg' c hc
    obtain rfl : g = g' := Option.some.inj (hg.symm.trans hg')
    rw [← ahead_lt_iff hc]
    obtain ⟨p, hp, hid, htimes⟩ := hpending c hc
    obtain ⟨g₁, hg₁, q, hq, hqid, hcount⟩ := htrue _ (List.mem_map_of_mem hc)
    obtain rfl := Option.some.inj (hgroup.symm.trans hg₁)
    obtain rfl := Group.pending_unique hq hp (hqid.trans hid.symm)
    dsimp only at hcount
    split at hcount
    · rename_i hlt
      exact Or.inr hlt
    · exact Or.inl (htimes.symm.trans hcount.symm)
  · intro hreach m hm
    obtain ⟨c, hc, rfl⟩ := List.mem_map.1 hm
    obtain ⟨p, hp, hid, htimes⟩ := hpending c hc
    refine ⟨_, hgroup, p, hp, hid, ?_⟩
    rcases hreach g hg c hc with hone | hlt
    · rw [htimes, hone]
      exact ite_self _
    · rw [htimes]
      exact if_pos ((ahead_lt_iff hc).2 hlt)

/-- A stream of two entries that were delivered once each: the first to the consumer itself, at
`fresh`, the second to another consumer, who has left it alone for half a minute. -/
def freshBeforeStale (fresh : Nat) : World EventIn :=
  { World.initial EventIn with
    now := 30000
    stream := {
      dropped := []
      entries := [⟨1, Trace.document "a" (.finite false 5 0) "USD"⟩,
        ⟨2, Trace.document "b" (.finite false 7 0) "USD"⟩]
      lastId := 2
      group := some ⟨2, [⟨1, 0, fresh, 1⟩, ⟨2, 1, 0, 1⟩], by simp, by simp⟩
      sorted := by decide
      bounded := by decide
      read := by simp
      known := by simp } }

/-- The consumer claims what is stale: `reported` are the ids and counts it is told, `pending` those
of the pending list then. -/
def claimsAs (reported pending : List (Nat × Nat)) :
    Except Exn (List (QueuedMessage EventIn) × List Nat) → World EventIn → Bool
  | .ok r, w => (r.1.map fun m => (m.messageId, m.deliveryCount)) = reported &&
      (w.stream.group.map fun g => g.pending.map fun p => (p.id, p.timesDelivered)) = some pending
  | .error _, _ => false

theorem exists_claim (fresh : Nat) (reported pending : List (Nat × Nat))
    (h : ((claimStale 0 30000 100).alone (World.exec (documentService {})) [{}, {}]
      (freshBeforeStale fresh)).any (fun x => claimsAs reported pending x.2.1 x.2.2) = true) :
    ∃ τ messages deleted w', Runs (claimStale 0 30000 100) τ (.ok (messages, deleted)) ∧
      Served (World.exec (documentService {})) (freshBeforeStale fresh) τ w' ∧
      (messages.map fun m => (m.messageId, m.deliveryCount)) = reported ∧
      (w'.stream.group.map fun g => g.pending.map fun p => (p.id, p.timesDelivered)) = some pending := by
  obtain ⟨τ, x, w', hruns, hserved, hgood⟩ := exists_alone _ _ _ (claimsAs reported pending) h
  cases x with
  | error e => cases hgood
  | ok r =>
    obtain ⟨hr, hpending⟩ := Bool.and_eq_true_iff.1 hgood
    exact ⟨τ, r.1, r.2, w', hruns, hserved, of_decide_eq_true hr, of_decide_eq_true hpending⟩

/-- Where both entries are stale, both are claimed and each is reported as delivered twice. -/
theorem both_stale_reported :
    ∃ τ messages deleted w', Runs (claimStale 0 30000 100) τ (.ok (messages, deleted)) ∧
      Served (World.exec (documentService {})) (freshBeforeStale 0) τ w' ∧
      messages.map (fun m => (m.messageId, m.deliveryCount)) = [(1, 2), (2, 2)] ∧
      ∀ m ∈ messages, ∃ g ∈ w'.stream.group, ∃ p ∈ g.pending, p.id = m.messageId ∧
        m.deliveryCount = p.timesDelivered := by
  obtain ⟨τ, messages, deleted, w', hruns, hserved, hreported, -⟩ :=
    exists_claim 0 [(1, 2), (2, 2)] [(1, 2), (2, 2)] (by decide +kernel)
  refine ⟨τ, messages, deleted, w', hruns, hserved, hreported,
    (claimStale_counts_iff _ hruns hserved).2 ?_⟩
  intro g hg
  obtain rfl := Option.some.inj hg
  decide +kernel

/-- The consumer's own fresh entry lies in front of the one it claims: the lookup answers with that
one, and the claimed entry, delivered twice now, is reported as delivered once. -/
theorem fresh_entry_hides_count :
    ∃ τ messages deleted w', Runs (claimStale 0 30000 100) τ (.ok (messages, deleted)) ∧
      Served (World.exec (documentService {})) (freshBeforeStale 30000) τ w' ∧
      messages.map (fun m => (m.messageId, m.deliveryCount)) = [(2, 1)] ∧
      ¬∀ m ∈ messages, ∃ g ∈ w'.stream.group, ∃ p ∈ g.pending, p.id = m.messageId ∧
        m.deliveryCount = p.timesDelivered := by
  obtain ⟨τ, messages, deleted, w', hruns, hserved, hreported, hpending⟩ :=
    exists_claim 30000 [(2, 1)] [(1, 1), (2, 2)] (by decide +kernel)
  refine ⟨τ, messages, deleted, w', hruns, hserved, hreported, fun htrue => ?_⟩
  have hmem : (2, 1) ∈ messages.map fun m => (m.messageId, m.deliveryCount) := by
    rw [hreported]
    exact List.mem_singleton_self _
  obtain ⟨m, hm, hmeq⟩ := List.mem_map.1 hmem
  obtain ⟨hid, hcount⟩ := Prod.mk.inj hmeq
  obtain ⟨g, hg, p, hp, hpid, htimes⟩ := htrue m hm
  -- the entry with id 2 is pending with the count 2
  have hfound : (2, 1) ∈ g.pending.map fun p => (p.id, p.timesDelivered) :=
    List.mem_map.2 ⟨p, hp, by rw [hpid, hid, ← htimes, hcount]⟩
  rw [hg, Option.map_some] at hpending
  rw [Option.some.inj hpending] at hfound
  revert hfound
  decide

end App
