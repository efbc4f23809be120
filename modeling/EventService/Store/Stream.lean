/-
An append-only stream read by one consumer group. Entries get increasing ids; the group remembers
the last id it was given and lists every entry that was delivered and not acknowledged, with its
owner and how often it was delivered. Trimming drops the oldest entries, whatever their state.
The main results say where an entry can be: not yet read, pending, or taken off the pending list
by an acknowledgement or because a claim found it trimmed away.
-/
import Mathlib.Data.List.Nodup
import Mathlib.Data.Nat.Basic
import Mathlib.Order.Basic

namespace Store

structure Entry (α : Type) where
  id : Nat
  payload : α
  deriving DecidableEq, Repr

/-- A delivered, unacknowledged entry. -/
structure Pending where
  id : Nat
  owner : Nat
  deliveredAt : Nat
  timesDelivered : Nat
  deriving DecidableEq, Repr

structure Group where
  lastDelivered : Nat
  pending : List Pending
  sorted : pending.Pairwise fun p q => p.id < q.id
  delivered : ∀ p ∈ pending, p.id ≤ lastDelivered

/-- A stream with at most one consumer group. `dropped` are the entries that were trimmed away, so
`dropped ++ entries` is everything that was ever added. -/
structure Stream (α : Type) where
  dropped : List (Entry α)
  entries : List (Entry α)
  lastId : Nat
  group : Option Group
  sorted : (dropped ++ entries).Pairwise fun e f => e.id < f.id
  bounded : ∀ e ∈ dropped ++ entries, 0 < e.id ∧ e.id ≤ lastId
  read : ∀ g ∈ group, g.lastDelivered ≤ lastId
  known : ∀ g ∈ group, ∀ p ∈ g.pending, ∃ e ∈ dropped ++ entries, e.id = p.id

/-- A command for a group that does not exist. -/
inductive Missing
  | noGroup
  deriving DecidableEq, Repr

namespace Group

variable (g : Group)

/-- Acknowledge: the entries leave the pending list. -/
def ack (ids : List Nat) : Group where
  lastDelivered := g.lastDelivered
  pending := g.pending.filter fun p => p.id ∉ ids
  sorted := g.sorted.filter _
  delivered := fun p hp => g.delivered p (List.mem_filter.1 hp).1

/-- The entries the consumer owns, oldest first. -/
def ownedBy (consumer : Nat) : List Pending := g.pending.filter fun p => p.owner = consumer

theorem ownedBy_sorted (consumer : Nat) : (g.ownedBy consumer).Pairwise fun p q => p.id < q.id :=
  g.sorted.filter _

/-- How many entries of the consumer lie in front of this id. -/
def ahead (consumer id : Nat) : Nat := (g.ownedBy consumer).countP fun p => p.id < id

/-- The first `k` entries of a list in order are those with fewer than `k` entries in front of them. -/
theorem mem_take_iff {l : List Pending} (hs : l.Pairwise fun p q => p.id < q.id) {p : Pending} (hp : p ∈ l)
    (k : Nat) : p ∈ l.take k ↔ l.countP (fun q => q.id < p.id) < k := by
  induction l generalizing k with
  | nil => cases hp
  | cons q l ih =>
    obtain ⟨hq, hl⟩ := List.pairwise_cons.1 hs
    cases k with
    | zero => simp
    | succ k =>
      rw [List.take_succ_cons, List.mem_cons, List.countP_cons]
      rcases List.mem_cons.1 hp with rfl | hp'
      · -- nothing is in front of the first entry
        have hnone : l.countP (fun q => q.id < p.id) = 0 :=
          List.countP_eq_zero.2 fun q hql => by simpa using (hq q hql).le
        simp [hnone]
      · have hlt : q.id < p.id := hq p hp'
        have hne : p ≠ q := by
          rintro rfl
          exact lt_irrefl _ hlt
        rw [ih hl hp' k]
        simp [hne, hlt]

/-- No entry is pending twice. -/
theorem pending_unique {g : Group} {p q : Pending} (hp : p ∈ g.pending) (hq : q ∈ g.pending)
    (h : p.id = q.id) : p = q := by
  have hnodup : (g.pending.map Pending.id).Nodup := (List.pairwise_map.2 g.sorted).imp Nat.ne_of_lt
  exact List.inj_on_of_nodup_map hnodup hp hq h

def isPending (id : Nat) : Prop := ∃ p ∈ g.pending, p.id = id

theorem mem_of_mem_ack {g : Group} {ids : List Nat} {p : Pending} (h : p ∈ (g.ack ids).pending) :
    p ∈ g.pending := (List.mem_filter.1 h).1

theorem isPending_ack {ids : List Nat} {id : Nat} : (g.ack ids).isPending id ↔ g.isPending id ∧ id ∉ ids := by
  unfold isPending ack
  constructor
  · rintro ⟨p, hp, rfl⟩
    obtain ⟨hp, hn⟩ := List.mem_filter.1 hp
    exact ⟨⟨p, hp, rfl⟩, by simpa using hn⟩
  · rintro ⟨⟨p, hp, rfl⟩, hn⟩
    exact ⟨p, List.mem_filter.2 ⟨hp, by simpa using hn⟩, rfl⟩

end Group

namespace Stream

variable {α : Type}

def empty : Stream α where
  dropped := []
  entries := []
  lastId := 0
  group := none
  sorted := List.Pairwise.nil
  bounded := by simp
  read := by simp
  known := by simp

/-- Everything that was ever added. -/
def added (s : Stream α) : List (Entry α) := s.dropped ++ s.entries

/-! ## Adding and trimming -/

/-- Append one entry under the next id. -/
def add (s : Stream α) (payload : α) : Stream α where
  dropped := s.dropped
  entries := s.entries ++ [⟨s.lastId + 1, payload⟩]
  lastId := s.lastId + 1
  group := s.group
  sorted := by
    rw [← List.append_assoc, List.pairwise_append]
    refine ⟨s.sorted, List.pairwise_singleton .., ?_⟩
    intro e he f hf
    rw [List.mem_singleton.1 hf]
    exact Nat.lt_succ_of_le (s.bounded e he).2
  bounded := by
    intro e he
    rw [← List.append_assoc] at he
    rcases List.mem_append.1 he with he | he
    · exact (s.bounded e he).imp_right Nat.le_succ_of_le
    · rw [List.mem_singleton.1 he]
      exact ⟨Nat.succ_pos _, le_rfl⟩
  read := fun g hg => Nat.le_succ_of_le (s.read g hg)
  known := by
    intro g hg p hp
    obtain ⟨e, he, h⟩ := s.known g hg p hp
    exact ⟨e, by rw [← List.append_assoc]; exact List.mem_append_left _ he, h⟩

/-- Drop the `k` oldest entries. -/
def trim (s : Stream α) (k : Nat) : Stream α where
  dropped := s.dropped ++ s.entries.take k
  entries := s.entries.drop k
  lastId := s.lastId
  group := s.group
  sorted := by rw [List.append_assoc, List.take_append_drop]; exact s.sorted
  bounded := by rw [List.append_assoc, List.take_append_drop]; exact s.bounded
  read := s.read
  known := by rw [List.append_assoc, List.take_append_drop]; exact s.known

/-- Append and trim: the entry's id, and the stream after it. With a cap of `maxlen` at most the
entries above it may go, and fewer may. -/
def addCapped (s : Stream α) (maxlen k : Nat) (payload : α) : Nat × Stream α :=
  let s' := s.add payload
  (s.lastId + 1, s'.trim (min k (s'.entries.length - maxlen)))

/-! ## The consumer group -/

/-- Create the group at the start of the stream; it may exist already. -/
def createGroup (s : Stream α) : Option (Stream α) :=
  match s.group with
  | some _ => none
  | none => some { s with
      group := some ⟨0, [], List.Pairwise.nil, by simp⟩
      read := by simp
      known := by simp }

/-- The stream with its group in another state. -/
def withGroup (s : Stream α) (g : Group) (hread : g.lastDelivered ≤ s.lastId)
    (hknown : ∀ p ∈ g.pending, ∃ e ∈ s.added, e.id = p.id) : Stream α :=
  { s with
    group := some g
    read := fun _ hg => Option.some.inj hg ▸ hread
    known := fun _ hg => Option.some.inj hg ▸ hknown }

/-- The entries the group was not given yet. -/
def unread (s : Stream α) (g : Group) : List (Entry α) := s.entries.filter fun e => g.lastDelivered < e.id

theorem unread_sorted (s : Stream α) (g : Group) : (s.unread g).Pairwise fun e f => e.id < f.id :=
  ((List.pairwise_append.1 s.sorted).2.1).filter _

/-- The id of the last entry of the list, `d` if there is none. -/
def lastIdOr (d : Nat) (es : List (Entry α)) : Nat :=
  match es.getLast? with
  | some e => e.id
  | none => d

theorem lastIdOr_cases (d : Nat) (es : List (Entry α)) :
    (lastIdOr d es = d ∧ es = []) ∨ ∃ e ∈ es, lastIdOr d es = e.id := by
  unfold lastIdOr
  cases h : es.getLast? with
  | none => exact Or.inl ⟨rfl, List.getLast?_eq_none_iff.1 h⟩
  | some e => exact Or.inr ⟨e, List.mem_of_getLast? h, rfl⟩

theorem le_lastIdOr (d : Nat) {es : List (Entry α)} (hs : es.Pairwise fun e f => e.id < f.id) :
    ∀ e ∈ es, e.id ≤ lastIdOr d es := by
  intro e he
  have hne := List.ne_nil_of_mem he
  have hl : lastIdOr d es = (es.getLast hne).id := by
    unfold lastIdOr
    rw [List.getLast?_eq_some_getLast hne]
  have hsplit := List.dropLast_append_getLast hne
  rw [← hsplit] at he hs
  rw [hl]
  rcases List.mem_append.1 he with he | he
  · exact ((List.pairwise_append.1 hs).2.2 e he _ (List.mem_singleton_self _)).le
  · rw [List.mem_singleton.1 he]

theorem le_lastIdOr_start {d : Nat} {es : List (Entry α)} (h : ∀ e ∈ es, d < e.id) : d ≤ lastIdOr d es := by
  rcases lastIdOr_cases d es with ⟨h', -⟩ | ⟨e, he, h'⟩
  · omega
  · have := h e he
    omega

theorem lt_of_mem_unread {s : Stream α} {g : Group} {e : Entry α} (h : e ∈ s.unread g) :
    g.lastDelivered < e.id := by
  simpa using (List.mem_filter.1 h).2

/-- Hand the next `count` unread entries to `consumer`. -/
def deliver (s : Stream α) (g : Group) (consumer now count : Nat) : Group where
  lastDelivered := lastIdOr g.lastDelivered ((s.unread g).take count)
  pending := g.pending ++ ((s.unread g).take count).map fun e => ⟨e.id, consumer, now, 1⟩
  sorted := by
    rw [List.pairwise_append]
    refine ⟨g.sorted, ?_, ?_⟩
    · rw [List.pairwise_map]
      exact (s.unread_sorted g).sublist (List.take_sublist ..)
    · intro p hp q hq
      obtain ⟨e, he, rfl⟩ := List.mem_map.1 hq
      exact lt_of_le_of_lt (g.delivered p hp) (lt_of_mem_unread (List.mem_of_mem_take he))
  delivered := by
    intro p hp
    rcases List.mem_append.1 hp with hp | hp
    · exact (g.delivered p hp).trans
        (le_lastIdOr_start fun e he => lt_of_mem_unread (List.mem_of_mem_take he))
    · obtain ⟨e, he, rfl⟩ := List.mem_map.1 hp
      exact le_lastIdOr _ ((s.unread_sorted g).sublist (List.take_sublist ..)) e he

theorem deliver_le_lastId (s : Stream α) {g : Group} (hg : g.lastDelivered ≤ s.lastId)
    (consumer now count : Nat) : (s.deliver g consumer now count).lastDelivered ≤ s.lastId := by
  rcases lastIdOr_cases g.lastDelivered ((s.unread g).take count) with ⟨h, -⟩ | ⟨e, he, h⟩
  · exact h.le.trans hg
  · have hmem := (List.mem_filter.1 (List.mem_of_mem_take he)).1
    exact h.le.trans (s.bounded e (List.mem_append_right _ hmem)).2

theorem deliver_known (s : Stream α) {g : Group} (hg : ∀ p ∈ g.pending, ∃ e ∈ s.added, e.id = p.id)
    (consumer now count : Nat) :
    ∀ p ∈ (s.deliver g consumer now count).pending, ∃ e ∈ s.added, e.id = p.id := by
  intro p hp
  rcases List.mem_append.1 hp with hp | hp
  · exact hg p hp
  · obtain ⟨e, he, rfl⟩ := List.mem_map.1 hp
    exact ⟨e, List.mem_append_right _ (List.mem_filter.1 (List.mem_of_mem_take he)).1, rfl⟩

/-- What `XREADGROUP >` hands to `consumer`, and the stream after it. -/
def readNew (s : Stream α) (consumer now count : Nat) : Except Missing (List (Entry α) × Stream α) :=
  match h : s.group with
  | none => .error .noGroup
  | some g => .ok ((s.unread g).take count,
      s.withGroup (s.deliver g consumer now count) (s.deliver_le_lastId (s.read g h) consumer now count)
        (s.deliver_known (s.known g h) consumer now count))

/-! ## Claiming -/

/-- What a claim does to the pending list. -/
structure Claim (α : Type) where
  pending : List Pending
  /-- The entries handed over, each with the number of this delivery. -/
  claimed : List (Entry α × Nat)
  /-- The ids taken off the list because the stream holds them no more. -/
  deleted : List Nat

/-- Walk the pending list from the oldest entry on, over at most `attempts` of them and until
`count` are claimed or deleted; entries that are not idle for `minIdle` are passed over. -/
def claimFrom (find : Nat → Option (Entry α)) (consumer now minIdle : Nat) :
    Nat → Nat → List Pending → Claim α
  | attempts + 1, count + 1, p :: ps =>
    match find p.id with
    | none =>
      -- a deleted entry counts against `count` like one that is handed over
      let r := claimFrom find consumer now minIdle attempts count ps
      { r with deleted := p.id :: r.deleted }
    | some e =>
      if now - p.deliveredAt < minIdle then
        let r := claimFrom find consumer now minIdle attempts (count + 1) ps
        { r with pending := p :: r.pending }
      else
        let r := claimFrom find consumer now minIdle attempts count ps
        { r with
          pending := ⟨p.id, consumer, now, p.timesDelivered + 1⟩ :: r.pending
          claimed := (e, p.timesDelivered + 1) :: r.claimed }
  | _, _, ps => ⟨ps, [], []⟩

/-- What one claim may do to the entries of a pending list. -/
structure ClaimSpec (find : Nat → Option (Entry α)) (ps : List Pending) (r : Claim α) : Prop where
  ids : (r.pending.map Pending.id).Sublist (ps.map Pending.id)
  kept : ∀ p ∈ ps, p.id ∈ r.deleted ∨ ∃ p' ∈ r.pending, p'.id = p.id
  grown : ∀ p' ∈ r.pending, ∃ p ∈ ps, p.id = p'.id ∧ p.timesDelivered ≤ p'.timesDelivered
  gone : ∀ id ∈ r.deleted, find id = none ∧ ∃ p ∈ ps, p.id = id
  taken : ∀ c ∈ r.claimed, ∃ p ∈ ps, find p.id = some c.1 ∧ p.timesDelivered < c.2 ∧
    ∃ p' ∈ r.pending, p'.id = p.id ∧ p'.timesDelivered = c.2

theorem ClaimSpec.nothing (find : Nat → Option (Entry α)) (ps : List Pending) :
    ClaimSpec find ps ⟨ps, [], []⟩ where
  ids := List.Sublist.refl _
  kept := fun p hp => Or.inr ⟨p, hp, rfl⟩
  grown := fun p hp => ⟨p, hp, rfl, le_rfl⟩
  gone := by simp
  taken := by simp

section ClaimSpec

variable {find : Nat → Option (Entry α)} {ps : List Pending} {r : Claim α} {p : Pending} {e : Entry α}

/-- A reference whose entry the stream no longer holds goes. -/
theorem ClaimSpec.cons_gone (h : ClaimSpec find ps r) (hfind : find p.id = none) :
    ClaimSpec find (p :: ps) { r with deleted := p.id :: r.deleted } := by
  constructor
  · exact h.ids.cons _
  · intro q hq
    rcases List.mem_cons.1 hq with rfl | hq
    · exact Or.inl (List.mem_cons_self ..)
    · exact (h.kept q hq).imp_left (List.mem_cons_of_mem _)
  · intro q hq
    obtain ⟨q', hq', hle⟩ := h.grown q hq
    exact ⟨q', List.mem_cons_of_mem _ hq', hle⟩
  · intro id hid
    rcases List.mem_cons.1 hid with rfl | hid
    · exact ⟨hfind, p, List.mem_cons_self .., rfl⟩
    · obtain ⟨hnone, q, hq, heq⟩ := h.gone id hid
      exact ⟨hnone, q, List.mem_cons_of_mem _ hq, heq⟩
  · intro c hc
    obtain ⟨q, hq, htaken⟩ := h.taken c hc
    exact ⟨q, List.mem_cons_of_mem _ hq, htaken⟩

/-- One that is not idle for long enough stays. -/
theorem ClaimSpec.cons_fresh (h : ClaimSpec find ps r) :
    ClaimSpec find (p :: ps) { r with pending := p :: r.pending } := by
  constructor
  · exact h.ids.cons_cons _
  · intro q hq
    rcases List.mem_cons.1 hq with rfl | hq
    · exact Or.inr ⟨q, List.mem_cons_self .., rfl⟩
    · exact (h.kept q hq).imp_right fun ⟨q', hq', heq⟩ => ⟨q', List.mem_cons_of_mem _ hq', heq⟩
  · intro q hq
    rcases List.mem_cons.1 hq with rfl | hq
    · exact ⟨q, List.mem_cons_self .., rfl, le_rfl⟩
    · obtain ⟨q', hq', hle⟩ := h.grown q hq
      exact ⟨q', List.mem_cons_of_mem _ hq', hle⟩
  · intro id hid
    obtain ⟨hnone, q, hq, heq⟩ := h.gone id hid
    exact ⟨hnone, q, List.mem_cons_of_mem _ hq, heq⟩
  · intro c hc
    obtain ⟨q, hq, hfind, hless, q', hq', heq⟩ := h.taken c hc
    exact ⟨q, List.mem_cons_of_mem _ hq, hfind, hless, q', List.mem_cons_of_mem _ hq', heq⟩

/-- One that is handed over stays, too, with one delivery more. -/
theorem ClaimSpec.cons_taken (h : ClaimSpec find ps r) (hfind : find p.id = some e) (owner deliveredAt : Nat) :
    ClaimSpec find (p :: ps) { r with
      pending := ⟨p.id, owner, deliveredAt, p.timesDelivered + 1⟩ :: r.pending
      claimed := (e, p.timesDelivered + 1) :: r.claimed } := by
  constructor
  · exact h.ids.cons_cons _
  · intro q hq
    rcases List.mem_cons.1 hq with rfl | hq
    · exact Or.inr ⟨_, List.mem_cons_self .., rfl⟩
    · exact (h.kept q hq).imp_right fun ⟨q', hq', heq⟩ => ⟨q', List.mem_cons_of_mem _ hq', heq⟩
  · intro q hq
    rcases List.mem_cons.1 hq with rfl | hq
    · exact ⟨p, List.mem_cons_self .., rfl, Nat.le_succ _⟩
    · obtain ⟨q', hq', hle⟩ := h.grown q hq
      exact ⟨q', List.mem_cons_of_mem _ hq', hle⟩
  · intro id hid
    obtain ⟨hnone, q, hq, heq⟩ := h.gone id hid
    exact ⟨hnone, q, List.mem_cons_of_mem _ hq, heq⟩
  · intro c hc
    rcases List.mem_cons.1 hc with rfl | hc
    · exact ⟨p, List.mem_cons_self .., hfind, Nat.lt_succ_self _, _, List.mem_cons_self .., rfl, rfl⟩
    · obtain ⟨q, hq, hfound, hless, q', hq', heq⟩ := h.taken c hc
      exact ⟨q, List.mem_cons_of_mem _ hq, hfound, hless, q', List.mem_cons_of_mem _ hq', heq⟩

/-- What is left pending and what is handed over lies where the pending list does. -/
theorem ClaimSpec.pending_after (h : ClaimSpec find ps r) {n : Nat} (hps : ∀ q ∈ ps, n < q.id) :
    ∀ q ∈ r.pending, n < q.id := by
  intro q hq
  obtain ⟨q', hq', heq, -⟩ := h.grown q hq
  rw [← heq]
  exact hps q' hq'

theorem ClaimSpec.claimed_after (h : ClaimSpec find ps r) (hid : ∀ id e, find id = some e → e.id = id)
    {n : Nat} (hps : ∀ q ∈ ps, n < q.id) : ∀ c ∈ r.claimed, n < c.1.id := by
  intro c hc
  obtain ⟨q, hq, hfind, -⟩ := h.taken c hc
  rw [hid _ _ hfind]
  exact hps q hq

end ClaimSpec

theorem claimFrom_spec (find : Nat → Option (Entry α)) (consumer now minIdle : Nat) :
    ∀ (attempts count : Nat) (ps : List Pending),
      ClaimSpec find ps (claimFrom find consumer now minIdle attempts count ps)
  | 0, _, ps => ClaimSpec.nothing find ps
  | _ + 1, 0, ps => ClaimSpec.nothing find ps
  | _ + 1, _ + 1, [] => ClaimSpec.nothing find []
  | attempts + 1, count + 1, p :: ps => by
    unfold claimFrom
    split
    · rename_i hfind
      exact (claimFrom_spec find consumer now minIdle attempts count ps).cons_gone hfind
    · rename_i e hfind
      split
      · exact (claimFrom_spec find consumer now minIdle attempts (count + 1) ps).cons_fresh
      · exact (claimFrom_spec find consumer now minIdle attempts count ps).cons_taken hfind consumer now

/-- What a claim hands over the consumer owns, with the number of this delivery as its count. -/
theorem owned_claimFrom (find : Nat → Option (Entry α)) (consumer now minIdle : Nat) :
    ∀ (attempts count : Nat) (ps : List Pending),
      ∀ c ∈ (claimFrom find consumer now minIdle attempts count ps).claimed,
        ∃ p ∈ (claimFrom find consumer now minIdle attempts count ps).pending,
          find p.id = some c.1 ∧ p.owner = consumer ∧ p.timesDelivered = c.2
  | 0, _, ps => by rintro c ⟨⟩
  | _ + 1, 0, ps => by rintro c ⟨⟩
  | _ + 1, _ + 1, [] => by rintro c ⟨⟩
  | attempts + 1, count + 1, p :: ps => by
    unfold claimFrom
    split
    · exact owned_claimFrom find consumer now minIdle attempts count ps
    · rename_i e hfind
      split
      · intro c hc
        obtain ⟨q, hq, h⟩ := owned_claimFrom find consumer now minIdle attempts (count + 1) ps c hc
        exact ⟨q, List.mem_cons_of_mem _ hq, h⟩
      · intro c hc
        rcases List.mem_cons.1 hc with rfl | hc
        · exact ⟨_, List.mem_cons_self .., hfind, rfl, rfl⟩
        · obtain ⟨q, hq, h⟩ := owned_claimFrom find consumer now minIdle attempts count ps c hc
          exact ⟨q, List.mem_cons_of_mem _ hq, h⟩

/-- The entries are handed over in the order of the pending list. -/
theorem sublist_claimFrom (find : Nat → Option (Entry α)) (hid : ∀ id e, find id = some e → e.id = id)
    (consumer now minIdle : Nat) : ∀ (attempts count : Nat) (ps : List Pending),
      ((claimFrom find consumer now minIdle attempts count ps).claimed.map fun c => c.1.id).Sublist
        (ps.map Pending.id)
  | 0, _, ps => List.nil_sublist _
  | _ + 1, 0, ps => List.nil_sublist _
  | _ + 1, _ + 1, [] => List.nil_sublist _
  | attempts + 1, count + 1, p :: ps => by
    unfold claimFrom
    split
    · exact (sublist_claimFrom find hid consumer now minIdle attempts count ps).cons _
    · rename_i e hfind
      split
      · exact (sublist_claimFrom find hid consumer now minIdle attempts (count + 1) ps).cons _
      · rw [List.map_cons, List.map_cons, hid _ _ hfind]
        exact (sublist_claimFrom find hid consumer now minIdle attempts count ps).cons_cons _

/-- A claim by `consumer` passes over this entry although it is the consumer's: the stream holds it, but it
is not idle for `minIdle`. -/
def passesOver (find : Nat → Option (Entry α)) (consumer now minIdle : Nat) (p : Pending) : Bool :=
  p.owner = consumer && (find p.id).isSome && now - p.deliveredAt < minIdle

/-- In front of an entry that is handed over the consumer has what the claim passes over, and the other
entries that are handed over. -/
theorem countP_claimFrom (find : Nat → Option (Entry α)) (hid : ∀ id e, find id = some e → e.id = id)
    (consumer now minIdle : Nat) :
    ∀ (attempts count : Nat) (ps : List Pending), (ps.Pairwise fun p q => p.id < q.id) →
      ∀ c ∈ (claimFrom find consumer now minIdle attempts count ps).claimed,
        (claimFrom find consumer now minIdle attempts count ps).pending.countP
            (fun p => p.id < c.1.id && p.owner = consumer) =
          ps.countP (fun p => p.id < c.1.id && passesOver find consumer now minIdle p) +
            (claimFrom find consumer now minIdle attempts count ps).claimed.countP (fun d => d.1.id < c.1.id)
  | 0, _, ps, _ => by rintro c ⟨⟩
  | _ + 1, 0, ps, _ => by rintro c ⟨⟩
  | _ + 1, _ + 1, [], _ => by rintro c ⟨⟩
  | attempts + 1, count + 1, p :: ps, hs => by
    obtain ⟨hp, hps⟩ := List.pairwise_cons.1 hs
    unfold claimFrom
    split
    · rename_i hfind
      intro c hc
      have ih := countP_claimFrom find hid consumer now minIdle attempts count ps hps c hc
      simp [passesOver, hfind, ih]
    · rename_i e hfind
      split
      · rename_i hfresh
        intro c hc
        have ih := countP_claimFrom find hid consumer now minIdle attempts (count + 1) ps hps c hc
        simp only [List.countP_cons, ih]
        simp [passesOver, hfind, hfresh]
        omega
      · rename_i hidle
        intro c hc
        have heid := hid _ _ hfind
        have hspec := claimFrom_spec find consumer now minIdle attempts count ps
        rcases List.mem_cons.1 hc with rfl | hc
        · -- everything behind the entry has a greater id
          rw [← heid] at hp
          have hpending := hspec.pending_after hp
          have hclaimed := hspec.claimed_after hid hp
          rw [List.countP_eq_zero.2, List.countP_eq_zero.2, List.countP_eq_zero.2]
          · intro d hd
            rcases List.mem_cons.1 hd with rfl | hd
            · simp
            · simpa using (hclaimed d hd).le
          · intro q hq
            rcases List.mem_cons.1 hq with rfl | hq
            · simp [heid]
            · simp [(hp q hq).not_gt]
          · intro q hq
            rcases List.mem_cons.1 hq with rfl | hq
            · simp [heid]
            · simp [(hpending q hq).not_gt]
        · have ih := countP_claimFrom find hid consumer now minIdle attempts count ps hps c hc
          simp only [List.countP_cons, ih]
          simp [passesOver, hfind, hidle, heid]
          omega

/-- Idle for `minIdle`. -/
def stale (now minIdle : Nat) (p : Pending) : Bool := !decide (now - p.deliveredAt < minIdle)

/-- A claim that gets to this entry answers with it: it is stale, or the stream holds it no more. -/
def answerable (find : Nat → Option (Entry α)) (now minIdle : Nat) (p : Pending) : Bool :=
  (find p.id).isNone || stale now minIdle p

/-- A claim answers with the first `count` entries among its first `attempts` that it can answer with,
whether it hands them over or tells that they are gone. -/
theorem answered_claimFrom (find : Nat → Option (Entry α)) (hid : ∀ id e, find id = some e → e.id = id)
    (consumer now minIdle : Nat) : ∀ (attempts count : Nat) (ps : List Pending),
      ((claimFrom find consumer now minIdle attempts count ps).claimed.map (fun c => c.1.id) ++
        (claimFrom find consumer now minIdle attempts count ps).deleted).Perm
        ((((ps.take attempts).filter (answerable find now minIdle)).take count).map Pending.id)
  | 0, _, ps => by simp [claimFrom]
  | _ + 1, 0, ps => by simp [claimFrom]
  | _ + 1, _ + 1, [] => by simp [claimFrom]
  | attempts + 1, count + 1, p :: ps => by
    rw [List.take_succ_cons]
    unfold claimFrom
    split
    · rename_i hfind
      have ih := answered_claimFrom find hid consumer now minIdle attempts count ps
      rw [List.filter_cons_of_pos (by simp [answerable, hfind]), List.take_succ_cons, List.map_cons]
      exact List.perm_middle.trans (ih.cons _)
    · rename_i e hfind
      split
      · rename_i hfresh
        have ih := answered_claimFrom find hid consumer now minIdle attempts (count + 1) ps
        rw [List.filter_cons_of_neg (by simp [answerable, stale, hfind, hfresh])]
        exact ih
      · rename_i hidle
        have ih := answered_claimFrom find hid consumer now minIdle attempts count ps
        rw [List.filter_cons_of_pos (by simp [answerable, stale, hfind, hidle]), List.take_succ_cons,
          List.map_cons, List.map_cons, hid _ _ hfind]
        exact ih.cons _

/-- The entry with this id, if the stream still holds it. -/
def find (s : Stream α) (id : Nat) : Option (Entry α) := s.entries.find? fun e => e.id = id

/-- A claim examines at most ten pending entries for every entry it may answer. -/
def claim (s : Stream α) (g : Group) (consumer now minIdle count : Nat) : Claim α :=
  claimFrom s.find consumer now minIdle (10 * count) count g.pending

theorem claim_spec (s : Stream α) (g : Group) (consumer now minIdle count : Nat) :
    ClaimSpec s.find g.pending (s.claim g consumer now minIdle count) :=
  claimFrom_spec _ _ _ _ _ _ _

def claimGroup (s : Stream α) (g : Group) (consumer now minIdle count : Nat) : Group where
  lastDelivered := g.lastDelivered
  pending := (s.claim g consumer now minIdle count).pending
  sorted := List.pairwise_map.1 ((List.pairwise_map.2 g.sorted).sublist (s.claim_spec ..).ids)
  delivered := by
    intro p hp
    obtain ⟨q, hq, h, -⟩ := (s.claim_spec g consumer now minIdle count).grown p hp
    exact h ▸ g.delivered q hq

/-- How many of the consumer's own entries in front of this id a claim passes over. -/
def passedOver (s : Stream α) (g : Group) (consumer now minIdle id : Nat) : Nat :=
  g.pending.countP fun p => p.id < id && passesOver s.find consumer now minIdle p

theorem find_id (s : Stream α) (id : Nat) (e : Entry α) (h : s.find id = some e) : e.id = id := by
  simpa using List.find?_some h

theorem ahead_claimGroup (s : Stream α) (g : Group) {consumer now minIdle count : Nat} {c : Entry α × Nat}
    (hc : c ∈ (s.claim g consumer now minIdle count).claimed) :
    (s.claimGroup g consumer now minIdle count).ahead consumer c.1.id =
      s.passedOver g consumer now minIdle c.1.id +
        (s.claim g consumer now minIdle count).claimed.countP (fun d => d.1.id < c.1.id) := by
  unfold Group.ahead Group.ownedBy
  rw [List.countP_filter]
  exact countP_claimFrom s.find s.find_id consumer now minIdle (10 * count) count g.pending g.sorted c hc

/-- A claim hands each entry over once, the oldest first. -/
theorem claimed_sorted (s : Stream α) (g : Group) (consumer now minIdle count : Nat) :
    (s.claim g consumer now minIdle count).claimed.Pairwise fun c d => c.1.id < d.1.id :=
  List.pairwise_map.1 ((List.pairwise_map.2 g.sorted).sublist
    (sublist_claimFrom s.find s.find_id consumer now minIdle (10 * count) count g.pending))

/-- The pending entries a claim looks at. -/
def window (g : Group) (count : Nat) : List Pending := g.pending.take (10 * count)

theorem answered_claim (s : Stream α) (g : Group) (consumer now minIdle count : Nat) :
    ((s.claim g consumer now minIdle count).claimed.map (fun c => c.1.id) ++
      (s.claim g consumer now minIdle count).deleted).Perm
      ((((window g count).filter (answerable s.find now minIdle)).take count).map Pending.id) :=
  answered_claimFrom s.find s.find_id consumer now minIdle (10 * count) count g.pending

/-- A claim with room left has answered with all it can answer with in its window. -/
theorem answered_claim_of_lt {s : Stream α} {g : Group} {consumer now minIdle count : Nat}
    (h : (s.claim g consumer now minIdle count).claimed.length +
      (s.claim g consumer now minIdle count).deleted.length < count) :
    ((s.claim g consumer now minIdle count).claimed.map (fun c => c.1.id) ++
      (s.claim g consumer now minIdle count).deleted).Perm
      (((window g count).filter (answerable s.find now minIdle)).map Pending.id) := by
  have hperm := s.answered_claim g consumer now minIdle count
  have hlen := hperm.length_eq
  simp only [List.length_append, List.length_map, List.length_take] at hlen
  rw [List.take_of_length_le (by omega)] at hperm
  exact hperm

theorem claimGroup_known (s : Stream α) {g : Group} (hg : ∀ p ∈ g.pending, ∃ e ∈ s.added, e.id = p.id)
    (consumer now minIdle count : Nat) :
    ∀ p ∈ (s.claimGroup g consumer now minIdle count).pending, ∃ e ∈ s.added, e.id = p.id := by
  intro p hp
  obtain ⟨q, hq, h, -⟩ := (s.claim_spec g consumer now minIdle count).grown p hp
  exact h ▸ hg q hq

/-- What `XAUTOCLAIM` hands to `consumer`, the ids it found trimmed away, and the stream after it. -/
def autoclaim (s : Stream α) (consumer now minIdle count : Nat) :
    Except Missing ((List (Entry α × Nat) × List Nat) × Stream α) :=
  match h : s.group with
  | none => .error .noGroup
  | some g =>
    let r := s.claim g consumer now minIdle count
    .ok ((r.claimed, r.deleted), s.withGroup (s.claimGroup g consumer now minIdle count) (s.read g h)
      (s.claimGroup_known (s.known g h) consumer now minIdle count))

/-! ## The other group commands -/

/-- `XPENDING` over one consumer's entries: the first `count` of them, with their delivery counts. -/
def pendingOf (s : Stream α) (consumer count : Nat) : Except Missing (List (Nat × Nat)) :=
  match s.group with
  | none => .error .noGroup
  | some g => .ok (((g.ownedBy consumer).take count).map fun p => (p.id, p.timesDelivered))

/-- `XACK`: a group that does not exist acknowledges nothing. -/
def ack (s : Stream α) (ids : List Nat) : Nat × Stream α :=
  match h : s.group with
  | none => (0, s)
  | some g => (g.pending.length - (g.ack ids).pending.length, s.withGroup (g.ack ids) (s.read g h)
      fun p hp => s.known g h p (Group.mem_of_mem_ack hp))

/-- What the group keeps about an entry it is waiting for. -/
def pendingEntry (s : Stream α) (id : Nat) : Option Pending :=
  s.group.bind fun g => g.pending.find? fun p => p.id = id

/-- An acknowledgement leaves the other entries as they are. -/
theorem pendingEntry_ack (s : Stream α) {ids : List Nat} {id : Nat} (h : id ∉ ids) :
    (s.ack ids).2.pendingEntry id = s.pendingEntry id := by
  have hfind : ∀ g : Group, (g.ack ids).pending.find? (fun p => p.id = id) = g.pending.find? fun p => p.id = id := by
    intro g
    unfold Group.ack
    rw [List.find?_filter]
    congr 1
    funext p
    by_cases hp : p.id = id
    · simp [hp, h]
    · simp [hp]
  unfold ack
  split
  · rfl
  · rename_i g hg
    have hs : s.pendingEntry id = g.pending.find? fun p => p.id = id := by
      unfold pendingEntry
      rw [hg]
      rfl
    rw [hs]
    exact hfind g

/-! ## Where an entry can be -/

/-- The group was not given the entry with this id yet. -/
def Unread (s : Stream α) (id : Nat) : Prop := ∀ g ∈ s.group, g.lastDelivered < id

def IsPending (s : Stream α) (id : Nat) : Prop := ∃ g ∈ s.group, g.isPending id

/-- No acknowledgement has taken the entry out of the group's hands. -/
def Open (s : Stream α) (id : Nat) : Prop := s.Unread id ∨ s.IsPending id

/-- Ids are never used twice. -/
theorem added_unique {s : Stream α} {e f : Entry α} (he : e ∈ s.added) (hf : f ∈ s.added)
    (h : e.id = f.id) : e = f := by
  have hnodup : (s.added.map Entry.id).Nodup := (List.pairwise_map.2 s.sorted).imp Nat.ne_of_lt
  exact List.inj_on_of_nodup_map hnodup he hf h

theorem mem_entries_of_find {s : Stream α} {id : Nat} {e : Entry α} (h : s.find id = some e) :
    e ∈ s.entries ∧ e.id = id :=
  ⟨List.mem_of_find?_eq_some h, by simpa using List.find?_some h⟩

theorem mem_dropped_of_find_none {s : Stream α} {e : Entry α} (he : e ∈ s.added)
    (h : s.find e.id = none) : e ∈ s.dropped := by
  rcases List.mem_append.1 he with he | he
  · exact he
  · exact absurd (decide_eq_true rfl) (List.find?_eq_none.1 h e he)

/-- How a stream may have changed: entries are only added and dropped, the group reads on, and
what it was given before is pending now only if it was pending then, with no smaller count. -/
structure Le (s s' : Stream α) : Prop where
  added : s.added <+: s'.added
  dropped : s.dropped <+: s'.dropped
  group : ∀ g ∈ s.group, ∃ g' ∈ s'.group, g.lastDelivered ≤ g'.lastDelivered ∧
    ∀ p' ∈ g'.pending, p'.id ≤ g.lastDelivered →
      ∃ p ∈ g.pending, p.id = p'.id ∧ p.timesDelivered ≤ p'.timesDelivered

theorem Le.refl (s : Stream α) : Le s s where
  added := List.prefix_rfl
  dropped := List.prefix_rfl
  group := fun g hg => ⟨g, hg, le_rfl, fun p hp _ => ⟨p, hp, rfl, le_rfl⟩⟩

theorem Le.trans {s t u : Stream α} (h : Le s t) (h' : Le t u) : Le s u where
  added := h.added.trans h'.added
  dropped := h.dropped.trans h'.dropped
  group := by
    intro g hg
    obtain ⟨g₁, hg₁, hlast, hpend⟩ := h.group g hg
    obtain ⟨g₂, hg₂, hlast', hpend'⟩ := h'.group g₁ hg₁
    refine ⟨g₂, hg₂, hlast.trans hlast', fun p₂ hp₂ hid => ?_⟩
    obtain ⟨p₁, hp₁, hid₁, hle₁⟩ := hpend' p₂ hp₂ (hid.trans hlast)
    obtain ⟨p, hp, hid₀, hle₀⟩ := hpend p₁ hp₁ (hid₁ ▸ hid)
    exact ⟨p, hp, hid₀.trans hid₁, hle₀.trans hle₁⟩

/-- A step of the group on a stream whose entries stay as they are. -/
theorem Le.withGroup {s : Stream α} {g g' : Group} (hread : g'.lastDelivered ≤ s.lastId)
    (hknown : ∀ p ∈ g'.pending, ∃ e ∈ s.added, e.id = p.id) (hg : s.group = some g)
    (hlast : g.lastDelivered ≤ g'.lastDelivered)
    (hpend : ∀ p' ∈ g'.pending, p'.id ≤ g.lastDelivered →
      ∃ p ∈ g.pending, p.id = p'.id ∧ p.timesDelivered ≤ p'.timesDelivered) :
    Le s (s.withGroup g' hread hknown) where
  added := List.prefix_rfl
  dropped := List.prefix_rfl
  group := by
    intro g₀ hg₀
    obtain rfl : g = g₀ := Option.some.inj (hg.symm.trans hg₀)
    exact ⟨g', rfl, hlast, hpend⟩

section Added

variable (s : Stream α) (maxlen k : Nat) (payload : α)

theorem added_addCapped : (s.addCapped maxlen k payload).2.added = s.added ++ [⟨s.lastId + 1, payload⟩] := by
  unfold addCapped added trim add
  simp

theorem entries_addCapped : (s.addCapped maxlen k payload).2.entries =
    (s.entries ++ [Entry.mk (s.lastId + 1) payload]).drop (min k (s.entries.length + 1 - maxlen)) := by
  unfold addCapped trim add
  simp

variable {s maxlen k payload} in
/-- The newest entry outlives its own trim if that is short of it. -/
theorem newest_mem_addCapped (h : min k (s.entries.length + 1 - maxlen) ≤ s.entries.length) :
    Entry.mk (s.lastId + 1) payload ∈ (s.addCapped maxlen k payload).2.entries := by
  rw [entries_addCapped, List.drop_append_of_le_length h]
  exact List.mem_append_right _ (List.mem_singleton_self _)

variable {s maxlen k payload} in
/-- A trim that reaches the newest entry leaves none. -/
theorem entries_addCapped_eq_nil (h : s.entries.length < min k (s.entries.length + 1 - maxlen)) :
    (s.addCapped maxlen k payload).2.entries = [] := by
  rw [entries_addCapped, List.drop_eq_nil_iff, List.length_append, List.length_singleton]
  omega

theorem Le.addCapped : Le s (s.addCapped maxlen k payload).2 where
  added := by rw [added_addCapped]; exact List.prefix_append ..
  dropped := List.prefix_append ..
  group := fun g hg => ⟨g, hg, le_rfl, fun p hp _ => ⟨p, hp, rfl, le_rfl⟩⟩

theorem open_addCapped {id : Nat} : (s.addCapped maxlen k payload).2.Open id ↔ s.Open id := Iff.rfl

/-- A new entry is unread. -/
theorem unread_addCapped : (s.addCapped maxlen k payload).2.Unread (s.lastId + 1) :=
  fun g hg => Nat.lt_succ_of_le (s.read g hg)

end Added

theorem Le.createGroup {s s' : Stream α} (h : s.createGroup = some s') : Le s s' := by
  unfold Stream.createGroup at h
  split at h
  · cases h
  · rename_i hg
    rw [← Option.some.inj h]
    exact ⟨List.prefix_rfl, List.prefix_rfl, by simp [hg]⟩

theorem open_createGroup {s s' : Stream α} {e : Entry α} (h : s.createGroup = some s')
    (he : e ∈ s.added) : s'.Open e.id := by
  unfold createGroup at h
  split at h
  · cases h
  · rw [← Option.some.inj h]
    refine Or.inl fun g hg => ?_
    rw [← Option.some.inj hg]
    exact (s.bounded e he).1

/-- Reading takes entries that the stream holds from unread to pending. -/
theorem open_readNew {s s' : Stream α} {consumer now count : Nat} {es : List (Entry α)} {e : Entry α}
    (h : s.readNew consumer now count = .ok (es, s')) (he : e ∈ s.entries) (ho : s.Open e.id) :
    s'.Open e.id := by
  unfold readNew at h
  split at h
  · cases h
  · rename_i g hg
    obtain ⟨rfl, rfl⟩ := Prod.mk.inj (Except.ok.inj h)
    rcases ho with hu | ⟨g₀, hg₀, p, hp, hid⟩
    · have hmem : e ∈ s.unread g := List.mem_filter.2 ⟨he, by simpa using hu g hg⟩
      rw [← List.take_append_drop count (s.unread g)] at hmem
      rcases List.mem_append.1 hmem with hmem | hmem
      · exact Or.inr ⟨_, rfl, _, List.mem_append_right _ (List.mem_map.2 ⟨e, hmem, rfl⟩), rfl⟩
      · -- what was taken comes before the rest
        refine Or.inl fun g' hg' => ?_
        rw [← Option.some.inj hg']
        have hsorted := s.unread_sorted g
        rw [← List.take_append_drop count (s.unread g)] at hsorted
        show lastIdOr g.lastDelivered ((s.unread g).take count) < e.id
        rcases lastIdOr_cases g.lastDelivered ((s.unread g).take count) with ⟨h', -⟩ | ⟨f, hf, h'⟩
        · rw [h']
          exact lt_of_mem_unread (List.mem_of_mem_drop hmem)
        · rw [h']
          exact (List.pairwise_append.1 hsorted).2.2 f hf e hmem
    · obtain rfl : g = g₀ := Option.some.inj (hg.symm.trans hg₀)
      exact Or.inr ⟨_, rfl, p, List.mem_append_left _ hp, hid⟩

theorem Le.readNew {s s' : Stream α} {consumer now count : Nat} {es : List (Entry α)}
    (h : s.readNew consumer now count = .ok (es, s')) : Le s s' := by
  unfold Stream.readNew at h
  split at h
  · cases h
  · rename_i g hg
    obtain ⟨rfl, rfl⟩ := Prod.mk.inj (Except.ok.inj h)
    refine Le.withGroup _ _ hg (le_lastIdOr_start fun e he => lt_of_mem_unread (List.mem_of_mem_take he)) ?_
    intro p hp hid
    rcases List.mem_append.1 hp with hp | hp
    · exact ⟨p, hp, rfl, le_rfl⟩
    · -- what is newly pending was unread, so its id is above the last one delivered before
      obtain ⟨e, he, rfl⟩ := List.mem_map.1 hp
      exact absurd (lt_of_mem_unread (List.mem_of_mem_take he)) (Nat.not_lt.2 hid)

theorem added_readNew {s s' : Stream α} {consumer now count : Nat} {es : List (Entry α)}
    (h : s.readNew consumer now count = .ok (es, s')) : s'.added = s.added ∧ s'.dropped = s.dropped := by
  unfold readNew at h
  split at h
  · cases h
  · obtain ⟨-, rfl⟩ := Prod.mk.inj (Except.ok.inj h)
    exact ⟨rfl, rfl⟩

/-- What is read are entries of the stream. -/
theorem mem_readNew {s s' : Stream α} {consumer now count : Nat} {es : List (Entry α)} {e : Entry α}
    (h : s.readNew consumer now count = .ok (es, s')) (he : e ∈ es) : e ∈ s.added := by
  unfold readNew at h
  split at h
  · cases h
  · obtain ⟨rfl, rfl⟩ := Prod.mk.inj (Except.ok.inj h)
    exact List.mem_append_right _ (List.mem_filter.1 (List.mem_of_mem_take he)).1

section Autoclaim

variable {s s' : Stream α} {consumer now minIdle count : Nat} {claimed : List (Entry α × Nat)}
  {deleted : List Nat} (h : s.autoclaim consumer now minIdle count = .ok ((claimed, deleted), s'))
include h

theorem autoclaim_group : ∃ g, s.group = some g ∧ ∃ g', s'.group = some g' ∧
    g'.lastDelivered = g.lastDelivered ∧ s'.dropped = s.dropped ∧ s'.entries = s.entries ∧
    ClaimSpec s.find g.pending ⟨g'.pending, claimed, deleted⟩ := by
  unfold autoclaim at h
  split at h
  · cases h
  · rename_i g hg
    have hspec := s.claim_spec g consumer now minIdle count
    obtain ⟨hr, rfl⟩ := Prod.mk.inj (Except.ok.inj h)
    obtain ⟨rfl, rfl⟩ := Prod.mk.inj hr
    exact ⟨g, hg, _, rfl, rfl, rfl, rfl, hspec⟩

theorem Le.autoclaim : Le s s' := by
  obtain ⟨g, hg, g', hg', hlast, hd, he, hspec⟩ := autoclaim_group h
  have hadded : s'.added = s.added := by
    unfold Stream.added
    rw [hd, he]
  refine ⟨hadded ▸ List.prefix_rfl, hd ▸ List.prefix_rfl, ?_⟩
  intro g₀ hg₀
  obtain rfl : g = g₀ := Option.some.inj (hg.symm.trans hg₀)
  exact ⟨g', hg', hlast.ge, fun p hp _ => hspec.grown p hp⟩

/-- A claim keeps every entry that it does not report as deleted. -/
theorem open_autoclaim {id : Nat} (ho : s.Open id) : s'.Open id ∨ id ∈ deleted := by
  obtain ⟨g, hg, g', hg', hlast, -, -, hspec⟩ := autoclaim_group h
  rcases ho with hu | ⟨g₀, hg₀, p, hp, rfl⟩
  · refine Or.inl (Or.inl fun g₁ hg₁ => ?_)
    obtain rfl : g' = g₁ := Option.some.inj (hg'.symm.trans hg₁)
    rw [hlast]
    exact hu g hg
  · obtain rfl : g = g₀ := Option.some.inj (hg.symm.trans hg₀)
    rcases hspec.kept p hp with hdel | ⟨p', hp', hid⟩
    · exact Or.inr hdel
    · exact Or.inl (Or.inr ⟨g', hg', p', hp', hid⟩)

/-- What a claim reports as deleted was trimmed away. -/
theorem deleted_autoclaim {id : Nat} (hid : id ∈ deleted) : ∃ e ∈ s'.dropped, e.id = id := by
  obtain ⟨g, hg, g', -, -, hd, -, hspec⟩ := autoclaim_group h
  obtain ⟨hfind, p, hp, rfl⟩ := hspec.gone id hid
  -- a pending entry was added once, so what the stream holds no more it has dropped
  obtain ⟨e, he, hid⟩ := s.known g hg p hp
  rw [hd]
  exact ⟨e, mem_dropped_of_find_none he (by rw [hid]; exact hfind), hid⟩

/-- What a claim hands over are entries of the stream, pending with the count it was given. -/
theorem claimed_autoclaim {c : Entry α × Nat} (hc : c ∈ claimed) :
    c.1 ∈ s'.added ∧ ∃ g' ∈ s'.group, ∃ p ∈ g'.pending, p.id = c.1.id ∧ p.timesDelivered = c.2 := by
  obtain ⟨g, -, g', hg', -, hd, he, hspec⟩ := autoclaim_group h
  obtain ⟨p, -, hfind, -, p', hp', hid, htimes⟩ := hspec.taken c hc
  obtain ⟨hmem, hcid⟩ := mem_entries_of_find hfind
  refine ⟨?_, g', hg', p', hp', hid.trans hcid.symm, htimes⟩
  unfold added
  rw [he]
  exact List.mem_append_right _ hmem

end Autoclaim

/-- `XPENDING` tells delivery counts of pending entries. -/
theorem mem_pendingOf {s : Stream α} {consumer count : Nat} {answer : List (Nat × Nat)} {g : Group}
    {a : Nat × Nat} (h : s.pendingOf consumer count = .ok answer) (hg : g ∈ s.group) (ha : a ∈ answer) :
    ∃ p ∈ g.pending, p.id = a.1 ∧ p.timesDelivered = a.2 := by
  unfold pendingOf at h
  split at h
  · cases h
  · rename_i g₀ hg₀
    obtain rfl : g₀ = g := Option.some.inj (hg₀.symm.trans hg)
    rw [← Except.ok.inj h] at ha
    obtain ⟨p, hp, rfl⟩ := List.mem_map.1 ha
    exact ⟨p, (List.mem_filter.1 (List.mem_of_mem_take hp)).1, rfl, rfl⟩

theorem open_ack {s : Stream α} {ids : List Nat} {id : Nat} (ho : s.Open id) (hid : id ∉ ids) :
    (s.ack ids).2.Open id := by
  unfold ack
  split
  · exact ho
  · rename_i g hg
    rcases ho with hu | ⟨g₀, hg₀, hp⟩
    · refine Or.inl fun g' hg' => ?_
      rw [← Option.some.inj hg']
      exact hu g hg
    · obtain rfl : g = g₀ := Option.some.inj (hg.symm.trans hg₀)
      exact Or.inr ⟨_, rfl, g.isPending_ack.2 ⟨hp, hid⟩⟩

theorem not_isPending_ack {s : Stream α} {ids : List Nat} {id : Nat} (h : id ∈ ids) :
    ¬(s.ack ids).2.IsPending id := by
  unfold ack
  split
  · rename_i hg
    rintro ⟨g, hg', -⟩
    exact absurd (hg.symm.trans hg') (by simp)
  · rename_i g hg
    rintro ⟨g', hg', hp⟩
    rw [← Option.some.inj hg'] at hp
    exact (g.isPending_ack.1 hp).2 h

theorem Le.ack (s : Stream α) (ids : List Nat) : Le s (s.ack ids).2 := by
  unfold Stream.ack
  split
  · exact Le.refl s
  · rename_i g hg
    have hread : (g.ack ids).lastDelivered ≤ s.lastId := s.read g hg
    have hknown : ∀ p ∈ (g.ack ids).pending, ∃ e ∈ s.added, e.id = p.id :=
      fun p hp => s.known g hg p (Group.mem_of_mem_ack hp)
    exact Le.withGroup hread hknown hg le_rfl fun p hp _ => ⟨p, Group.mem_of_mem_ack hp, rfl, le_rfl⟩

theorem added_ack (s : Stream α) (ids : List Nat) :
    (s.ack ids).2.added = s.added ∧ (s.ack ids).2.dropped = s.dropped := by
  unfold ack
  split <;> exact ⟨rfl, rfl⟩

/-- An entry the group is done with stays so. -/
theorem not_open_of_le {s s' : Stream α} (h : Le s s') {id : Nat} (hid : ¬s.Open id) : ¬s'.Open id := by
  obtain ⟨g, hg, hread⟩ : ∃ g ∈ s.group, id ≤ g.lastDelivered := by
    by_contra hnone
    refine hid (Or.inl fun g hg => ?_)
    by_contra hle
    exact hnone ⟨g, hg, not_lt.1 hle⟩
  obtain ⟨g', hg', hlast, hpend⟩ := h.group g hg
  rintro (hunread | ⟨g'', hg'', p', hp', rfl⟩)
  · exact absurd (hunread g' hg') (not_lt.2 (hread.trans hlast))
  · obtain rfl := Option.some.inj (hg'.symm.trans hg'')
    obtain ⟨p, hp, hpid, -⟩ := hpend p' hp' hread
    exact hid (Or.inr ⟨g, hg, p, hp, hpid⟩)

end Stream

end Store
