/-
What the group hands over, seen in the history. A read hands over entries nobody was given before, a claim
hands over pending entries once more; so each delivery of an entry has a larger number than those before it,
and an entry that the group is done with is never handed over again.
-/
import EventService.Run.Histories

namespace App

open Prog Store

variable {P : Type} {S : Service P} {w w' : World P}

/-- The entries a call handed over, each with the number of this delivery. -/
def delivered (call : Call (@Op.Reply P)) : List (Nat × Nat) :=
  match call with
  | ⟨.xreadgroup _ _, .ok entries⟩ => entries.map fun e => (e.id, 1)
  | ⟨.xautoclaim _ _ _, .ok r⟩ => r.1.map fun c => (c.1.id, c.2)
  | ⟨_, _⟩ => []

/-- The deliveries of a history, in their order. -/
def deliveries (log : List (Event P)) : List (Nat × Nat) := log.flatMap fun ev => delivered ev.call

/-! ## One call -/

/-- Every pending entry was delivered. -/
def Tallied (w : World P) : Prop := ∀ g ∈ w.stream.group, ∀ p ∈ g.pending, 1 ≤ p.timesDelivered

/-- `XREADGROUP` that answers has delivered the next unread entries. -/
theorem exec_xreadgroup_ok {w₁ : World P} {consumer count : Nat} {c : Choice} {entries : List (Entry P)}
    (h : World.exec S (.xreadgroup consumer count) c w = some (.ok entries, w₁)) :
    ∃ g ∈ w.stream.group, entries = (w.stream.unread g).take count ∧
      w₁.stream.group = some (w.stream.deliver g consumer w.now count) := by
  have heq := Option.some.inj h
  unfold Choice.command at heq
  split at heq
  · unfold World.groupCommand Stream.readNew at heq
    split at heq
    · cases (Prod.mk.inj heq).1
    · rename_i hread
      split at hread
      · cases hread
      · rename_i g hg
        obtain ⟨hes, rfl⟩ := Prod.mk.inj (Except.ok.inj hread)
        obtain ⟨hreply, rfl⟩ := Prod.mk.inj heq
        exact ⟨g, hg, (Except.ok.inj hreply).symm.trans hes.symm, rfl⟩
  · cases (Prod.mk.inj heq).1
  · cases (Prod.mk.inj heq).1

theorem Tallied.ack (h : Tallied w) (ids : List Nat) :
    ∀ g ∈ (w.stream.ack ids).2.group, ∀ p ∈ g.pending, 1 ≤ p.timesDelivered := by
  intro g' hg' p hp
  unfold Stream.ack at hg'
  split at hg'
  · exact h g' hg' p hp
  · rename_i g hg
    rw [← Option.some.inj hg'] at hp
    exact h g hg p (Group.mem_of_mem_ack hp)

/-- Every call keeps it: a read delivers for the first time, a claim once more. -/
theorem tallied_of_exec {o : Op P} {c : Choice} {r : o.Reply} (h : Tallied w)
    (hexec : World.exec S o c w = some (r, w')) : Tallied w' := by
  rcases changed_of_exec hexec with rfl | hchanged
  · exact h
  · cases hchanged with
    | xgroupCreate hcreate =>
      intro g' hg' p hp
      unfold Stream.createGroup at hcreate
      split at hcreate
      · cases hcreate
      · obtain rfl := Option.some.inj hcreate
        rw [← Option.some.inj hg'] at hp
        cases hp
    | xreadgroup hread =>
      unfold Stream.readNew at hread
      split at hread
      · cases hread
      · rename_i g hg
        obtain ⟨-, rfl⟩ := Prod.mk.inj (Except.ok.inj hread)
        intro g' hg' p hp
        rw [← Option.some.inj hg'] at hp
        rcases List.mem_append.1 hp with hp | hp
        · exact h g hg p hp
        · obtain ⟨e, -, rfl⟩ := List.mem_map.1 hp
          exact le_rfl
    | xautoclaim hclaim =>
      obtain ⟨g, hg, g', hg', -, -, -, hspec⟩ := Stream.autoclaim_group hclaim
      intro g'' hg'' p hp
      obtain rfl := Option.some.inj (hg'.symm.trans hg'')
      obtain ⟨q, hq, -, htimes⟩ := hspec.grown p hp
      exact (h g hg q hq).trans htimes
    | xack => exact h.ack _
    | deadLetter k =>
      unfold World.deadLetterExec
      split
      · exact h.ack _
      · exact h.ack _
    | xadd | xpending | set | fetch | openSession | conflict | inserted | commit | close | record => exact h

/-- What a call that hands entries over says about the group before and after it. -/
structure HandedOver (w w' : World P) (ds : List (Nat × Nat)) : Prop where
  ascending : ds.Pairwise fun d d' => d.1 < d'.1
  counted : ∀ d ∈ ds, Counted w' d.1 d.2
  later : ∀ d ∈ ds, ∀ n, Counted w d.1 n → n < d.2
  first : ∀ d ∈ ds, d.2 = 1 → w.stream.Unread d.1
  opened : ∀ d ∈ ds, w.stream.Open d.1

theorem HandedOver.nothing (w w' : World P) : HandedOver w w' [] :=
  ⟨.nil, by simp, by simp, by simp, by simp⟩

theorem handedOver_read {consumer count : Nat} {c : Choice} {entries : List (Entry P)}
    (h : World.exec S (.xreadgroup consumer count) c w = some (.ok entries, w')) :
    HandedOver w w' (entries.map fun e => (e.id, 1)) := by
  obtain ⟨g, hg, rfl, hg'⟩ := exec_xreadgroup_ok h
  have hunread : ∀ e ∈ (w.stream.unread g).take count, w.stream.Unread e.id := by
    intro e he g₀ hg₀
    rw [← Option.some.inj (hg.symm.trans hg₀)]
    exact Stream.lt_of_mem_unread (List.mem_of_mem_take he)
  constructor
  · rw [List.pairwise_map]
    exact (w.stream.unread_sorted g).sublist (List.take_sublist ..)
  · intro d hd
    obtain ⟨e, he, rfl⟩ := List.mem_map.1 hd
    have hpending : (⟨e.id, consumer, w.now, 1⟩ : Pending) ∈ (w.stream.deliver g consumer w.now count).pending :=
      List.mem_append_right _ (List.mem_map.2 ⟨e, he, rfl⟩)
    refine ⟨_, hg', (w.stream.deliver g consumer w.now count).delivered _ hpending, fun p hp hid => ?_⟩
    rw [Group.pending_unique hp hpending hid]
  · rintro d hd n ⟨g₀, hg₀, hread, -⟩
    obtain ⟨e, he, rfl⟩ := List.mem_map.1 hd
    exact absurd (hunread e he g₀ hg₀) (not_lt.2 hread)
  · intro d hd _
    obtain ⟨e, he, rfl⟩ := List.mem_map.1 hd
    exact hunread e he
  · intro d hd
    obtain ⟨e, he, rfl⟩ := List.mem_map.1 hd
    exact Or.inl (hunread e he)

theorem handedOver_claim {consumer minIdle count : Nat} {c : Choice} {r : List (Entry P × Nat) × List Nat}
    (ht : Tallied w) (h : World.exec S (.xautoclaim consumer minIdle count) c w = some (.ok r, w')) :
    HandedOver w w' (r.1.map fun c => (c.1.id, c.2)) := by
  obtain ⟨g, hg, rfl, hg'⟩ := exec_xautoclaim_ok h
  have hspec := w.stream.claim_spec g consumer w.now minIdle count
  -- what is handed over was pending, and has been delivered once more
  have hclaimed : ∀ d ∈ (w.stream.claim g consumer w.now minIdle count).claimed, ∃ p ∈ g.pending, p.id = d.1.id ∧
      p.timesDelivered < d.2 ∧ ∃ p' ∈ (w.stream.claimGroup g consumer w.now minIdle count).pending,
        p'.id = d.1.id ∧ p'.timesDelivered = d.2 := by
    intro d hd
    obtain ⟨p, hp, hfind, hlt, p', hp', hid, htimes⟩ := hspec.taken d hd
    have heq := (Stream.mem_entries_of_find hfind).2
    exact ⟨p, hp, heq.symm, hlt, p', hp', hid.trans heq.symm, htimes⟩
  constructor
  · rw [List.pairwise_map]
    exact w.stream.claimed_sorted g consumer w.now minIdle count
  · intro d hd
    obtain ⟨x, hx, rfl⟩ := List.mem_map.1 hd
    obtain ⟨-, -, -, -, p', hp', hid, htimes⟩ := hclaimed x hx
    refine ⟨_, hg', hid ▸ (w.stream.claimGroup g consumer w.now minIdle count).delivered p' hp', fun q hq hqid => ?_⟩
    rw [Group.pending_unique hq hp' (hqid.trans hid.symm)]
    exact htimes.ge
  · rintro d hd n ⟨g₀, hg₀, -, hcount⟩
    obtain rfl := Option.some.inj (hg.symm.trans hg₀)
    obtain ⟨x, hx, rfl⟩ := List.mem_map.1 hd
    obtain ⟨p, hp, hid, hlt, -⟩ := hclaimed x hx
    exact (hcount p hp hid).trans_lt hlt
  · intro d hd hone
    obtain ⟨x, hx, rfl⟩ := List.mem_map.1 hd
    obtain ⟨p, hp, -, hlt, -⟩ := hclaimed x hx
    have hpos := ht g hg p hp
    dsimp only at hone
    omega
  · intro d hd
    obtain ⟨x, hx, rfl⟩ := List.mem_map.1 hd
    obtain ⟨p, hp, hid, -⟩ := hclaimed x hx
    exact Or.inr ⟨g, hg, p, hp, hid⟩

theorem handedOver_of_exec {o : Op P} {c : Choice} {r : o.Reply} (ht : Tallied w)
    (h : World.exec S o c w = some (r, w')) : HandedOver w w' (delivered ⟨o, r⟩) := by
  unfold delivered
  split
  · rename_i heq
    obtain ⟨rfl, hr⟩ := Call.mk.inj heq
    obtain rfl := eq_of_heq hr
    exact handedOver_read h
  · rename_i heq
    obtain ⟨rfl, hr⟩ := Call.mk.inj heq
    obtain rfl := eq_of_heq hr
    exact handedOver_claim ht h
  · exact .nothing w w'

/-! ## Histories -/

/-- What holds of the deliveries so far. -/
structure InTurn (s : System P) (log : List (Event P)) : Prop where
  tallied : Tallied s.world
  counted : ∀ d ∈ deliveries log, Counted s.world d.1 d.2
  numbered : (deliveries log).Pairwise fun d d' => d.1 = d'.1 → d.2 < d'.2
  first : ((deliveries log).filter fun d => d.2 = 1).Pairwise fun d d' => d.1 < d'.1
  opened : log.Pairwise fun ev ev' => ∀ d ∈ delivered ev'.call, ev.after.stream.Open d.1

theorem deliveries_concat (log : List (Event P)) (ev : Event P) :
    deliveries (log ++ [ev]) = deliveries log ++ delivered ev.call := by
  unfold deliveries
  simp

theorem inTurn_of_chronicle {s : System P} {log : List (Event P)} (h : System.Chronicle S s log) : InTurn s log := by
  refine h.keeps ⟨?_, by simp [deliveries], by simp [deliveries], by simp [deliveries], .nil⟩ ?_ ?_
  · rintro g ⟨⟩
  · intro s t log p o reply hlog ih hle hmade _
    obtain ⟨c, hexec⟩ := hmade
    have hnew := handedOver_of_exec ih.tallied hexec
    refine ⟨tallied_of_exec ih.tallied hexec, ?_, ?_, ?_, ?_⟩
    · rw [deliveries_concat]
      intro d hd
      rcases List.mem_append.1 hd with hd | hd
      · exact (ih.counted d hd).mono hle
      · exact hnew.counted d hd
    · rw [deliveries_concat, List.pairwise_append]
      refine ⟨ih.numbered, hnew.ascending.imp fun hlt heq => absurd heq hlt.ne, fun d hd d' hd' heq => ?_⟩
      apply hnew.later d' hd'
      rw [← heq]
      exact ih.counted d hd
    · rw [deliveries_concat, List.filter_append, List.pairwise_append]
      refine ⟨ih.first, hnew.ascending.sublist List.filter_sublist, fun d hd d' hd' => ?_⟩
      obtain ⟨hd, -⟩ := List.mem_filter.1 hd
      obtain ⟨hd', hone⟩ := List.mem_filter.1 hd'
      -- the group had read as far as `d`, and not yet as far as `d'`
      obtain ⟨g, hg, hread, -⟩ := ih.counted d hd
      exact hread.trans_lt (hnew.first d' hd' (by simpa using hone) g hg)
    · rw [List.pairwise_append]
      refine ⟨ih.opened, List.pairwise_singleton .., fun ev hev ev' hev' d hd => ?_⟩
      rw [List.mem_singleton.1 hev'] at hd
      by_contra hclosed
      exact Stream.not_open_of_le (hlog.le ev hev).stream hclosed (hnew.opened d hd)
  · intro s t log ih hle hidle _
    refine ⟨?_, fun d hd => (ih.counted d hd).mono hle, ih.numbered, ih.first, ih.opened⟩
    unfold Tallied
    rw [hidle.stream]
    exact ih.tallied

end App
