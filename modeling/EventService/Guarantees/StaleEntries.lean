/-
Whether a reclaim pass can skip a stale entry. A pass claims from the oldest pending entry on and looks
at ten entries for every one it may answer with; where it stopped it forgets. So a pass that comes back
with less than it may has left no stale entry behind exactly if none lies beyond the entries it looks
at: fresh entries in front of it, ten for each one asked for, hide a stale one from every pass.
-/
import EventService.Model.System
import EventService.Run.Rounds

namespace App

open Prog Store

variable {P : Type} (S : Service P)

/-- A pass that comes back with fewer entries than it may has returned every entry that was stale. -/
def LeavesNoneStale (w : World P) (minIdleMs count : Nat) (messages : List (QueuedMessage P))
    (deleted : List Nat) : Prop :=
  messages.length + deleted.length < count → ∀ g ∈ w.stream.group, ∀ p ∈ g.pending,
    Stream.stale w.now minIdleMs p = true → p.id ∈ messages.map QueuedMessage.messageId ++ deleted

/-- There is enough to answer with among the entries the pass looks at, or nothing stale behind them. -/
def WindowReaches (w : World P) (minIdleMs count : Nat) : Prop :=
  ∀ g ∈ w.stream.group,
    count ≤ (Stream.window g count).countP (Stream.answerable w.stream.find w.now minIdleMs) ∨
      ∀ p ∈ g.pending.drop (10 * count), Stream.stale w.now minIdleMs p = false

variable {S}

/-- What the pass returns is what its claim answered with. -/
theorem returned_of_claimStale {w w₁ : World P} {consumer minIdleMs count : Nat} {c : Choice}
    {reply : Except Foreign (List (Entry P × Nat) × List Nat)} {τ : List (Call Op.Reply)}
    {messages : List (QueuedMessage P)} {deleted : List Nat}
    (hruns : Runs (claimStale consumer minIdleMs count) (⟨.xautoclaim consumer minIdleMs count, reply⟩ :: τ)
      (.ok (messages, deleted)))
    (hpass : World.exec S (.xautoclaim consumer minIdleMs count) c w = some (reply, w₁)) :
    ∃ g ∈ w.stream.group, messages.map QueuedMessage.messageId =
        (w.stream.claim g consumer w.now minIdleMs count).claimed.map (fun c => c.1.id) ∧
      deleted = (w.stream.claim g consumer w.now minIdleMs count).deleted := by
  obtain ⟨claimed, counts, τ', hcalls, rfl⟩ := runs_claimStale_ok hruns
  obtain ⟨-, hreply⟩ := Call.mk.inj (List.cons.inj hcalls).1
  obtain rfl := eq_of_heq hreply
  obtain ⟨g, hg, heq, -⟩ := exec_xautoclaim_ok hpass
  obtain ⟨rfl, rfl⟩ := Prod.mk.inj heq
  exact ⟨g, hg, by rw [List.map_map]; rfl, rfl⟩

/-- An entry beyond the window is none of those within it. -/
theorem not_mem_window {g : Group} {count : Nat} {p : Pending} (hp : p ∈ g.pending.drop (10 * count)) :
    p.id ∉ (Stream.window g count).map Pending.id := by
  intro hmem
  obtain ⟨q, hq, heq⟩ := List.mem_map.1 hmem
  have hsorted := g.sorted
  rw [← List.take_append_drop (10 * count) g.pending] at hsorted
  have hlt := (List.pairwise_append.1 hsorted).2.2 q hq p hp
  omega

/-- A reclaim pass leaves no stale entry behind if and only if its window reaches: whatever happens
between its two commands, and whoever owns what. -/
theorem claimStale_leaves_none_iff {w w₁ : World P} {consumer minIdleMs count : Nat} {c : Choice}
    {reply : Except Foreign (List (Entry P × Nat) × List Nat)} {τ : List (Call Op.Reply)}
    {messages : List (QueuedMessage P)} {deleted : List Nat}
    (hruns : Runs (claimStale consumer minIdleMs count) (⟨.xautoclaim consumer minIdleMs count, reply⟩ :: τ)
      (.ok (messages, deleted)))
    (hpass : World.exec S (.xautoclaim consumer minIdleMs count) c w = some (reply, w₁)) :
    LeavesNoneStale w minIdleMs count messages deleted ↔ WindowReaches w minIdleMs count := by
  obtain ⟨g, hg, hids, rfl⟩ := returned_of_claimStale hruns hpass
  have hlength : messages.length = (w.stream.claim g consumer w.now minIdleMs count).claimed.length := by
    simpa using congrArg List.length hids
  have hcount := (w.stream.answered_claim g consumer w.now minIdleMs count).length_eq
  simp only [List.length_append, List.length_map, List.length_take, ← List.countP_eq_length_filter] at hcount
  have honly : ∀ g' ∈ w.stream.group, g' = g := fun g' hg' => Option.some.inj (hg'.symm.trans hg)
  unfold LeavesNoneStale WindowReaches
  rw [hids, hlength]
  constructor
  · intro hleaves g' hg'
    obtain rfl := honly g' hg'
    by_cases hroom : count ≤ (Stream.window g' count).countP (Stream.answerable w.stream.find w.now minIdleMs)
    · exact Or.inl hroom
    · refine Or.inr fun p hp => ?_
      by_contra hstale
      have hlt : (w.stream.claim g' consumer w.now minIdleMs count).claimed.length +
          (w.stream.claim g' consumer w.now minIdleMs count).deleted.length < count := by omega
      have hmem := hleaves hlt g' hg' p (List.mem_of_mem_drop hp) (by simpa using hstale)
      rw [(Stream.answered_claim_of_lt hlt).mem_iff] at hmem
      exact not_mem_window hp ((List.filter_sublist.map _).subset hmem)
  · intro hreaches hlt g' hg' p hp hstale
    obtain rfl := honly g' hg'
    rw [(Stream.answered_claim_of_lt hlt).mem_iff]
    rcases hreaches g' hg' with hroom | hnone
    · omega
    · rw [← List.take_append_drop (10 * count) g'.pending] at hp
      rcases List.mem_append.1 hp with hwindow | hbehind
      · refine List.mem_map_of_mem (List.mem_filter.2 ⟨hwindow, ?_⟩)
        unfold Stream.answerable
        rw [hstale, Bool.or_true]
      · rw [hnone p hbehind] at hstale
        cases hstale

/-! ## Ten fresh entries -/

/-- Eleven entries that were delivered once each: the last one half a minute ago, the ten in front of it
just now. -/
def tenBeforeStale : World EventIn :=
  { World.initial EventIn with
    now := 30000
    stream := {
      dropped := []
      entries := (List.range 11).map fun i => ⟨i + 1, Trace.document "a" (.finite false 5 0) "USD"⟩
      lastId := 11
      group := some ⟨11, (List.range 11).map fun i => ⟨i + 1, 1, if i < 10 then 30000 else 0, 1⟩,
        by decide, by decide⟩
      sorted := by decide
      bounded := by decide
      read := by decide
      known := by decide } }

/-- The consumer claims what is stale, and this is returned. -/
def returns (ids gone : List Nat) : Except Exn (List (QueuedMessage EventIn) × List Nat) → Bool
  | .ok r => r.1.map QueuedMessage.messageId = ids && r.2 = gone
  | .error _ => false

theorem exists_pass (count : Nat) (ids gone : List Nat)
    (h : ((claimStale 0 30000 count).alone (World.exec (documentService {})) [{}, {}] tenBeforeStale).any
      (fun x => returns ids gone x.2.1) = true) :
    ∃ c reply τ messages w₁,
      Runs (claimStale 0 30000 count) (⟨.xautoclaim 0 30000 count, reply⟩ :: τ) (.ok (messages, gone)) ∧
      World.exec (documentService {}) (.xautoclaim 0 30000 count) c tenBeforeStale = some (reply, w₁) ∧
      messages.map QueuedMessage.messageId = ids := by
  obtain ⟨τ, x, w', hruns, hserved, hgood⟩ := exists_alone _ _ _ (fun x _ => returns ids gone x) h
  cases x with
  | error e => cases hgood
  | ok r =>
    obtain ⟨hids, hgone⟩ := Bool.and_eq_true_iff.1 hgood
    obtain ⟨messages, deleted⟩ := r
    obtain rfl : deleted = gone := of_decide_eq_true hgone
    obtain ⟨claimed, counts, τ', rfl, -⟩ := runs_claimStale_ok hruns
    obtain ⟨c, w₁, hpass, -⟩ := Served.cons_iff.1 hserved
    exact ⟨c, _, τ', messages, w₁, hruns, hpass, of_decide_eq_true hids⟩

/-- A pass for a hundred entries looks at all of them and returns the stale one. -/
theorem stale_entry_is_returned :
    ∃ c reply τ messages w₁,
      Runs (claimStale 0 30000 100) (⟨.xautoclaim 0 30000 100, reply⟩ :: τ) (.ok (messages, [])) ∧
      World.exec (documentService {}) (.xautoclaim 0 30000 100) c tenBeforeStale = some (reply, w₁) ∧
      messages.map QueuedMessage.messageId = [11] ∧ LeavesNoneStale tenBeforeStale 30000 100 messages [] := by
  obtain ⟨c, reply, τ, messages, w₁, hruns, hpass, hids⟩ := exists_pass 100 [11] [] (by decide +kernel)
  refine ⟨c, reply, τ, messages, w₁, hruns, hpass, hids, (claimStale_leaves_none_iff hruns hpass).2 ?_⟩
  intro g hg
  obtain rfl := Option.some.inj hg
  exact Or.inr (by decide)

/-- A pass for one entry looks at the ten fresh ones, returns nothing, and leaves the stale one behind. -/
theorem stale_entry_is_hidden :
    ∃ c reply τ messages w₁,
      Runs (claimStale 0 30000 1) (⟨.xautoclaim 0 30000 1, reply⟩ :: τ) (.ok (messages, [])) ∧
      World.exec (documentService {}) (.xautoclaim 0 30000 1) c tenBeforeStale = some (reply, w₁) ∧
      messages = [] ∧ ¬LeavesNoneStale tenBeforeStale 30000 1 messages [] := by
  obtain ⟨c, reply, τ, messages, w₁, hruns, hpass, hids⟩ := exists_pass 1 [] [] (by decide +kernel)
  obtain rfl := List.map_eq_nil_iff.1 hids
  refine ⟨c, reply, τ, [], w₁, hruns, hpass, rfl, fun hleaves => ?_⟩
  have hlast := hleaves (by decide) _ rfl ⟨11, 1, 0, 1⟩ (by decide) (by decide)
  cases hlast

end App
