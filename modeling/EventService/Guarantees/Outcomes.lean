/-
Outcomes tell the truth. Any number of calls of `process` share one database, on either dialect, and
take their steps in any order; each may fail before, during or after its commit, or stop for good
wherever it is. The invariant counts: every committed row is accounted for by one session's commit, and
every session by the one call that opened it.
-/
import EventService.Model.System
import EventService.Program.Steps
import EventService.Run.Outcomes

namespace App

open Store Prog

variable {P : Type} (S : Service P)

/-- Calls of `process`, numbered, each with what is left of its code. -/
structure Calls (P : Type) where
  history : Attributed P
  code : Nat → Code P Outcome

/-- One call goes on; the database drops a session; something else than the table changes. -/
inductive CallsAction (P : Type)
  | call (i : Nat) (c : Choice)
  | drop (session : Nat)
  | others (w : World P)

namespace Calls

/-- Call `i` is about to process event `i`, in a world in which anything may have happened before. -/
def start (events : Nat → TransactionEvent) (w : World P) : Calls P where
  history := ⟨w, [], []⟩
  code := fun i => process S (events i)

def step (s : Calls P) : CallsAction P → Option (Calls P)
  | .call i c => (Protocol.advance (Attributed.exec S i) (s.code i) c s.history).map fun r =>
      ⟨r.2, Function.update s.code i r.1⟩
  | .drop session =>
    some { s with history.world.table := s.history.world.table.closeSession session }
  | .others w => some { s with history.world := { w with table := s.history.world.table } }

/-- What a call has returned. -/
def returned (s : Calls P) (i : Nat) : Option Outcome :=
  match s.code i with
  | .ret outcome => some outcome
  | .op _ _ | .raise _ => none

/-- A run from one state to another. -/
abbrev Run : Calls P → Calls P → Prop := Steps.Run (step S)

variable {S}

/-! ## The invariant -/

/-- The rows are the first ones and those of the history; no session was opened twice; every call can
only end with the truth. -/
structure Inv (S : Service P) (events : Nat → TransactionEvent) (first : List Values) (s : Calls P) : Prop where
  rows : s.history.world.table.rows = first ++ s.history.written.map Prod.snd
  sessions : (s.history.opened.map Prod.fst).Nodup
  opened : ∀ o ∈ s.history.opened, o.1 < s.history.world.table.nextSession
  code : ∀ i, Attests S i (Truthful i (events i)) (fun _ _ => True) (s.code i) s.history

variable {events : Nat → TransactionEvent} {first : List Values} {s t : Calls P}

theorem inv_start (events : Nat → TransactionEvent) (w : World P) : Inv S events w.table.rows (start S events w) where
  rows := (List.append_nil _).symm
  sessions := List.nodup_nil
  opened := by simp [start]
  code := fun i => attests_process i (events i) _

/-- What a call attests is not changed by what the others do. -/
theorem attests_later {call : Nat} {event : TransactionEvent} {p : Code P Outcome} {g g' : Attributed P}
    (hle : g.Le g') (h : Attests S call (Truthful call event) (fun _ _ => True) p g) :
    Attests S call (Truthful call event) (fun _ _ => True) p g' :=
  Protocol.Ok.stable (fun _ _ _ hle' ht => ht.mono hle') (fun _ _ _ _ ht => ht) hle h

/-- The sessions of a step are new. -/
theorem sessions_after {g : Attributed P} {w : World P} (call : Nat)
    (hnext : g.world.table.nextSession ≤ w.table.nextSession) (hnodup : (g.opened.map Prod.fst).Nodup)
    (hold : ∀ o ∈ g.opened, o.1 < g.world.table.nextSession) :
    ((g.after call w).opened.map Prod.fst).Nodup ∧
      ∀ o ∈ (g.after call w).opened, o.1 < w.table.nextSession := by
  constructor
  · unfold Attributed.after
    rw [List.map_append, List.map_map, List.nodup_append]
    refine ⟨hnodup, ?_, ?_⟩
    · simpa [Function.comp_def] using List.nodup_range'
    · intro n hn m hm
      obtain ⟨o, ho, rfl⟩ := List.mem_map.1 hn
      obtain ⟨k, hk, rfl⟩ := List.mem_map.1 hm
      have := hold o ho
      have := (List.mem_range'_1.1 hk).1
      simp only [Function.comp_apply]
      omega
  · intro o ho
    rcases List.mem_append.1 ho with ho | ho
    · exact (hold o ho).trans_le hnext
    · obtain ⟨k, hk, rfl⟩ := List.mem_map.1 ho
      have := (List.mem_range'_1.1 hk).2
      dsimp only
      omega

theorem inv_step {a : CallsAction P} (hi : Inv S events first s) (h : s.step S a = some t) :
    Inv S events first t := by
  cases a with
  | call i c =>
    obtain ⟨⟨p, g⟩, hadv, rfl⟩ := Option.map_eq_some_iff.1 h
    obtain ⟨-, hle, hp⟩ := Protocol.Ok.advance (hi.code i) (Attributed.Le.refl _) trivial hadv
    obtain ⟨o, r, hx⟩ := Protocol.exec_of_advance hadv
    obtain ⟨hexec, hg⟩ := Attributed.exec_eq hx
    have hstep := tableStep_of_exec hexec
    obtain ⟨hnodup, hold⟩ := sessions_after i hstep.nextSession_le hi.sessions hi.opened
    refine ⟨?_, ?_, ?_, fun j => ?_⟩
    · rw [hstep.rows, hi.rows, hg, List.append_assoc]
      unfold Attributed.after
      rw [List.map_append]
    · rw [hg]
      exact hnodup
    · rw [hg]
      exact hold
    · show Attests S j (Truthful j (events j)) (fun _ _ => True) (Function.update s.code i p j) g
      by_cases hj : j = i
      · subst hj
        rw [Function.update_self]
        exact hp
      · rw [Function.update_of_ne hj]
        exact attests_later hle (hi.code j)
  | drop session =>
    obtain rfl := Option.some.inj h
    exact ⟨hi.rows, hi.sessions, hi.opened, fun i =>
      attests_later (.environment (Table.Le.closeSession _ session) rfl) (hi.code i)⟩
  | others w =>
    obtain rfl := Option.some.inj h
    exact ⟨hi.rows, hi.sessions, hi.opened, fun i =>
      attests_later (.environment (Table.Le.refl _) rfl) (hi.code i)⟩

theorem inv_run {s₀ : Calls P} (h₀ : Inv S events first s₀) (h : Run S s₀ s) : Inv S events first s :=
  h.keeps h₀ fun _ _ _ hs ht => inv_step hs ht

/-- A committed row is written once, by one session. -/
theorem Inv.session_eq (hi : Inv S events first s) {u u' : Nat × Values} (hu : u ∈ s.history.written)
    (hu' : u' ∈ s.history.written) (hid : u.2.id = u'.2.id) : u.1 = u'.1 := by
  have hunique := s.history.world.table.unique
  rw [List.map_append, List.nodup_append, hi.rows, List.map_append, List.nodup_append, List.map_map] at hunique
  rw [List.inj_on_of_nodup_map hunique.1.2.1 hu hu' hid]

/-- An outcome that was returned is true. -/
theorem Inv.truthful (hi : Inv S events first s) {i : Nat} {outcome : Outcome} (h : s.returned i = some outcome) :
    Truthful i (events i) outcome s.history := by
  have hcode := hi.code i
  unfold returned at h
  split at h
  · rename_i o hret
    rw [hret] at hcode
    exact Option.some.inj h ▸ hcode
  · cases h
  · cases h

end Calls

/-! ## Outcomes -/

variable {S}

/-- Outcomes tell the truth: at whatever moment, no two calls for one id have returned that they stored
the event; a call that has wrote the row, with its own values, by the commit of a session it opened
itself; and a call that returned an outcome returned it for an id that is committed. -/
theorem outcomes_tell_the_truth {events : Nat → TransactionEvent} {w : World P} {s : Calls P}
    (h : Calls.Run S (Calls.start S events w) s) :
    (∀ i j, s.returned i = some .stored → s.returned j = some .stored → (events i).id = (events j).id → i = j) ∧
    (∀ i, s.returned i = some .stored → ∃ session usd rate now, (session, i) ∈ s.history.opened ∧
      convertToUsd (events i).amount rate = .ok usd ∧
      (session, (events i).values usd rate now) ∈ s.history.written ∧
      (events i).values usd rate now ∈ s.history.world.table.rows) ∧
    ∀ i outcome, s.returned i = some outcome → s.history.world.table.Has (events i).id := by
  have hi := Calls.inv_run (Calls.inv_start events w) h
  have htold := fun i outcome (hret : s.returned i = some outcome) => hi.truthful hret
  refine ⟨fun i j hret hret' hid => ?_, fun i hret => ?_, fun i outcome hret => (htold i outcome hret).has⟩
  · obtain ⟨session, usd, rate, now, hopened, -, hwritten⟩ := (htold i _ hret).own rfl
    obtain ⟨session', usd', rate', now', hopened', -, hwritten'⟩ := (htold j _ hret').own rfl
    have hsession : session = session' := hi.session_eq hwritten hwritten' hid
    have hpair := List.inj_on_of_nodup_map hi.sessions hopened hopened' hsession
    exact (Prod.mk.inj hpair).2
  · obtain ⟨session, usd, rate, now, hopened, hconv, hwritten⟩ := (htold i _ hret).own rfl
    refine ⟨session, usd, rate, now, hopened, hconv, hwritten, ?_⟩
    rw [hi.rows]
    exact List.mem_append_right _ (List.mem_map_of_mem hwritten)

/-- Six dollars for the second call, five for the others. -/
def dollarAmount (i : Nat) : Decimal := if i = 1 then .finite false 6 0 else .finite false 5 0

theorem moneyAmount_dollarAmount (i : Nat) : moneyAmount (dollarAmount i) = [] := by
  unfold dollarAmount
  split <;> decide +kernel

theorem one_id_length : 1 ≤ "a".toList.length ∧ "a".toList.length ≤ 128 := by decide

theorem midnight_isUTC : (Trace.clock 0 Trace.zero_lt_span).replaceUTC.isUTC = true := rfl

/-- One id for all calls. -/
def dollars (i : Nat) : TransactionEvent :=
  ⟨"a".toList, Trace.user, dollarAmount i, "USD".toList, (Trace.clock 0 Trace.zero_lt_span).replaceUTC,
    one_id_length, Trace.user_length, moneyAmount_dollarAmount i, by decide +kernel, by decide +kernel,
    midnight_isUTC⟩

/-- A database without `ON CONFLICT`, and no rate cache. -/
def plainInsertService : Service EventIn := ⟨{}, .documents, .other, false⟩

/-- The first call's commit is refused, the second one's goes through, and the third meets its row. -/
def threeCalls : List (CallsAction EventIn) :=
  List.replicate 4 (.call 0 {}) ++
    [.call 0 { fault := .before ⟨.operationalError, "server closed the connection unexpectedly"⟩ }] ++
    List.replicate 3 (.call 2 {}) ++ [.call 0 {}] ++ List.replicate 6 (.call 1 {}) ++
    List.replicate 2 (.call 2 {})

theorem threeCalls_store_once : ∃ s,
    Calls.Run plainInsertService (Calls.start plainInsertService dollars (World.initial EventIn)) s ∧
    s.returned 0 = none ∧ s.returned 1 = some .stored ∧ s.returned 2 = some .duplicate ∧
    s.history.world.table.rows.map Values.amount = [.finite false 6 0] ∧
    (∀ i, s.returned i = some .stored → i = 1) ∧ s.history.world.table.Has (dollars 2).id := by
  obtain ⟨s, hrun, hp⟩ := Steps.exists_run (Calls.step plainInsertService)
    (Calls.start plainInsertService dollars (World.initial EventIn)) threeCalls
    (fun s => s.returned 0 = none && s.returned 1 = some .stored && s.returned 2 = some .duplicate &&
      s.history.world.table.rows.map Values.amount = [.finite false 6 0]) (by decide +kernel)
  simp only [Bool.and_eq_true, decide_eq_true_eq] at hp
  obtain ⟨⟨⟨hfirst, hsecond⟩, hthird⟩, hrows⟩ := hp
  obtain ⟨honce, -, htaken⟩ := outcomes_tell_the_truth hrun
  exact ⟨s, hrun, hfirst, hsecond, hthird, hrows, fun i hstored => honce i 1 hstored hsecond rfl,
    htaken 2 _ hthird⟩

end App
