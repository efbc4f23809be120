/-
The invariant of the whole service: the world's invariant, and for every process that what is left
of its code runs safely from here. One action keeps it (`ok_step`), so every reachable state has it
(`ok_of_reachable`), and from one state of a run to a later one the worlds are ordered.
-/
import EventService.Run.Consuming
import EventService.Model.System

namespace App

open Store Prog

variable {P : Type} (S : Service P)

/-! ## Processes that are fine -/

/-- A handler has a message that may be handled and runs safely. -/
def Handler.Ok (h : Handler P) (w : World P) : Prop :=
  Handed S w h.message ∧
    Safe S (fun r w' => ∀ id ∈ r, id = h.message.messageId ∧ Processed S w' id) NeverRaises h.code w

def Lane.Ok : Lane P → World P → Prop
  | .running code, w => Safe S (HandsOver S) NeverRaises code w
  | .handling hs, w => ∀ h ∈ hs, h.Ok S w
  | .acking code, w => Safe S (fun _ _ => True) NeverRaises code w
  | .stopped, _ => True

def Worker.Ok : Worker P → World P → Prop
  | .down, _ => True
  | .booting code, w => Safe S (fun _ _ => True) (fun _ _ => True) code w
  | .up lanes, w => ∀ loop, (lanes loop).Ok S w

structure System.Ok (s : System P) : Prop where
  inv : Inv S s.world
  workers : ∀ i, (s.workers i).Ok S s.world
  requests : ∀ r ∈ s.requests, Safe S (Answered S r.1) (fun _ _ => True) r.2 s.world
  outcomes : ∀ id ∈ s.outcomes, Processed S s.world id

section Mono

variable {S} {w w' : World P} (h : Le w w')
include h

theorem Handler.Ok.mono {x : Handler P} (hx : x.Ok S w) : x.Ok S w' :=
  ⟨hx.1.mono h, Protocol.Ok.stable (fun _ _ _ hle hr id hid => (hr id hid).imp_right (Processed.mono hle))
    (fun _ _ _ _ he => he) h hx.2⟩

theorem Lane.Ok.mono {x : Lane P} (hx : x.Ok S w) : x.Ok S w' := by
  cases x with
  | running code =>
    exact Protocol.Ok.stable (fun _ _ _ hle hr ms heq m hm => (hr ms heq m hm).mono hle)
      (fun _ _ _ _ he => he) h hx
  | handling hs => exact fun y hy => (hx y hy).mono h
  | acking code => exact Protocol.Ok.stable (fun _ _ _ _ _ => trivial) (fun _ _ _ _ he => he) h hx
  | stopped => trivial

theorem Worker.Ok.mono {x : Worker P} (hx : x.Ok S w) : x.Ok S w' := by
  cases x with
  | down => trivial
  | booting code => exact Protocol.Ok.stable (fun _ _ _ _ _ => trivial) (fun _ _ _ _ _ => trivial) h hx
  | up lanes => exact fun loop => Lane.Ok.mono h (hx loop)

end Mono

/-! ## One process moves -/

variable {S}

theorem safe_round (worker : Nat) (loop : Loop) (w : World P) :
    Safe S (HandsOver S) NeverRaises (round S worker loop) w := by
  cases loop with
  | consume => exact safe_consumeRound worker w
  | reclaim => exact safe_reclaimRound worker w
  | metrics => exact safe_metricsRound worker w

/-- The next call of a loop. -/
theorem Lane.ok_call {x x' : Lane P} {c : Choice} {w w' : World P} (hi : Inv S w) (hx : x.Ok S w)
    (h : x.call S c w = some (x', w')) : Inv S w' ∧ Le w w' ∧ x'.Ok S w' := by
  cases x with
  | running code =>
    obtain ⟨y, hy, heq⟩ := Option.map_eq_some_iff.1 h
    obtain ⟨rfl, rfl⟩ := Prod.mk.inj heq
    exact Protocol.Ok.advance hx (Le.refl w) hi hy
  | acking code =>
    obtain ⟨y, hy, heq⟩ := Option.map_eq_some_iff.1 h
    obtain ⟨rfl, rfl⟩ := Prod.mk.inj heq
    exact Protocol.Ok.advance hx (Le.refl w) hi hy
  | handling hs => cases h
  | stopped => cases h

/-- The next call of a handler. -/
theorem Handler.ok_step {x x' : Handler P} {c : Choice} {w w' : World P} (hi : Inv S w) (hx : x.Ok S w)
    (h : x.step S c w = some (x', w')) : Inv S w' ∧ Le w w' ∧ x'.Ok S w' := by
  obtain ⟨y, hy, heq⟩ := Option.map_eq_some_iff.1 h
  obtain ⟨rfl, rfl⟩ := Prod.mk.inj heq
  obtain ⟨hi', hle, hok⟩ := Protocol.Ok.advance hx.2 (Le.refl w) hi hy
  exact ⟨hi', hle, hx.1.mono hle, hok⟩

/-- What a handler returned. -/
theorem Handler.processed_of_result {x : Handler P} {w : World P} {r : Option Nat} (hx : x.Ok S w)
    (h : x.result = some r) : ∀ id ∈ r, Processed S w id := by
  obtain ⟨m, started, code⟩ := x
  cases code with
  | ret a =>
    intro id hid
    rw [← Option.some.inj h] at hid
    exact (hx.2 id hid).2
  | raise e => cases h
  | op o k => cases h

/-- The handlers of a loop that is fine are. -/
theorem Lane.Ok.handlers {x : Lane P} {w : World P} (hx : x.Ok S w) : ∀ y ∈ x.handlers, y.Ok S w := by
  cases x with
  | handling hs => exact hx
  | running code => rintro y ⟨⟩
  | acking code => rintro y ⟨⟩
  | stopped => rintro y ⟨⟩

/-- A loop goes on: to its next round, to the handlers of a batch, to their acknowledgement. -/
theorem Lane.ok_move {x x' : Lane P} {worker : Nat} {loop : Loop} {w : World P} (hx : x.Ok S w)
    (h : x.move S worker loop = some x') : x'.Ok S w := by
  unfold Lane.move at h
  split at h
  · rw [← Option.some.inj h]
    trivial
  · rw [← Option.some.inj h]
    exact safe_round worker loop w
  · rename_i messages
    rw [← Option.some.inj h]
    -- every message of the batch gets a handler that has not begun
    intro y hy
    obtain ⟨m, hm, rfl⟩ := List.mem_map.1 hy
    have hhanded : Handed S w m := hx messages rfl m hm
    exact ⟨hhanded, safe_handleOne hhanded.1⟩
  · rename_i hs
    obtain ⟨results, hresults, rfl⟩ := Option.map_eq_some_iff.1 h
    refine safe_ackDone fun r hr => ?_
    -- what is acknowledged was returned by one of the handlers
    obtain ⟨y, hy, hyr⟩ := exists_of_mapM hresults hr
    exact Handler.processed_of_result (hx y hy) hyr
  · rw [← Option.some.inj h]
    exact safe_round worker loop w
  all_goals cases h

/-! ## One action -/

namespace System.Ok

variable {s : System P} (hs : s.Ok S)
include hs

/-- The environment changes the world. -/
theorem setWorld {w : World P} (hi : Inv S w) (hle : Le s.world w) : System.Ok S { s with world := w } where
  inv := hi
  workers := fun i => (hs.workers i).mono hle
  requests := fun r hr => Protocol.Ok.stable (fun _ _ _ hle ha => ha.mono hle) (fun _ _ _ _ _ => trivial) hle
    (hs.requests r hr)
  outcomes := fun id hid => (hs.outcomes id hid).mono hle

/-- One worker changes, in a later world. -/
theorem setWorker {w : World P} {worker : Nat} {x : Worker P} (hi : Inv S w) (hle : Le s.world w)
    (hx : x.Ok S w) : System.Ok S { s with world := w, workers := s.setWorker worker x } := by
  have hw := hs.setWorld hi hle
  refine ⟨hi, fun j => ?_, hw.requests, hw.outcomes⟩
  show (s.setWorker worker x j).Ok S w
  unfold System.setWorker
  split
  · exact hx
  · exact hw.workers j

/-- One loop of a worker changes, in a later world. -/
theorem setLane {w : World P} {worker : Nat} {lanes : Loop → Lane P} {loop : Loop} {x : Lane P}
    (hlanes : s.workers worker = .up lanes) (hi : Inv S w) (hle : Le s.world w) (hx : x.Ok S w) :
    System.Ok S { s with
      world := w, workers := s.setWorker worker (.up (Worker.setLane lanes loop x)) } := by
  refine hs.setWorker hi hle fun l => ?_
  unfold Worker.setLane
  split
  · exact hx
  · have hw := hs.workers worker
    rw [hlanes] at hw
    exact Lane.Ok.mono hle (hw l)

theorem addOutcomes {ids : List Nat} (h : ∀ id ∈ ids, Processed S s.world id) :
    System.Ok S { s with outcomes := s.outcomes ++ ids } := by
  refine ⟨hs.inv, hs.workers, hs.requests, fun id hid => ?_⟩
  rcases List.mem_append.1 hid with hid | hid
  · exact hs.outcomes id hid
  · exact h id hid

theorem handlers {worker : Nat} {loop : Loop} : ∀ x ∈ s.handlers worker loop, x.Ok S s.world := by
  intro x hx
  have hw := hs.workers worker
  unfold System.handlers at hx
  split at hx
  · rename_i lanes hlanes
    rw [hlanes] at hw
    exact Lane.Ok.handlers (hw loop) x hx
  all_goals cases hx

/-- The next call of a handler of some batch. -/
theorem handle {t : System P} {worker : Nat} {lanes : Loop → Lane P} {loop : Loop} {i : Nat} {c : Choice}
    (hlanes : s.workers worker = .up lanes) (h : s.handle S worker lanes loop i c = some t) :
    t.Ok S ∧ Le s.world t.world := by
  unfold System.handle at h
  split at h
  · cases h
  rename_i x hx
  split at h
  swap
  · cases h
  obtain ⟨y, hy, rfl⟩ := Option.map_eq_some_iff.1 h
  have hmem := List.mem_of_getElem? hx
  have hall : ∀ x ∈ (lanes loop).handlers, x.Ok S s.world := by
    have hlanes' := hs.workers worker
    rw [hlanes] at hlanes'
    exact Lane.Ok.handlers (hlanes' loop)
  obtain ⟨hi, hle, hok⟩ := Handler.ok_step hs.inv (hall x hmem) hy
  have hlane : Lane.Ok S (.handling ((lanes loop).handlers.set i y.1)) y.2 := by
    intro z hz
    rcases List.mem_or_eq_of_mem_set hz with hz | rfl
    · exact (hall z hz).mono hle
    · exact hok
  refine ⟨addOutcomes (hs.setLane hlanes hi hle hlane) fun id hid => ?_, hle⟩
  -- an outcome is added only when the handler has just returned its message's id
  cases hres : y.1.result with
  | none =>
    rw [hres] at hid
    cases hid
  | some r =>
    rw [hres] at hid
    exact Handler.processed_of_result hok hres id (by simpa using hid)

/-- One action keeps the service's invariant and leads to a later world. -/
theorem step {t : System P} {a : Action} (h : s.step S a = some t) : t.Ok S ∧ Le s.world t.world := by
  cases a with
  | tick ms =>
    obtain ⟨hi, hle⟩ := hs.inv.setClock (s.world.now + ms) s.world.stops
    exact Option.some.inj h ▸ ⟨hs.setWorld hi hle, hle⟩
  | expire key =>
    obtain ⟨hi, hle⟩ := hs.inv.setCache (s.world.cache.filter fun kv => kv.1 ≠ key)
      fun kv hkv => Or.inl (List.mem_filter.1 hkv).1
    exact Option.some.inj h ▸ ⟨hs.setWorld hi hle, hle⟩
  | drop session =>
    obtain ⟨hi, hle⟩ := closeSession_spec hs.inv session
    exact Option.some.inj h ▸ ⟨hs.setWorld hi hle, hle⟩
  | request r =>
    rw [← Option.some.inj h]
    refine ⟨⟨hs.inv, hs.workers, fun r' hr' => ?_, hs.outcomes⟩, Le.refl _⟩
    rcases List.mem_append.1 hr' with hr' | hr'
    · exact hs.requests r' hr'
    · rw [List.mem_singleton.1 hr']
      exact safe_serve r s.world
  | serve i c =>
    simp only [System.step] at h
    split at h
    · cases h
    · rename_i r code hget
      obtain ⟨x, hx, rfl⟩ := Option.map_eq_some_iff.1 h
      obtain ⟨hi, hle, hok⟩ := Protocol.Ok.advance (hs.requests _ (List.mem_of_getElem? hget)) (Le.refl _)
        hs.inv hx
      refine ⟨⟨hi, (hs.setWorld hi hle).workers, fun r' hr' => ?_, (hs.setWorld hi hle).outcomes⟩, hle⟩
      rcases List.mem_or_eq_of_mem_set hr' with hr' | rfl
      · exact (hs.setWorld hi hle).requests r' hr'
      · exact hok
  | start worker =>
    simp only [System.step] at h
    split at h
    · obtain ⟨hi, hle⟩ := hs.inv.setClock s.world.now (s.world.stops.filter (· ≠ worker))
      exact Option.some.inj h ▸ ⟨hs.setWorker hi hle (safe_ensureGroup _), hle⟩
    all_goals cases h
  | boot worker c =>
    simp only [System.step] at h
    split at h
    · rename_i code hcode
      obtain ⟨x, hx, rfl⟩ := Option.map_eq_some_iff.1 h
      have hw := hs.workers worker
      rw [hcode] at hw
      obtain ⟨hi, hle, hok⟩ := Protocol.Ok.advance hw (Le.refl _) hs.inv hx
      exact ⟨hs.setWorker hi hle hok, hle⟩
    all_goals cases h
  | enter worker =>
    simp only [System.step] at h
    split at h
    · rw [← Option.some.inj h]
      exact ⟨hs.setWorker hs.inv (Le.refl _) fun loop => safe_round worker loop s.world, Le.refl _⟩
    all_goals cases h
  | requestStop worker =>
    obtain ⟨hi, hle⟩ := hs.inv.setClock s.world.now (worker :: s.world.stops)
    exact Option.some.inj h ▸ ⟨hs.setWorld hi hle, hle⟩
  | exit worker =>
    simp only [System.step] at h
    split at h
    · split at h
      · exact Option.some.inj h ▸ ⟨hs.setWorker hs.inv (Le.refl _) trivial, Le.refl _⟩
      · cases h
    all_goals cases h
  | crash worker =>
    exact Option.some.inj h ▸ ⟨hs.setWorker hs.inv (Le.refl _) trivial, Le.refl _⟩
  | call worker loop c =>
    simp only [System.step] at h
    split at h
    · rename_i lanes hlanes
      obtain ⟨x, hx, rfl⟩ := Option.map_eq_some_iff.1 h
      have hw := hs.workers worker
      rw [hlanes] at hw
      obtain ⟨hi, hle, hok⟩ := Lane.ok_call hs.inv (hw loop) hx
      exact ⟨hs.setLane hlanes hi hle hok, hle⟩
    all_goals cases h
  | handle worker loop i c =>
    simp only [System.step] at h
    split at h
    · rename_i lanes hlanes
      exact hs.handle hlanes h
    all_goals cases h
  | move worker loop =>
    simp only [System.step] at h
    split at h
    · rename_i lanes hlanes
      obtain ⟨x, hx, rfl⟩ := Option.map_eq_some_iff.1 h
      have hw := hs.workers worker
      rw [hlanes] at hw
      exact ⟨hs.setLane hlanes hs.inv (Le.refl _) (Lane.ok_move (hw loop) hx), Le.refl _⟩
    all_goals cases h

end System.Ok

/-! ## Runs -/

theorem ok_initial : (System.initial P).Ok S where
  inv := inv_initial S
  workers := fun _ => trivial
  requests := by simp [System.initial]
  outcomes := by simp [System.initial]

theorem System.Run.ok {s t : System P} (h : System.Run S s t) (hs : s.Ok S) :
    t.Ok S ∧ Le s.world t.world := by
  induction h with
  | refl => exact ⟨hs, Le.refl _⟩
  | step a _ ht ih =>
    obtain ⟨hok, hle⟩ := ih
    obtain ⟨hok', hle'⟩ := hok.step ht
    exact ⟨hok', hle.trans hle'⟩

/-- Every reachable state has the invariant. -/
theorem ok_of_reachable {s : System P} (h : System.Reachable S s) : s.Ok S := (System.Run.ok h ok_initial).1

/-- Rows are only ever added behind the others. -/
theorem rows_prefix_of_run {s t : System P} (h : System.Reachable S s) (hrun : System.Run S s t) :
    s.world.table.rows <+: t.world.table.rows :=
  (System.Run.ok hrun (ok_of_reachable h)).2.table.rows

theorem ids_nodup (t : Table Values.id) : (t.rows.map Values.id).Nodup := by
  have hunique := t.unique
  rw [List.map_append, List.nodup_append] at hunique
  exact hunique.1

end App
