/-
The sessions a worker has open. A handler opens one session for each attempt to store its row, calls nothing
but the database while it has it, and closes it however the attempt ends. So a worker never has more sessions
open than its semaphore has places, and the connection pool, which by default follows `concurrency`, has a
connection for each of them.
-/
import EventService.Model.Startup
import EventService.Run.SessionCalls
import EventService.Run.WorkerCalls
import EventService.Guarantees.Shutdown

namespace App

open Prog

variable {P : Type} {S : Service P} {worker : Nat}

/-- The open sessions behind a call: one was opened, or one was given back, whatever became of it. -/
def sessionsBehind (sessions : List Nat) (call : Call (@Op.Reply P)) : List Nat :=
  match call with
  | ⟨.openSession, .ok session⟩ => sessions ++ [session]
  | ⟨.close session, _⟩ => sessions.erase session
  | ⟨_, _⟩ => sessions

/-- The sessions that were opened by these calls and not closed. -/
def sessionsOpen (calls : List (Call (@Op.Reply P))) : List Nat := calls.foldl sessionsBehind []

/-- One session at a time: who has none may call anything that needs none, who has one calls nothing but it. -/
def oneSession (P : Type) : Discipline (@Op.Reply P) (List Nat) where
  allowed sessions o := (sessions = [] ∧ o.session = none) ∨ ∃ session, sessions = [session] ∧ o.session = some session
  next := sessionsBehind

theorem sessionsBehind_of_other {o : Op P} (hs : o.session = none) (ho : o.isOpenSession = false)
    (sessions : List Nat) (r : o.Reply) : sessionsBehind sessions ⟨o, r⟩ = sessions := by
  cases o with
  | openSession => cases ho
  | close => cases hs
  | _ => rfl

/-! ## Code of a handler -/

/-- A session is closed behind its body, however the body ends, and even if it cannot be closed. -/
theorem follows_withSession {α : Type} {body : Nat → Code P α}
    (h : ∀ session, (body session).Follows (oneSession P) (fun _ s => s = [session]) [session]) :
    (withSession body).Follows (oneSession P) (fun _ s => s = []) [] := by
  refine ⟨Or.inl ⟨rfl, rfl⟩, fun r => ?_⟩
  rcases r with e | session
  · rfl
  · refine (h session).attempt_bind ?_
    rintro ended _ rfl
    refine ⟨Or.inr ⟨session, rfl, rfl⟩, fun r => ?_⟩
    have hclosed : (oneSession P).next [session] ⟨.close session, r⟩ = [] := by
      show [session].erase session = []
      simp
    rw [hclosed]
    rcases r with e | u
    · rfl
    · exact follows_ofExcept rfl

/-- A call of a session's own, with the reply returned or raised. -/
theorem follows_of_session {o : Op P} {session : Nat} {α : Type} {f : o.Reply → Code P α}
    (ho : o.session = some session) (hnext : ∀ r, sessionsBehind [session] ⟨o, r⟩ = [session])
    (h : ∀ r, (f r).Follows (oneSession P) (fun _ s => s = [session]) [session]) :
    (Prog.op o f).Follows (oneSession P) (fun _ s => s = [session]) [session] := by
  refine ⟨Or.inr ⟨session, rfl, ho⟩, fun r => ?_⟩
  have hsame : (oneSession P).next [session] ⟨o, r⟩ = [session] := hnext r
  rw [hsame]
  exact h r

theorem follows_store (values : Values) :
    (store S values).Follows (oneSession P) (fun _ s => s = []) [] := by
  unfold store
  refine (follows_withSession fun session => ?_).attempt_bind ?_
  · refine follows_of_session rfl (fun _ => rfl) fun r => ?_
    rcases r with e | rowcount
    · rfl
    · refine follows_of_session rfl (fun _ => rfl) fun r => ?_
      rcases r with e | u <;> rfl
  · rintro written _ rfl
    rcases written with e | inserted
    · exact follows_ofExcept rfl
    · rfl

theorem rests_oneSession : Rests S (oneSession P) [] where
  others := fun _ ho => ⟨Or.inl ⟨rfl, ho.1⟩, fun r => sessionsBehind_of_other ho.1 ho.2 [] r⟩
  store := follows_store

/-! ## A worker -/

/-- A loop by itself opens no session. -/
theorem sessionsOpen_of_byLoop {calls : List (Call (@Op.Reply P))} (h : ∀ call ∈ calls, call.op.ByLoop S worker) :
    sessionsOpen calls = [] := by
  refine foldl_next_of_same (d := oneSession P) fun call hcall => ?_
  have hop := h call hcall
  obtain ⟨o, r⟩ := call
  cases o with
  | xadd | get | set | fetch | openSession | execute | commit | close | now | uniform | record => exact hop.elim
  | _ => rfl

/-- A handler that has not returned has one session open at most, and one that has returned has none. -/
theorem sessionsOpen_of_handler {m : QueuedMessage P} {calls : List (Call Op.Reply)} {code : Code P (Option Nat)}
    (h : After (handleOne S m) calls code) :
    sessionsOpen calls = [] ∨ ∃ session o k, sessionsOpen calls = [session] ∧ code = .op o k ∧
      o.session = some session := by
  have hfollows := (rests_oneSession.handleOne m).after h
  cases code with
  | ret r => exact Or.inl hfollows
  | raise e => exact Or.inl hfollows
  | op o k =>
    rcases hfollows.1 with ⟨hnone, -⟩ | ⟨session, hone, ho⟩
    · exact Or.inl hnone
    · exact Or.inr ⟨session, o, k, hone, rfl, ho⟩

theorem sessionsOpen_of_handled {m : QueuedMessage P} {calls : List (Call Op.Reply)} {x : Except Exn (Option Nat)}
    (h : Runs (handleOne S m) calls x) : sessionsOpen calls = [] :=
  (rests_oneSession.handleOne m).runs h

/-- The sessions that were opened for a batch and not closed. -/
def sessionsOf {α : Type} (handlers : List (α × List (Call (@Op.Reply P)))) : List Nat :=
  handlers.flatMap fun h => sessionsOpen h.2

/-- The open sessions of a loop and its batch. -/
def Stage.sessions : Stage P → List Nat
  | running _ calls => sessionsOpen calls
  | handling calls handlers => sessionsOpen calls ++ sessionsOf handlers
  | acking calls handled _ acknowledgement => sessionsOpen calls ++ sessionsOf handled ++ sessionsOpen acknowledgement
  | stopped => []

/-- The sessions that a pass has left open. -/
def Pass.sessions (pass : Pass P) : List Nat :=
  sessionsOpen pass.calls ++ sessionsOf pass.handled ++ sessionsOpen pass.acknowledgement

/-- How many handlers of the stage hold the semaphore. -/
def Stage.busy (stage : Stage P) : Nat := stage.lane.handlers.countP Handler.busy

/-- A handler that has called something has begun. -/
def Stage.Begun : Stage P → Prop
  | handling _ handlers => ∀ h ∈ handlers, h.2 ≠ [] → h.1.started = true
  | running _ _ | acking _ _ _ _ | stopped => True

/-- The sessions a worker has open. -/
def EventConsumer.sessions (c : EventConsumer P) : List Nat :=
  (c.stages .consume).sessions ++ (c.stages .reclaim).sessions ++ (c.stages .metrics).sessions

variable {c c' : EventConsumer P} {loop : Loop}

theorem sessionsOf_of_all {α : Type} {handlers : List (α × List (Call (@Op.Reply P)))}
    (h : ∀ x ∈ handlers, sessionsOpen x.2 = []) : sessionsOf handlers = [] :=
  List.flatMap_eq_nil_iff.2 h

theorem sessionsOf_of_results {handled : List (QueuedMessage P × List (Call (@Op.Reply P)))} {results : List (Option Nat)}
    (h : List.Forall₂ (fun m r => Runs (handleOne S m.1) m.2 (.ok r)) handled results) : sessionsOf handled = [] := by
  refine sessionsOf_of_all fun x hx => ?_
  obtain ⟨i, hi, rfl⟩ := List.mem_iff_getElem.1 hx
  exact sessionsOpen_of_handled (List.Forall₂.get h hi (h.length_eq ▸ hi))

/-- A pass that is over has left no session open. -/
theorem PassAt.sessions {pass : Pass P} (h : PassAt S worker loop pass) : pass.sessions = [] := by
  cases h with
  | round hcalls =>
    unfold Pass.sessions
    rw [sessionsOpen_of_byLoop (hcalls.only (byLoop_round loop))]
    rfl
  | batch hcalls hresults hack =>
    have hdone (results : List (Option Nat)) : ByLoop S worker (ackDone results : Code P Unit) := byLoop_ackDone results
    unfold Pass.sessions
    rw [sessionsOpen_of_byLoop (hcalls.only (byLoop_round loop)), sessionsOf_of_results hresults,
      sessionsOpen_of_byLoop (hack.only (hdone _))]
    rfl

/-- Only a loop that waits for its handlers has sessions open: those of the handlers. -/
theorem StageAt.sessions {stop : Bool} {stage : Stage P} (h : StageAt S worker loop stop stage) :
    stage.sessions = [] ∨ ∃ calls handlers, stage = .handling calls handlers ∧ stage.sessions = sessionsOf handlers := by
  cases h with
  | running hcode => exact Or.inl (sessionsOpen_of_byLoop (hcode.only (byLoop_round loop)).1)
  | handling hcalls =>
    refine Or.inr ⟨_, _, rfl, ?_⟩
    rw [Stage.sessions, sessionsOpen_of_byLoop (hcalls.only (byLoop_round loop)), List.nil_append]
  | acking hcalls hresults hcode =>
    have hdone (results : List (Option Nat)) : ByLoop S worker (ackDone results : Code P Unit) := byLoop_ackDone results
    left
    rw [Stage.sessions, sessionsOpen_of_byLoop (hcalls.only (byLoop_round loop)), sessionsOf_of_results hresults,
      sessionsOpen_of_byLoop (hcode.only (hdone _)).1]
    rfl
  | stopped => exact Or.inl rfl

theorem busy_eq (c : EventConsumer P) : c.busy = (c.stages .consume).busy + (c.stages .reclaim).busy := by
  unfold EventConsumer.busy Worker.busy Stage.busy
  rw [← List.countP_eq_length_filter, List.countP_append]

/-- The sessions of a batch are with handlers that hold the semaphore. -/
theorem sessionsOf_le {handlers : List (Handler P × List (Call (@Op.Reply P)))}
    (hcode : ∀ h ∈ handlers, After (handleOne S h.1.message) h.2 h.1.code)
    (hbegun : ∀ h ∈ handlers, h.2 ≠ [] → h.1.started = true) :
    (sessionsOf handlers).length ≤ (handlers.map Prod.fst).countP Handler.busy := by
  induction handlers with
  | nil => simp [sessionsOf]
  | cons h handlers ih =>
    have hrest := ih (fun x hx => hcode x (List.mem_cons_of_mem _ hx)) fun x hx => hbegun x (List.mem_cons_of_mem _ hx)
    have hsessions : sessionsOf (h :: handlers) = sessionsOpen h.2 ++ sessionsOf handlers := rfl
    rw [hsessions, List.length_append, List.map_cons, List.countP_cons]
    rcases sessionsOpen_of_handler (hcode h (List.mem_cons_self ..)) with hnone | ⟨session, o, k, hone, hop, -⟩
    · rw [hnone]
      simp only [List.length_nil]
      omega
    · have hcalls : h.2 ≠ [] := by
        intro hnil
        rw [hnil] at hone
        cases hone
      have hbusy : h.1.busy = true := by
        unfold Handler.busy
        rw [hbegun h (List.mem_cons_self ..) hcalls, hop]
        rfl
      rw [hone, if_pos hbusy]
      simp only [List.length_singleton]
      omega

theorem StageAt.sessions_le {stop : Bool} {stage : Stage P} (h : StageAt S worker loop stop stage)
    (hbegun : stage.Begun) : stage.sessions.length ≤ stage.busy := by
  rcases h.sessions with hnone | ⟨calls, handlers, rfl, hsessions⟩
  · simp [hnone]
  · rw [hsessions]
    cases h with
    | handling _ hcode => exact sessionsOf_le hcode hbegun

/-! ## Steps -/

/-- What the semaphore sees to. -/
structure EventConsumer.Limited (S : Service P) (c : EventConsumer P) : Prop where
  begun : ∀ loop, (c.stages loop).Begun
  busy : c.busy ≤ S.settings.concurrency

theorem busy_setStage (c : EventConsumer P) (loop : Loop) (stage : Stage P) :
    (c.setStage loop stage).busy ≤ c.busy + (stage.busy - (c.stages loop).busy) := by
  rw [busy_eq, busy_eq]
  cases loop with
  | consume | reclaim | metrics =>
    simp only [EventConsumer.setStage, reduceCtorEq, if_true, if_false]
    omega

theorem EventConsumer.Limited.setStage {stage : Stage P} (hl : c.Limited S) (hbegun : stage.Begun)
    (hbusy : c.busy + (stage.busy - (c.stages loop).busy) ≤ S.settings.concurrency) :
    (c.setStage loop stage).Limited S where
  begun := by
    intro l
    by_cases hloop : l = loop
    · simpa [EventConsumer.setStage, hloop] using hbegun
    · simpa [EventConsumer.setStage, hloop] using hl.begun l
  busy := (busy_setStage c loop stage).trans hbusy

/-- A stage none of whose handlers has begun. -/
theorem EventConsumer.Limited.resting {stage : Stage P} (hl : c.Limited S) (loop : Loop) (hbegun : stage.Begun)
    (hbusy : stage.busy = 0) : (c.setStage loop stage).Limited S := by
  refine hl.setStage hbegun ?_
  rw [hbusy, Nat.zero_sub, Nat.add_zero]
  exact hl.busy

theorem call_rests {stage stage' : Stage P} {stop : Bool} {answer : (o : Op P) → o.Reply}
    (h : stage.call worker stop answer = some stage') : stage'.Begun ∧ stage'.busy = 0 := by
  cases stage with
  | running | acking =>
    obtain ⟨r, -, rfl⟩ := Option.map_eq_some_iff.1 h
    exact ⟨trivial, rfl⟩
  | handling | stopped => cases h

theorem move_rests {stage : Stage P} {r : Stage P × List (Pass P)} (h : stage.move S worker loop = some r) :
    r.1.Begun ∧ r.1.busy = 0 := by
  unfold Stage.move at h
  split at h
  case h_3 =>
    -- a batch begins
    obtain rfl := Option.some.inj h
    refine ⟨fun x hx hcalls => ?_, ?_⟩
    · obtain ⟨m, -, rfl⟩ := List.mem_map.1 hx
      exact absurd rfl hcalls
    · refine List.countP_eq_zero.2 fun x hx => ?_
      obtain ⟨y, hy, rfl⟩ := List.mem_map.1 hx
      obtain ⟨m, -, rfl⟩ := List.mem_map.1 hy
      simp [Handler.busy]
  case h_4 =>
    obtain ⟨results, -, rfl⟩ := Option.map_eq_some_iff.1 h
    exact ⟨trivial, rfl⟩
  all_goals first | (obtain rfl := Option.some.inj h; exact ⟨trivial, rfl⟩) | cases h

theorem ite_le_one (b : Bool) : (if b = true then 1 else 0) ≤ 1 := by
  cases b <;> decide

/-- A handler that goes on holds the semaphore; if it has just begun, it has taken a place. -/
theorem busy_handle {handlers : List (Handler P × List (Call (@Op.Reply P)))} {i : Nat} {x : Handler P}
    {made : List (Call Op.Reply)} {o : Op P} {k : o.Reply → Code P (Option Nat)} (first calls : List (Call (@Op.Reply P)))
    (code : Code P (Option Nat)) (hx : handlers[i]? = some (x, made)) (hop : x.code = .op o k) :
    (Stage.handling first (handlers.set i (⟨x.message, true, code⟩, calls))).busy -
      (Stage.handling first handlers).busy ≤ if x.started then 0 else 1 := by
  obtain ⟨hi, hget⟩ := List.getElem?_eq_some_iff.1 hx
  have hi' : i < (handlers.map Prod.fst).length := by simpa using hi
  have hat : (handlers.map Prod.fst)[i] = x := by simp [hget]
  simp only [Stage.busy, Stage.lane, Lane.handlers, List.map_set]
  rw [List.countP_set hi', hat]
  have hone := ite_le_one (Handler.busy ⟨x.message, true, code⟩)
  cases hstarted : x.started with
  | false =>
    simp only [Bool.false_eq_true, if_false]
    omega
  | true =>
    have hbusy : x.busy = true := by
      unfold Handler.busy
      rw [hstarted, hop]
      rfl
    have hpos : 1 ≤ (handlers.map Prod.fst).countP Handler.busy :=
      List.countP_pos_iff.2 ⟨x, List.mem_of_getElem hat, hbusy⟩
    rw [if_pos hbusy, if_pos rfl]
    omega

theorem EventConsumer.Limited.handle {i : Nat} {answer : (o : Op P) → o.Reply} (hl : c.Limited S)
    (h : c.handle S worker loop i answer = some c') : c'.Limited S := by
  have hbegun := hl.begun loop
  unfold EventConsumer.handle at h
  split at h
  · rename_i calls handlers hstage
    split at h
    · cases h
    · rename_i x made hget
      split at h
      · rename_i hfree
        obtain ⟨r, hr, rfl⟩ := Option.map_eq_some_iff.1 h
        obtain ⟨o, k, hop, -, -⟩ := recorded_of_advance hr
        rw [hstage] at hbegun
        refine hl.setStage (fun y hy hcalls => ?_) ?_
        · rcases List.mem_or_eq_of_mem_set hy with hy | rfl
          · exact hbegun y hy hcalls
          · rfl
        · have hbusy := busy_handle calls r.2 r.1 hget hop
          have hle := hl.busy
          rw [hstage]
          split at hbusy
          · omega
          · rename_i hnew
            have hplace := hfree.resolve_left hnew
            omega
      · cases h
  · cases h
  · cases h
  · cases h

theorem limited_step {a : ConsumerAction P} (hl : c.Limited S) (h : c.step S worker a = some c') : c'.Limited S := by
  cases a with
  | requestStop =>
    obtain rfl := Option.some.inj h
    exact ⟨hl.begun, hl.busy⟩
  | call loop answer =>
    obtain ⟨stage, hstage, rfl⟩ := Option.map_eq_some_iff.1 h
    exact hl.resting loop (call_rests hstage).1 (call_rests hstage).2
  | handle loop i answer => exact hl.handle h
  | move loop =>
    obtain ⟨r, hr, rfl⟩ := Option.map_eq_some_iff.1 h
    have hrests := hl.resting loop (move_rests hr).1 (move_rests hr).2
    exact ⟨hrests.begun, hrests.busy⟩

theorem limited_run (h : EventConsumer.Run S worker (EventConsumer.start S worker) c) : c.Limited S :=
  h.keeps ⟨fun _ => trivial, Nat.zero_le _⟩ fun _ _ _ hc ha => limited_step hc ha

/-! ## Runs -/

/-- A pool whose size was left unset has a connection for every handler that is let in. -/
theorem concurrency_le_poolSize (settings : Settings) {pool : PoolSettings} (hunset : pool.dbPoolSize.getD 0 = 0) :
    settings.concurrency ≤ poolSize settings pool := by
  unfold poolSize
  split
  · exact le_max_left ..
  · exact le_max_left ..
  · rename_i n hn
    rw [hn] at hunset
    cases hunset

theorem sessions_le_busy (hi : EventConsumer.Inv S worker c) (hl : c.Limited S) : c.sessions.length ≤ c.busy := by
  have hconsume := (hi.stages .consume).sessions_le (hl.begun .consume)
  have hreclaim := (hi.stages .reclaim).sessions_le (hl.begun .reclaim)
  have hmetrics : (c.stages .metrics).sessions = [] := by
    rcases (hi.stages .metrics).sessions with hnone | ⟨calls, handlers, hstage, -⟩
    · exact hnone
    · -- this loop hands nothing over
      have hat := hi.stages .metrics
      rw [hstage] at hat
      cases hat with
      | handling hcalls =>
        obtain ⟨next, heq, hround⟩ := metricsCalls_of_runs hcalls
        obtain rfl := Except.ok.inj heq
        cases hround
  rw [busy_eq]
  unfold EventConsumer.sessions
  rw [hmetrics, List.append_nil, List.length_append]
  omega

/-- In every state of every run of a worker, the sessions it has open are no more than the handlers that hold
the semaphore, so there is a connection for each of them in a pool whose size was left to follow `concurrency`;
a handler has one at most, and calls nothing else while it has it; and none is left behind by a pass. -/
theorem sessions_fit_the_pool (h : EventConsumer.Run S worker (EventConsumer.start S worker) c) :
    c.sessions.length ≤ c.busy ∧ c.busy ≤ S.settings.concurrency ∧
      (∀ pool : PoolSettings, pool.dbPoolSize.getD 0 = 0 → c.sessions.length ≤ poolSize S.settings pool) ∧
      (∀ loop calls handlers, c.stages loop = .handling calls handlers → ∀ x ∈ handlers,
        sessionsOpen x.2 = [] ∨ ∃ session o k, sessionsOpen x.2 = [session] ∧ x.1.code = .op o k ∧
          o.session = some session) ∧
      ∀ loop, ∀ pass ∈ c.past loop, pass.sessions = [] := by
  have hi := EventConsumer.inv_run h
  have hl := limited_run h
  have hle := sessions_le_busy hi hl
  refine ⟨hle, hl.busy, fun pool hunset => ?_, fun loop calls handlers hstage x hx => ?_, fun loop pass hpass => ?_⟩
  · exact (hle.trans hl.busy).trans (concurrency_le_poolSize S.settings hunset)
  · have hat := hi.stages loop
    rw [hstage] at hat
    cases hat with
    | handling _ hcode => exact sessionsOpen_of_handler (hcode x hx)
  · exact (hi.past loop pass hpass).sessions

/-- Two of three handlers are let in, and both have opened a session. -/
def twoInTheDatabase : List (ConsumerAction EventIn) := List.flatten [
  List.replicate 2 (.call .consume Trace.threeEntries), [.move .consume],
  List.replicate 6 (.handle .consume 2 Trace.quiet), List.replicate 3 (.handle .consume 0 Trace.quiet)]

theorem twoInTheDatabase_fit : ∃ c,
    EventConsumer.Run (documentService { concurrency := 2 }) 0 (EventConsumer.start (documentService { concurrency := 2 }) 0) c ∧
      c.sessions = [0, 0] ∧ c.sessions.length ≤ c.busy ∧ c.sessions.length ≤ poolSize { concurrency := 2 } {} := by
  obtain ⟨c, hrun, hp⟩ := Steps.exists_run (EventConsumer.step (documentService { concurrency := 2 }) 0)
    (EventConsumer.start (documentService { concurrency := 2 }) 0) twoInTheDatabase
    (fun c => decide (c.sessions = [0, 0])) (by decide +kernel)
  have hfit := sessions_fit_the_pool hrun
  exact ⟨c, hrun, of_decide_eq_true hp, hfit.1, hfit.2.2.1 {} rfl⟩

end App
