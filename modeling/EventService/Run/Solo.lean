/-
One worker alone in the whole service: nobody else acts, and what the environment decides about its calls
is given beforehand. Whatever the worker has to run, it can run to its end: the only call that can wait is an
insert, and the database lets none wait for ever.
-/
import EventService.Program.Completion
import EventService.Run.WorkerCalls
import EventService.Run.Histories
import EventService.Run.Workers

namespace App

open Prog Store

variable {P : Type} {S : Service P}

/-! ## The environment -/

/-- What the environment decides about each call, and which database sessions it may end. -/
structure Environment (P : Type) where
  choice : World P → Op P → Choice
  ends : World P → Nat → Prop

/-- Redis answers what has to do with the streams. The cache, the rate source and the database may fail as
they like, only that the database lets no insert wait for ever. -/
structure Healthy (env : Environment P) : Prop where
  redis : ∀ w o, o.offStream = false → (env.choice w o).fault = .none
  database : ∀ w o, (env.choice w o).connection = true
  source : ∀ w currency neg c e, (env.choice w (.fetch currency)).rate = .ok (.finite neg c e) →
    Decimal.representable c e = true
  /-- An insert that waits fails, or the database may end the session it waits for. -/
  released : ∀ w session stmt, w.insertExec session stmt = none →
    (env.choice w (.execute session stmt)).fault ≠ .none ∨
      ∃ u ∈ w.table.uncommitted, u.2.id = stmt.values.id ∧ env.ends w u.1
  random : ∀ w hi, min 0 hi ≤ (env.choice w (.uniform hi)).jitter ∧ (env.choice w (.uniform hi)).jitter ≤ max 0 hi

variable (S) in
/-- The worker goes on, time passes, or the database ends a session that it may end; nothing else happens. -/
inductive AloneStep (env : Environment P) (worker : Nat) (s t : System P) : Prop
  | call {a : Action} {p : Process} {o : Op P} (hcaller : s.caller a = some (p, o, env.choice s.world o))
    (hp : p.isOf worker = true) (h : s.step S a = some t)
  | start (h : s.step S (.start worker) = some t)
  | enter (h : s.step S (.enter worker) = some t)
  | move (loop : Loop) (h : s.step S (.move worker loop) = some t)
  | tick (ms : Nat) (h : s.step S (.tick ms) = some t)
  | drop {session : Nat} (hends : env.ends s.world session) (h : s.step S (.drop session) = some t)

variable (S) in
abbrev AloneRun (env : Environment P) (worker : Nat) : System P → System P → Prop :=
  Relation.ReflTransGen (AloneStep S env worker)

variable {env : Environment P} {worker : Nat} {s t u : System P}

theorem AloneStep.step (h : AloneStep S env worker s t) : ∃ a, s.step S a = some t := by
  cases h with
  | call _ _ h | start h | enter h | move _ h | tick _ h | drop _ h => exact ⟨_, h⟩

theorem AloneRun.run (h : AloneRun S env worker s t) : System.Run S s t := by
  induction h with
  | refl => exact .refl _
  | tail _ hlast ih =>
    obtain ⟨a, ha⟩ := hlast.step
    exact .step a ih ha

/-! ## Calls -/

/-- The effect of a call, once the database has ended what sessions it likes. -/
def Effect (S : Service P) (env : Environment P) (o : Op P) (w : World P) (r : o.Reply) (w' : World P) : Prop :=
  ∃ table, World.exec S o (env.choice { w with table := table } o) { w with table := table } = some (r, w')

/-- A call goes through, or it does once a session is over that the database may end. -/
theorem exists_exec (henv : Healthy env) (o : Op P) (w : World P) :
    (∃ r w', World.exec S o (env.choice w o) w = some (r, w')) ∨
      ∃ session, env.ends w session ∧ ∃ r w',
        World.exec S o (env.choice { w with table := w.table.closeSession session } o)
          { w with table := w.table.closeSession session } = some (r, w') := by
  cases o with
  | execute session stmt =>
    have hexec : ∀ w : World P, w.insertExec session stmt ≠ none →
        ∃ r w', World.exec S (.execute session stmt) (env.choice w (.execute session stmt)) w = some (r, w') := by
      intro w hw
      obtain ⟨x, hx⟩ := Option.ne_none_iff_exists'.1 hw
      simp only [World.exec, henv.database, if_true, hx]
      exact ⟨_, _, rfl⟩
    by_cases hw : w.insertExec session stmt = none
    · rcases henv.released w session stmt hw with hfails | ⟨u, hu, hk, hends⟩
      · left
        simp only [World.exec, henv.database, if_true, hw]
        unfold Choice.waiting
        split
        · rename_i hnone
          exact absurd hnone hfails
        · exact ⟨_, _, rfl⟩
        · exact ⟨_, _, rfl⟩
      · refine Or.inr ⟨u.1, hends, hexec _ fun hstill => ?_⟩
        exact Table.insert_closeSession_ne_waits hu hk (insertExec_eq_none_iff.1 hstill).2
    · exact Or.inl (hexec w hw)
  | fetch currency =>
    left
    have hsource := henv.source w currency
    simp only [World.exec, World.fetchExec]
    split
    · rename_i neg c e heq
      rw [if_pos (hsource neg c e heq)]
      exact ⟨_, _, rfl⟩
    · exact ⟨_, _, rfl⟩
  | uniform hi =>
    left
    simp only [World.exec, henv.random w hi, and_self, if_true]
    exact ⟨_, _, rfl⟩
  | openSession | commit session | close session =>
    left
    simp only [World.exec, henv.database, if_true]
    exact ⟨_, _, rfl⟩
  | xpending consumer count wanted =>
    left
    simp only [World.exec]
    split <;> exact ⟨_, _, rfl⟩
  | _ => exact Or.inl ⟨_, _, rfl⟩

/-- So a worker that can make its next call wherever it would go through, makes it. -/
theorem exists_performs (henv : Healthy env) {o : Op P} {Q : o.Reply → System P → Prop}
    (hcall : ∀ s' r w', s'.workers = s.workers → World.exec S o (env.choice s'.world o) s'.world = some (r, w') →
      ∃ t, AloneStep S env worker s' t ∧ t.world = w' ∧ Q r t) :
    ∃ t r, AloneRun S env worker s t ∧ Effect S env o s.world r t.world ∧ Q r t := by
  rcases exists_exec (S := S) henv o s.world with ⟨r, w', hexec⟩ | ⟨session, hends, r, w', hexec⟩
  · obtain ⟨t, hstep, rfl, hq⟩ := hcall s r w' rfl hexec
    exact ⟨t, r, .single hstep, ⟨s.world.table, hexec⟩, hq⟩
  · obtain ⟨t, hstep, rfl, hq⟩ :=
      hcall { s with world := { s.world with table := s.world.table.closeSession session } } r w' rfl hexec
    exact ⟨t, r, .tail (.single (.drop hends rfl)) hstep, ⟨_, hexec⟩, hq⟩

/-! ## Places -/

/-- Where every other lane is at the beginning of a round. -/
def oneLane (S : Service P) (worker : Nat) (loop : Loop) (lane : Lane P) : Loop → Lane P :=
  Worker.setLane (fun l => .running (round S worker l)) loop lane

theorem oneLane_self (loop : Loop) (lane : Lane P) : oneLane S worker loop lane loop = lane := by
  simp [oneLane, Worker.setLane]

theorem setLane_oneLane (loop : Loop) (lane lane' : Lane P) :
    Worker.setLane (oneLane S worker loop lane) loop lane' = oneLane S worker loop lane' := by
  funext l
  unfold oneLane Worker.setLane
  split <;> rfl

theorem oneLane_round (loop : Loop) :
    oneLane S worker loop (.running (round S worker loop)) = fun l => .running (round S worker l) := by
  funext l
  unfold oneLane Worker.setLane
  split
  · rename_i hl
    rw [hl]
  · rfl

theorem place_booting (henv : Healthy env) :
    Place (AloneStep S env worker) System.world (Effect S env)
      fun (s : System P) (code : Code P Unit) => s.workers worker = .booting code where
  performs := by
    intro s o k hs
    refine exists_performs henv fun s' r w' hworkers hexec => ?_
    rw [← hworkers] at hs
    refine ⟨{ s' with world := w', workers := s'.setWorker worker (.booting (k r)) }, ?_, rfl, s'.setWorker_self _⟩
    refine .call (a := .boot worker (env.choice s'.world o)) (p := .booting worker) (o := o) ?_ (by simp [Process.isOf]) ?_
    · simp only [System.caller, hs, nextOp, Option.map_some]
    · simp only [System.step, hs, Protocol.advance, hexec, Option.map_some]

theorem place_running (henv : Healthy env) (loop : Loop) :
    Place (AloneStep S env worker) System.world (Effect S env)
      fun (s : System P) (code : Code P (Next P)) => s.workers worker = .up (oneLane S worker loop (.running code)) where
  performs := by
    intro s o k hs
    refine exists_performs henv fun s' r w' hworkers hexec => ?_
    rw [← hworkers] at hs
    refine ⟨{ s' with
      world := w', workers := s'.setWorker worker (.up (oneLane S worker loop (.running (k r)))) }, ?_, rfl,
      s'.setWorker_self _⟩
    refine .call (a := .call worker loop (env.choice s'.world o)) (p := .loop worker loop) (o := o) ?_
      (by simp [Process.isOf]) ?_
    · simp only [System.caller, hs, oneLane_self, Lane.nextOp, nextOp, Option.map_some]
    · simp only [System.step, hs, oneLane_self, Lane.call, Protocol.advance, hexec, Option.map_some, setLane_oneLane]

theorem place_acking (henv : Healthy env) (loop : Loop) :
    Place (AloneStep S env worker) System.world (Effect S env)
      fun (s : System P) (code : Code P Unit) => s.workers worker = .up (oneLane S worker loop (.acking code)) where
  performs := by
    intro s o k hs
    refine exists_performs henv fun s' r w' hworkers hexec => ?_
    rw [← hworkers] at hs
    refine ⟨{ s' with
      world := w', workers := s'.setWorker worker (.up (oneLane S worker loop (.acking (k r)))) }, ?_, rfl,
      s'.setWorker_self _⟩
    refine .call (a := .call worker loop (env.choice s'.world o)) (p := .loop worker loop) (o := o) ?_
      (by simp [Process.isOf]) ?_
    · simp only [System.caller, hs, oneLane_self, Lane.nextOp, nextOp, Option.map_some]
    · simp only [System.step, hs, oneLane_self, Lane.call, Protocol.advance, hexec, Option.map_some, setLane_oneLane]

/-- No handler holds the semaphore. -/
theorem busy_oneLane {loop : Loop} {hs : List (Handler P)} (h : ∀ x ∈ hs, x.busy = false) :
    Worker.busy (oneLane S worker loop (.handling hs)) = 0 := by
  have hlane : ∀ l, ∀ x ∈ (oneLane S worker loop (.handling hs) l).handlers, x.busy = false := by
    intro l x hx
    unfold oneLane Worker.setLane at hx
    split at hx
    · exact h x hx
    · cases hx
  unfold Worker.busy
  rw [List.length_eq_zero_iff, List.filter_eq_nil_iff]
  intro x hx
  rw [Bool.not_eq_true]
  rcases List.mem_append.1 hx with hx | hx
  · exact hlane _ x hx
  · exact hlane _ x hx

/-- A handler whose neighbours are not busy. -/
theorem place_handler (henv : Healthy env) (hconcurrency : 1 ≤ S.settings.concurrency) (loop : Loop)
    {before after : List (Handler P)} (hbefore : ∀ x ∈ before, x.busy = false) (hafter : ∀ x ∈ after, x.busy = false)
    (m : QueuedMessage P) : Place (AloneStep S env worker) System.world (Effect S env)
      fun (s : System P) (code : Code P (Option Nat)) => ∃ started,
        s.workers worker = .up (oneLane S worker loop (.handling (before ++ ⟨m, started, code⟩ :: after))) where
  performs := by
    rintro s o k ⟨started, hs⟩
    refine exists_performs henv fun s' r w' hworkers hexec => ?_
    rw [← hworkers] at hs
    have hget : (oneLane S worker loop (.handling (before ++ ⟨m, started, .op o k⟩ :: after)) loop).handlers[before.length]? =
        some ⟨m, started, .op o k⟩ := by
      rw [oneLane_self]
      simp [Lane.handlers]
    have hset : (oneLane S worker loop (.handling (before ++ ⟨m, started, .op o k⟩ :: after)) loop).handlers.set
        before.length ⟨m, true, k r⟩ = before ++ ⟨m, true, k r⟩ :: after := by
      rw [oneLane_self]
      simp [Lane.handlers]
    have hfree : started = true ∨
        Worker.busy (oneLane S worker loop (.handling (before ++ ⟨m, started, .op o k⟩ :: after))) <
          S.settings.concurrency := by
      cases started with
      | true => exact Or.inl rfl
      | false =>
        right
        rw [busy_oneLane]
        · exact hconcurrency
        · intro x hx
          rcases List.mem_append.1 hx with hx | hx
          · exact hbefore x hx
          · rcases List.mem_cons.1 hx with rfl | hx
            · rfl
            · exact hafter x hx
    refine ⟨{ s' with
      world := w'
      workers := s'.setWorker worker (.up (oneLane S worker loop (.handling (before ++ ⟨m, true, k r⟩ :: after))))
      outcomes := s'.outcomes ++ ((Handler.result ⟨m, true, k r⟩).getD none).toList }, ?_, rfl,
      true, s'.setWorker_self _⟩
    refine .call (a := .handle worker loop before.length (env.choice s'.world o)) (p := .handler worker loop before.length)
      (o := o) ?_ (by simp [Process.isOf]) ?_
    · simp only [System.caller, hs, hget, Option.bind_some, nextOp, Option.map_some]
    · simp only [System.step, hs, System.handle, hget]
      rw [if_pos hfree]
      simp only [Handler.step, Protocol.advance, hexec, Option.map_some, hset, setLane_oneLane]

/-! ## What calls leave behind -/

/-- A later world for the worker: time has not gone back, the stream is a later one, the dead-letter stream
is there if it was, and nobody was asked to stop in between. -/
structure Onward (w w' : World P) : Prop where
  now : w.now ≤ w'.now
  stream : w.stream.Le w'.stream
  dlq : w.dlq.isSome → w'.dlq.isSome
  stops : w'.stops = w.stops

theorem Onward.refl (w : World P) : Onward w w := ⟨le_rfl, .refl _, id, rfl⟩

theorem Onward.trans {u v w : World P} (h : Onward u v) (h' : Onward v w) : Onward u w :=
  ⟨h.now.trans h'.now, h.stream.trans h'.stream, fun hu => h'.dlq (h.dlq hu), h'.stops.trans h.stops⟩

theorem onward_of_exec {o : Op P} {c : Choice} {r : o.Reply} {w w' : World P}
    (h : World.exec S o c w = some (r, w')) : Onward w w' := by
  refine ⟨(now_of_exec h).ge, ?_, ?_, stops_of_exec h⟩
  · rcases changed_of_exec h with rfl | hchanged
    · exact .refl _
    · cases hchanged with
      | xadd k => exact Stream.Le.addCapped _ _ _ _
      | xgroupCreate hcreate => exact Stream.Le.createGroup hcreate
      | xreadgroup hread => exact Stream.Le.readNew hread
      | xautoclaim hclaim => exact Stream.Le.autoclaim hclaim
      | xack => exact Stream.Le.ack _ _
      | deadLetter k =>
        unfold World.deadLetterExec
        split <;> exact Stream.Le.ack _ _
      | xpending | set | fetch | openSession | conflict | inserted | commit | close | record => exact .refl _
  · rcases changed_of_exec h with rfl | hchanged
    · exact id
    · cases hchanged with
      | deadLetter k =>
        unfold World.deadLetterExec
        split
        · exact id
        · exact fun _ => rfl
      | xadd | xgroupCreate | xreadgroup | xautoclaim | xack | xpending | set | fetch | openSession | conflict
      | inserted | commit | close | record => exact id

theorem Effect.onward {o : Op P} {r : o.Reply} {w w' : World P} (h : Effect S env o w r w') : Onward w w' := by
  obtain ⟨table, hexec⟩ := h
  exact (Onward.mk le_rfl (.refl _) id rfl : Onward w { w with table := table }).trans (onward_of_exec hexec)

theorem Effect.sameEntries {o : Op P} {r : o.Reply} {w w' : World P} (h : Effect S env o w r w') (ho : o.isXadd = false) :
    SameEntries w w' := by
  obtain ⟨table, hexec⟩ := h
  have hkept := sameEntries_of_exec ho hexec
  exact ⟨hkept.added, hkept.dropped⟩

/-- The trail of a worker's code. -/
theorem onward_of_trail {τ : List (Call Op.Reply)} {w w' : World P} (h : Trail (Effect S env) w τ w') : Onward w w' :=
  h.keeps Onward.refl Onward.trans fun _ _ _ _ hx => hx.onward

theorem sameEntries_of_trail {α : Type} {p : Code P α} {x : Except Exn α} {τ : List (Call Op.Reply)} {w w' : World P}
    (h : Trail (Effect S env) w τ w') (hruns : Runs p τ x) (hp : ByWorker S worker p) : SameEntries w w' :=
  h.keeps SameEntries.refl SameEntries.trans fun c hc _ _ hx =>
    hx.sameEntries (isXadd_of_byWorker (hruns.only hp c hc))

/-! ## Rounds -/

/-- The worker's loops are at the beginning of their rounds, and it was not asked to stop. -/
structure Ready (S : Service P) (worker : Nat) (s : System P) : Prop where
  lanes : s.workers worker = .up fun loop => .running (round S worker loop)
  told : worker ∉ s.world.stops

/-- What a run of the worker leaves behind. -/
structure Reaches (S : Service P) (env : Environment P) (worker : Nat) (s t : System P) : Prop where
  run : AloneRun S env worker s t
  onward : Onward s.world t.world
  kept : SameEntries s.world t.world

theorem Reaches.refl (s : System P) : Reaches S env worker s s := ⟨.refl, .refl _, .refl _⟩

theorem Reaches.trans (h : Reaches S env worker s t) (h' : Reaches S env worker t u) : Reaches S env worker s u :=
  ⟨h.run.trans h'.run, h.onward.trans h'.onward, h.kept.trans h'.kept⟩

theorem reaches_of_step (h : AloneStep S env worker s t) (hnow : s.world.now ≤ t.world.now)
    (hstream : t.world.stream = s.world.stream) (hdlq : t.world.dlq = s.world.dlq)
    (hstops : t.world.stops = s.world.stops) : Reaches S env worker s t where
  run := .single h
  onward := ⟨hnow, hstream ▸ .refl _, by rw [hdlq]; exact id, hstops⟩
  kept := ⟨by rw [hstream], by rw [hstream]⟩

/-- Time passes. -/
theorem exists_later (hready : Ready S worker s) (ms : Nat) : ∃ t, Reaches S env worker s t ∧ Ready S worker t ∧
    t.world.stream = s.world.stream ∧ ms ≤ t.world.now :=
  ⟨_, reaches_of_step (.tick ms rfl) (Nat.le_add_right _ _) rfl rfl rfl, ⟨hready.lanes, hready.told⟩, rfl,
    Nat.le_add_left _ _⟩

theorem reaches_of_complete {α : Type} {p : Code P α} {x : Except Exn α} {τ : List (Call Op.Reply)}
    (hrun : AloneRun S env worker s t) (htrail : Trail (Effect S env) s.world τ t.world) (hruns : Runs p τ x)
    (hp : ByWorker S worker p) : Reaches S env worker s t :=
  ⟨hrun, onward_of_trail htrail, sameEntries_of_trail htrail hruns hp⟩

/-- The lane goes on where its code has returned. -/
theorem reaches_of_move {loop : Loop} {lane lane' : Lane P} (hs : s.workers worker = .up (oneLane S worker loop lane))
    (hmove : lane.move S worker loop = some lane') :
    ∃ t, Reaches S env worker s t ∧ t.world = s.world ∧ t.workers worker = .up (oneLane S worker loop lane') := by
  have hstep : s.step S (.move worker loop) =
      some { s with workers := s.setWorker worker (.up (oneLane S worker loop lane')) } := by
    simp only [System.step, hs, oneLane_self, hmove, Option.map_some, setLane_oneLane]
  exact ⟨_, reaches_of_step (.move loop hstep) le_rfl rfl rfl rfl, rfl, s.setWorker_self _⟩

theorem busy_of_result {x : Handler P} {r : Option Nat} (h : x.result = some r) : x.busy = false := by
  unfold Handler.result at h
  unfold Handler.busy
  cases hcode : x.code with
  | ret a => simp
  | raise e => simp
  | op o k =>
    rw [hcode] at h
    cases h

/-- The handlers of a batch run one after the other. -/
theorem reaches_handled (henv : Healthy env) (hconcurrency : 1 ≤ S.settings.concurrency) {loop : Loop}
    {messages : List (QueuedMessage P)} (before : List (Handler P)) (hbefore : ∀ x ∈ before, ∃ r, x.result = some r)
    (hs : s.workers worker = .up (oneLane S worker loop
      (.handling (before ++ messages.map fun m => ⟨m, false, handleOne S m⟩)))) :
    ∃ t hs, Reaches S env worker s t ∧ t.workers worker = .up (oneLane S worker loop (.handling hs)) ∧
      ∀ x ∈ hs, ∃ r, x.result = some r := by
  induction messages generalizing before s with
  | nil =>
    rw [List.map_nil, List.append_nil] at hs
    exact ⟨s, before, .refl s, hs, hbefore⟩
  | cons m messages ih =>
    have hidle : ∀ x ∈ before, x.busy = false := by
      intro x hx
      obtain ⟨r, hr⟩ := hbefore x hx
      exact busy_of_result hr
    have hwaiting : ∀ x ∈ messages.map (fun m => (⟨m, false, handleOne S m⟩ : Handler P)), x.busy = false := by
      intro x hx
      obtain ⟨m', -, rfl⟩ := List.mem_map.1 hx
      rfl
    obtain ⟨τ, x, t, hruns, htrail, hrun, started, ht⟩ :=
      (place_handler henv hconcurrency loop hidle hwaiting m).complete ⟨false, hs⟩
    obtain ⟨r, rfl⟩ := handleOne_returns hruns
    have hreach := reaches_of_complete hrun htrail hruns (byWorker_handleOne m)
    have hbefore' : ∀ y ∈ before ++ [⟨m, started, .ret r⟩], ∃ r, Handler.result y = some r := by
      intro y hy
      rcases List.mem_append.1 hy with hy | hy
      · exact hbefore y hy
      · rw [List.mem_singleton.1 hy]
        exact ⟨r, rfl⟩
    obtain ⟨u, hs', hrest, hu, hall⟩ := ih (s := t) _ hbefore' (by rw [ht]; simp)
    exact ⟨u, hs', hreach.trans hrest, hu, hall⟩

theorem exists_results {hs : List (Handler P)} (h : ∀ x ∈ hs, ∃ r, x.result = some r) :
    ∃ results, hs.mapM Handler.result = some results := by
  induction hs with
  | nil => exact ⟨[], rfl⟩
  | cons x hs ih =>
    obtain ⟨r, hr⟩ := h x (List.mem_cons_self ..)
    obtain ⟨results, hresults⟩ := ih fun y hy => h y (List.mem_cons_of_mem _ hy)
    exact ⟨r :: results, by simp [List.mapM_cons, hr, hresults]⟩

/-- A batch is handled and acknowledged, and the loop goes round again. -/
theorem reaches_batch (henv : Healthy env) (hconcurrency : 1 ≤ S.settings.concurrency) {loop : Loop}
    {messages : List (QueuedMessage P)}
    (hs : s.workers worker = .up (oneLane S worker loop (.running (.ret (.handle messages))))) :
    ∃ t, Reaches S env worker s t ∧
      t.workers worker = .up (oneLane S worker loop (.running (round S worker loop))) := by
  obtain ⟨s₁, h₁, -, hs₁⟩ := reaches_of_move hs rfl
  obtain ⟨s₂, hs', h₂, hs₂, hall⟩ := reaches_handled henv hconcurrency [] (by simp) hs₁
  obtain ⟨results, hresults⟩ := exists_results hall
  obtain ⟨s₃, h₃, -, hs₃⟩ := reaches_of_move hs₂ (Option.map_eq_some_iff.2 ⟨results, hresults, rfl⟩)
  obtain ⟨τ, x, s₄, hruns, htrail, hrun, hs₄⟩ := (place_acking henv loop).complete hs₃
  obtain ⟨rfl, -⟩ := runs_ackDone hruns
  obtain ⟨s₅, h₅, -, hs₅⟩ := reaches_of_move hs₄ rfl
  have h₄ := reaches_of_complete hrun htrail hruns (byWorker_of_byLoop (byLoop_ackDone results))
  exact ⟨s₅, (((h₁.trans h₂).trans h₃).trans h₄).trans h₅, hs₅⟩

/-- A round, with the batch it may hand over: what its calls leave behind, and where the worker is then. -/
theorem reaches_round (henv : Healthy env) (hconcurrency : 1 ≤ S.settings.concurrency) (hready : Ready S worker s)
    (loop : Loop) : ∃ τ next w t, Runs (round S worker loop) τ (.ok next) ∧ Trail (Effect S env) s.world τ w ∧
      (next ≠ .stop → Reaches S env worker s t ∧ Onward w t.world ∧ Ready S worker t) := by
  have hs : s.workers worker = .up (oneLane S worker loop (.running (round S worker loop))) := by
    rw [oneLane_round]
    exact hready.lanes
  obtain ⟨τ, x, u, hruns, htrail, hrun, hu⟩ := (place_running henv loop).complete hs
  obtain ⟨next, rfl⟩ := round_returns hruns
  have h₁ := reaches_of_complete hrun htrail hruns (byWorker_of_byLoop (byLoop_round loop))
  have hback : ∀ {t : System P}, Reaches S env worker u t →
      t.workers worker = .up (oneLane S worker loop (.running (round S worker loop))) →
        Reaches S env worker s t ∧ Onward u.world t.world ∧ Ready S worker t := by
    intro t h ht
    rw [oneLane_round] at ht
    refine ⟨h₁.trans h, h.onward, ht, ?_⟩
    rw [(h₁.trans h).onward.stops]
    exact hready.told
  cases next with
  | stop => exact ⟨τ, .stop, u.world, u, hruns, htrail, fun hne => absurd rfl hne⟩
  | again =>
    obtain ⟨t, h₂, -, ht⟩ := reaches_of_move hu rfl
    exact ⟨τ, .again, u.world, t, hruns, htrail, fun _ => hback h₂ ht⟩
  | handle messages =>
    obtain ⟨t, h₂, ht⟩ := reaches_batch henv hconcurrency hu
    exact ⟨τ, .handle messages, u.world, t, hruns, htrail, fun _ => hback h₂ ht⟩

end App
