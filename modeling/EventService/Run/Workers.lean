/-
A worker of the whole service is, seen by itself, one of `EventService.Model.Loops`. Its own steps are the
same, with the world for what answers its calls, and what the others do only changes what it is answered.
So what holds in every run of one worker by itself holds of every worker of the service.
-/
import EventService.Run.Passes

namespace App

open Prog

variable {P : Type} {S : Service P} {worker : Nat}

/-! ## What a step does to one worker -/

/-- No call changes a stop flag. -/
theorem stops_of_exec {o : Op P} {c : Choice} {w w' : World P} {r : o.Reply}
    (h : World.exec S o c w = some (r, w')) : w'.stops = w.stops := by
  rcases changed_of_exec h with rfl | hchanged
  · rfl
  · cases hchanged with
    | deadLetter k =>
      unfold World.deadLetterExec
      split <;> rfl
    | xadd | xgroupCreate | xreadgroup | xautoclaim | xpending | xack | set | fetch | openSession | conflict
    | inserted | commit | close | record => rfl

theorem stops_of_advance {α : Type} {code code' : Code P α} {c : Choice} {w w' : World P}
    (h : Protocol.advance (World.exec S) code c w = some (code', w')) : w'.stops = w.stops := by
  obtain ⟨o, r, hexec⟩ := Protocol.exec_of_advance h
  exact stops_of_exec hexec

theorem stops_of_call {lane lane' : Lane P} {c : Choice} {w w' : World P} (h : lane.call S c w = some (lane', w')) :
    w'.stops = w.stops := by
  cases lane with
  | running code =>
    obtain ⟨x, hx, heq⟩ := Option.map_eq_some_iff.1 h
    rw [← (Prod.mk.inj heq).2]
    exact stops_of_advance hx
  | acking code =>
    obtain ⟨x, hx, heq⟩ := Option.map_eq_some_iff.1 h
    rw [← (Prod.mk.inj heq).2]
    exact stops_of_advance hx
  | handling | stopped => cases h

/-- A handler that goes on makes its next call, and nothing else happens. -/
theorem System.handle_cases {s t : System P} {lanes : Loop → Lane P} {loop : Loop} {i : Nat} {c : Choice}
    (h : s.handle S worker lanes loop i c = some t) :
    ∃ x r, (lanes loop).handlers[i]? = some x ∧ (x.started ∨ Worker.busy lanes < S.settings.concurrency) ∧
      Protocol.advance (World.exec S) x.code c s.world = some r ∧ t.world = r.2 ∧
      t.workers = s.setWorker worker (.up (Worker.setLane lanes loop
        (.handling ((lanes loop).handlers.set i ⟨x.message, true, r.1⟩)))) := by
  unfold handle at h
  split at h
  · cases h
  · rename_i x hx
    split at h
    · rename_i hfree
      obtain ⟨y, hy, rfl⟩ := Option.map_eq_some_iff.1 h
      obtain ⟨r, hr, rfl⟩ := Option.map_eq_some_iff.1 hy
      exact ⟨x, r, hx, hfree, hr, rfl, rfl⟩
    · cases h

/-- What a step of the service means to one worker. -/
inductive WorkerStep (S : Service P) (worker : Nat) (s t : System P) : Prop
  | others (h : t.workers worker = s.workers worker) (hstops : worker ∈ t.world.stops ↔ worker ∈ s.world.stops)
  | told (h : t.workers worker = s.workers worker) (hstops : worker ∈ t.world.stops)
  | booting {code : Code P Unit} (h : t.workers worker = .booting code)
  | entered {code : Code P Unit} (hs : s.workers worker = .booting code)
    (h : t.workers worker = .up fun loop => .running (round S worker loop))
  | ended (h : t.workers worker = .down)
  | called {lanes : Loop → Lane P} {loop : Loop} {c : Choice} {lane : Lane P} (hs : s.workers worker = .up lanes)
    (hcall : (lanes loop).call S c s.world = some (lane, t.world))
    (h : t.workers worker = .up (Worker.setLane lanes loop lane))
  | handled {lanes : Loop → Lane P} {loop : Loop} {i : Nat} {c : Choice} (hs : s.workers worker = .up lanes)
    (h : s.handle S worker lanes loop i c = some t)
  | moved {lanes : Loop → Lane P} {loop : Loop} {lane : Lane P} (hs : s.workers worker = .up lanes)
    (hmove : (lanes loop).move S worker loop = some lane)
    (h : t.workers worker = .up (Worker.setLane lanes loop lane)) (hworld : t.world = s.world)

@[simp] theorem System.setWorker_self (s : System P) (x : Worker P) : s.setWorker worker x worker = x := by
  simp [System.setWorker]

theorem System.setWorker_of_ne {j : Nat} (s : System P) (x : Worker P) (hj : worker ≠ j) :
    s.setWorker j x worker = s.workers worker := by
  simp [System.setWorker, hj]

/-- A step that sets one worker is nothing to another, if the stop flags stay. -/
theorem workerStep_of_set {s t : System P} {j : Nat} {x : Worker P} (h : t.workers = s.setWorker j x)
    (hstops : t.world.stops = s.world.stops)
    (hself : worker = j → t.workers worker = x → WorkerStep S worker s t) : WorkerStep S worker s t := by
  by_cases hj : worker = j
  · apply hself hj
    rw [h, hj]
    exact s.setWorker_self x
  · apply WorkerStep.others
    · rw [h]
      exact s.setWorker_of_ne x hj
    · rw [hstops]

theorem System.workerStep (worker : Nat) {s t : System P} {a : Action} (h : s.step S a = some t) :
    WorkerStep S worker s t := by
  cases a with
  | tick | expire | drop | request =>
    obtain rfl := Option.some.inj h
    exact .others rfl Iff.rfl
  | serve i c =>
    simp only [step] at h
    split at h
    · cases h
    · obtain ⟨x, hx, rfl⟩ := Option.map_eq_some_iff.1 h
      exact .others rfl (by rw [stops_of_advance hx])
  | start j =>
    simp only [step] at h
    split at h
    · obtain rfl := Option.some.inj h
      by_cases hj : worker = j
      · subst hj
        exact .booting (s.setWorker_self _)
      · apply WorkerStep.others
        · exact s.setWorker_of_ne _ hj
        · simp [hj]
    · cases h
    · cases h
  | boot j c =>
    simp only [step] at h
    split at h
    · obtain ⟨x, hx, rfl⟩ := Option.map_eq_some_iff.1 h
      exact workerStep_of_set rfl (stops_of_advance hx) fun _ hself => .booting hself
    · cases h
    · cases h
  | enter j =>
    simp only [step] at h
    split at h
    · rename_i hbooting
      obtain rfl := Option.some.inj h
      refine workerStep_of_set rfl rfl fun hj hself => ?_
      subst hj
      exact .entered hbooting hself
    all_goals cases h
  | requestStop j =>
    obtain rfl := Option.some.inj h
    by_cases hj : worker = j
    · subst hj
      exact .told rfl (List.mem_cons_self ..)
    · exact .others rfl (by simp [hj])
  | exit j =>
    simp only [step] at h
    split at h
    · split at h
      · obtain rfl := Option.some.inj h
        exact workerStep_of_set rfl rfl fun _ hself => .ended hself
      · cases h
    · cases h
    · cases h
  | crash j =>
    obtain rfl := Option.some.inj h
    exact workerStep_of_set rfl rfl fun _ hself => .ended hself
  | call j loop c =>
    simp only [step] at h
    split at h
    · rename_i lanes hup
      obtain ⟨x, hx, rfl⟩ := Option.map_eq_some_iff.1 h
      refine workerStep_of_set rfl (stops_of_call hx) fun hj hself => ?_
      subst hj
      exact .called hup hx hself
    · cases h
    · cases h
  | handle j loop i c =>
    simp only [step] at h
    split at h
    · rename_i lanes hup
      obtain ⟨x, r, -, -, hr, hworld, hworkers⟩ := handle_cases h
      refine workerStep_of_set hworkers (hworld ▸ stops_of_advance hr) fun hj _ => ?_
      subst hj
      exact .handled hup h
    · cases h
    · cases h
  | move j loop =>
    simp only [step] at h
    split at h
    · rename_i lanes hup
      obtain ⟨lane, hlane, rfl⟩ := Option.map_eq_some_iff.1 h
      refine workerStep_of_set rfl rfl fun hj hself => ?_
      subst hj
      exact .moved hup hlane hself rfl
    · cases h
    · cases h

/-! ## One worker by itself -/

/-- The worker's loops are where those of `c` are, and its stop flag is the same. -/
structure Follows (worker : Nat) (s : System P) (c : EventConsumer P) : Prop where
  lanes : s.workers worker = .up fun loop => (c.stages loop).lane
  stop : c.stop = decide (worker ∈ s.world.stops)

/-- Whatever the world answers to a call, it can be answered from outside. -/
theorem exists_heard (worker : Nat) {o : Op P} {c : Choice} {w w' : World P} {r : o.Reply}
    (h : World.exec S o c w = some (r, w')) :
    ∃ answer, heard worker (decide (worker ∈ w.stops)) answer o = r := by
  classical
  refine ⟨fun o' => if heq : o' = o then heq ▸ r else Classical.choice (nonempty_reply o'), ?_⟩
  cases o with
  | stopIsSet i =>
    show (if i = worker then _ else _) = r
    split
    · rename_i hi
      rw [← hi]
      exact (Prod.mk.inj (Option.some.inj h)).1
    · exact dif_pos rfl
  | _ => exact dif_pos rfl

/-- So code that goes on in the world goes on by itself. -/
theorem exists_recorded (worker : Nat) {α : Type} {code : Code P α} {c : Choice} {w : World P} {r : Code P α × World P}
    (h : Protocol.advance (World.exec S) code c w = some r) (calls : List (Call Op.Reply)) :
    ∃ answer calls', Protocol.advance (recorded worker (decide (worker ∈ w.stops))) code answer calls =
      some (r.1, calls') := by
  cases code with
  | ret a => cases h
  | raise e => cases h
  | op o k =>
    obtain ⟨⟨reply, w'⟩, hexec, rfl⟩ := Option.map_eq_some_iff.1 h
    obtain ⟨answer, rfl⟩ := exists_heard worker hexec
    exact ⟨answer, _, rfl⟩

theorem exists_call (worker : Nat) {stage : Stage P} {c : Choice} {w w' : World P} {lane : Lane P}
    (h : stage.lane.call S c w = some (lane, w')) :
    ∃ answer stage', stage.call worker (decide (worker ∈ w.stops)) answer = some stage' ∧ stage'.lane = lane := by
  cases stage with
  | running code calls =>
    obtain ⟨r, hr, heq⟩ := Option.map_eq_some_iff.1 h
    obtain ⟨answer, calls', hadvance⟩ := exists_recorded worker hr calls
    exact ⟨answer, _, Option.map_eq_some_iff.2 ⟨_, hadvance, rfl⟩, (Prod.mk.inj heq).1⟩
  | acking calls handled code acknowledgement =>
    obtain ⟨r, hr, heq⟩ := Option.map_eq_some_iff.1 h
    obtain ⟨answer, calls', hadvance⟩ := exists_recorded worker hr acknowledgement
    exact ⟨answer, _, Option.map_eq_some_iff.2 ⟨_, hadvance, rfl⟩, (Prod.mk.inj heq).1⟩
  | handling | stopped => cases h

theorem exists_move {stage : Stage P} {loop : Loop} {lane : Lane P} (h : stage.lane.move S worker loop = some lane) :
    ∃ r, stage.move S worker loop = some r ∧ r.1.lane = lane := by
  cases stage with
  | running code calls =>
    cases code with
    | op o k => cases h
    | raise e => cases h
    | ret next =>
      cases next with
      | stop | again => exact ⟨_, rfl, Option.some.inj h⟩
      | handle messages =>
        refine ⟨_, rfl, ?_⟩
        rw [← Option.some.inj h]
        simp [Stage.lane]
  | handling calls hs =>
    obtain ⟨results, hresults, rfl⟩ := Option.map_eq_some_iff.1 h
    exact ⟨_, Option.map_eq_some_iff.2 ⟨results, hresults, rfl⟩, rfl⟩
  | acking calls handled code acknowledgement =>
    cases code with
    | op o k => cases h
    | raise e => cases h
    | ret u => exact ⟨_, rfl, Option.some.inj h⟩
  | stopped => cases h

theorem exists_handle {c : EventConsumer P} {w : World P} {loop : Loop} {i : Nat} {ch : Choice} {x : Handler P}
    {r : Code P (Option Nat) × World P} (hstop : c.stop = decide (worker ∈ w.stops))
    (hx : (c.stages loop).lane.handlers[i]? = some x) (hfree : x.started ∨ c.busy < S.settings.concurrency)
    (h : Protocol.advance (World.exec S) x.code ch w = some r) :
    ∃ answer stage, c.handle S worker loop i answer = some (c.setStage loop stage) ∧
      stage.lane = .handling ((c.stages loop).lane.handlers.set i ⟨x.message, true, r.1⟩) := by
  cases hstage : c.stages loop with
  | running | acking | stopped =>
    rw [hstage] at hx
    cases hx
  | handling calls hs =>
    rw [hstage] at hx
    change (hs.map Prod.fst)[i]? = some x at hx
    rw [List.getElem?_map] at hx
    obtain ⟨⟨x', made⟩, hget, rfl⟩ := Option.map_eq_some_iff.1 hx
    obtain ⟨answer, made', hadvance⟩ := exists_recorded worker h made
    refine ⟨answer, .handling calls (hs.set i (⟨x'.message, true, r.1⟩, made')), ?_, ?_⟩
    · unfold EventConsumer.handle
      rw [hstage]
      dsimp only
      rw [hget]
      dsimp only
      rw [if_pos hfree, hstop, hadvance]
      rfl
    · show Lane.handling ((hs.set i _).map Prod.fst) = .handling ((hs.map Prod.fst).set i _)
      rw [List.map_set]

/-- One loop goes on, and the others stay where they are. -/
theorem follows_setStage {s t : System P} {c : EventConsumer P} {loop : Loop} {stage : Stage P}
    (h : Follows worker s c) (hstops : t.world.stops = s.world.stops)
    (ht : t.workers worker = .up (Worker.setLane (fun l => (c.stages l).lane) loop stage.lane)) :
    Follows worker t (c.setStage loop stage) where
  lanes := by
    rw [ht]
    congr 1
    funext l
    unfold Worker.setLane EventConsumer.setStage
    dsimp only
    split <;> rfl
  stop := by
    rw [hstops]
    exact h.stop

/-- A worker that is up and stays so goes on by itself, whatever the service does. -/
theorem Follows.step {s t : System P} {c : EventConsumer P} {lanes : Loop → Lane P} (hf : Follows worker s c)
    (ht : WorkerStep S worker s t) (hup : t.workers worker = .up lanes) :
    ∃ c', EventConsumer.Run S worker c c' ∧ Follows worker t c' := by
  cases ht with
  | others h hstops =>
    refine ⟨c, .refl, h.trans hf.lanes, ?_⟩
    rw [hf.stop, decide_eq_decide]
    exact hstops.symm
  | told h hstops =>
    refine ⟨{ c with stop := true }, .single ⟨.requestStop, rfl⟩, h.trans hf.lanes, ?_⟩
    exact (decide_eq_true hstops).symm
  | booting h => cases hup.symm.trans h
  | entered hs h => cases hf.lanes.symm.trans hs
  | ended h => cases hup.symm.trans h
  | @called _ loop ch lane hs hcall h =>
    obtain rfl := Worker.up.inj (hf.lanes.symm.trans hs)
    obtain ⟨answer, stage, hstage, rfl⟩ := exists_call worker hcall
    refine ⟨c.setStage loop stage, .single ⟨.call loop answer, ?_⟩, follows_setStage hf (stops_of_call hcall) h⟩
    show ((c.stages loop).call worker c.stop answer).map (c.setStage loop) = _
    rw [hf.stop, hstage]
    rfl
  | @handled _ loop i ch hs h =>
    obtain rfl := Worker.up.inj (hf.lanes.symm.trans hs)
    obtain ⟨x, r, hx, hfree, hr, hworld, hworkers⟩ := System.handle_cases h
    obtain ⟨answer, stage, hstage, hlane⟩ := exists_handle hf.stop hx hfree hr
    refine ⟨c.setStage loop stage, .single ⟨.handle loop i answer, hstage⟩, follows_setStage hf ?_ ?_⟩
    · rw [hworld]
      exact stops_of_advance hr
    · rw [hworkers, hlane]
      exact s.setWorker_self _
  | @moved _ loop lane hs hmove h hworld =>
    obtain rfl := Worker.up.inj (hf.lanes.symm.trans hs)
    obtain ⟨r, hr, rfl⟩ := exists_move hmove
    have hstage := follows_setStage hf (congrArg World.stops hworld) h
    exact ⟨_, .single ⟨.move loop, Option.map_eq_some_iff.2 ⟨r, hr, rfl⟩⟩, hstage.lanes, hstage.stop⟩

/-- A worker that has just entered its loops is at their beginning, and was perhaps asked to stop already. -/
theorem exists_start {t : System P} (h : t.workers worker = .up fun loop => .running (round S worker loop)) :
    ∃ c, EventConsumer.Run S worker (EventConsumer.start S worker) c ∧ Follows worker t c := by
  by_cases hstop : worker ∈ t.world.stops
  · exact ⟨{ EventConsumer.start S worker with stop := true }, .single ⟨.requestStop, rfl⟩, h,
      (decide_eq_true hstop).symm⟩
  · exact ⟨EventConsumer.start S worker, .refl, h, (decide_eq_false hstop).symm⟩

/-- Every worker of the service that is in its loops has come there by a run of its own. -/
theorem exists_consumer {s : System P} (hs : System.Reachable S s) {lanes : Loop → Lane P}
    (hup : s.workers worker = .up lanes) :
    ∃ c, EventConsumer.Run S worker (EventConsumer.start S worker) c ∧ Follows worker s c := by
  induction hs generalizing lanes with
  | refl => cases hup
  | @step t u a _ hu ih =>
    have hstep := System.workerStep worker hu
    cases ht : t.workers worker with
    | up lanes' =>
      obtain ⟨c, hc, hf⟩ := ih ht
      obtain ⟨c', hc', hf'⟩ := hf.step hstep hup
      exact ⟨c', hc.trans hc', hf'⟩
    | down | booting =>
      -- it can only have entered its loops
      cases hstep with
      | others h | told h => cases hup.symm.trans (h.trans ht)
      | booting h => cases hup.symm.trans h
      | entered _ h => exact exists_start h
      | ended h => cases hup.symm.trans h
      | called hs | handled hs | moved hs => cases hs.symm.trans ht

end App
