/-
The loops of one worker are where their calls have led. Every step keeps this: a call goes on with the
code that is left, and where the code of a stage has returned the next stage begins. So a pass that is
over is a whole round, and behind a round that handed over a batch every handler has run to its end and
the acknowledgement has too.
-/
import EventService.Model.Loops
import EventService.Run.Rounds

namespace App

open Prog

variable {P : Type}

/-! ## The invariant -/

/-- Where a loop is. The stop flag is up if the loop was told so, and if it has returned. -/
inductive StageAt (S : Service P) (worker : Nat) (loop : Loop) (stop : Bool) : Stage P → Prop
  | running {code : Code P (Next P)} {calls : List (Call Op.Reply)}
    (hcode : After (round S worker loop) calls code)
    (hheard : ⟨.stopIsSet worker, true⟩ ∈ calls → stop = true) : StageAt S worker loop stop (.running code calls)
  | handling {calls : List (Call Op.Reply)} {handlers : List (Handler P × List (Call Op.Reply))}
    (hcalls : Runs (round S worker loop) calls (.ok (.handle (handlers.map fun h => h.1.message))))
    (hcode : ∀ h ∈ handlers, After (handleOne S h.1.message) h.2 h.1.code) :
    StageAt S worker loop stop (.handling calls handlers)
  | acking {calls acknowledgement : List (Call Op.Reply)} {handled : List (QueuedMessage P × List (Call Op.Reply))}
    {results : List (Option Nat)} {code : Code P Unit}
    (hcalls : Runs (round S worker loop) calls (.ok (.handle (handled.map Prod.fst))))
    (hresults : List.Forall₂ (fun m r => Runs (handleOne S m.1) m.2 (.ok r)) handled results)
    (hcode : After (ackDone results) acknowledgement code) :
    StageAt S worker loop stop (.acking calls handled code acknowledgement)
  | stopped (hstop : stop = true) : StageAt S worker loop stop .stopped

/-- A pass that is over: the round handed nothing over, or its batch was gathered and acknowledged. -/
inductive PassAt (S : Service P) (worker : Nat) (loop : Loop) : Pass P → Prop
  | round {calls : List (Call Op.Reply)} {next : Next P} (hcalls : Runs (round S worker loop) calls (.ok next))
    (hnext : ∀ messages, next ≠ .handle messages) : PassAt S worker loop ⟨calls, [], []⟩
  | batch {calls acknowledgement : List (Call Op.Reply)} {handled : List (QueuedMessage P × List (Call Op.Reply))}
    {results : List (Option Nat)}
    (hcalls : Runs (round S worker loop) calls (.ok (.handle (handled.map Prod.fst))))
    (hresults : List.Forall₂ (fun m r => Runs (handleOne S m.1) m.2 (.ok r)) handled results)
    (hack : Runs (ackDone results) acknowledgement (.ok ())) :
    PassAt S worker loop ⟨calls, handled, acknowledgement⟩

variable {S : Service P} {worker : Nat} {loop : Loop} {stop : Bool}

/-- A round returns only when it was told of the stop. -/
theorem heard_of_stop {calls : List (Call Op.Reply)} (h : Runs (round S worker loop) calls (.ok .stop)) :
    ⟨.stopIsSet worker, true⟩ ∈ calls := by
  cases loop with
  | consume =>
    obtain ⟨next, heq, hround⟩ := consumeCalls_of_runs h
    obtain rfl := Except.ok.inj heq
    cases hround with
    | stop => exact List.mem_singleton.2 rfl
  | reclaim =>
    obtain ⟨next, heq, hround⟩ := reclaimCalls_of_runs h
    generalize hnext : next = n at hround
    rw [← Except.ok.inj heq] at hnext
    cases hround with
    | stop => exact List.mem_singleton.2 rfl
    | woken => simp
    | failed | givenUp => cases hnext
    | claimed => split at hnext <;> cases hnext
  | metrics =>
    obtain ⟨next, heq, hround⟩ := metricsCalls_of_runs h
    obtain rfl := Except.ok.inj heq
    cases hround with
    | stop => exact List.mem_singleton.2 rfl

/-- No round ends with an exception. -/
theorem round_returns {calls : List (Call Op.Reply)} {x : Except Exn (Next P)}
    (h : Runs (round S worker loop) calls x) : ∃ next, x = .ok next := by
  cases loop with
  | consume =>
    obtain ⟨next, heq, -⟩ := consumeCalls_of_runs h
    exact ⟨next, heq⟩
  | reclaim =>
    obtain ⟨next, heq, -⟩ := reclaimCalls_of_runs h
    exact ⟨next, heq⟩
  | metrics =>
    obtain ⟨next, heq, -⟩ := metricsCalls_of_runs h
    exact ⟨next, heq⟩

/-! ## Steps -/

/-- A step of some code makes one call and puts it down. -/
theorem recorded_of_advance {α : Type} {code code' : Code P α} {answer : (o : Op P) → o.Reply}
    {calls calls' : List (Call Op.Reply)}
    (h : Protocol.advance (recorded worker stop) code answer calls = some (code', calls')) :
    ∃ o k, code = .op o k ∧ code' = k (heard worker stop answer o) ∧
      calls' = calls ++ [⟨o, heard worker stop answer o⟩] := by
  cases code with
  | ret a => cases h
  | raise e => cases h
  | op o k =>
    obtain ⟨rfl, rfl⟩ := Prod.mk.inj (Option.some.inj h)
    exact ⟨o, k, rfl, rfl, rfl⟩

/-- What is left of some code is left of it one call later. -/
theorem after_recorded {α : Type} {p code code' : Code P α} {answer : (o : Op P) → o.Reply}
    {calls calls' : List (Call Op.Reply)} (hcode : After p calls code)
    (h : Protocol.advance (recorded worker stop) code answer calls = some (code', calls')) :
    After p calls' code' := by
  obtain ⟨o, k, rfl, rfl, rfl⟩ := recorded_of_advance h
  exact hcode.call _

/-- A loop is told of a stop only when one was requested. -/
theorem stop_of_recorded {α : Type} {code code' : Code P α} {answer : (o : Op P) → o.Reply}
    {calls calls' : List (Call Op.Reply)} (hheard : ⟨.stopIsSet worker, true⟩ ∈ calls → stop = true)
    (h : Protocol.advance (recorded worker stop) code answer calls = some (code', calls'))
    (hmem : ⟨.stopIsSet worker, true⟩ ∈ calls') : stop = true := by
  obtain ⟨o, k, rfl, rfl, rfl⟩ := recorded_of_advance h
  rcases List.mem_append.1 hmem with hmem | hmem
  · exact hheard hmem
  · obtain ⟨rfl, hreply⟩ := Call.mk.inj (List.mem_singleton.1 hmem)
    have htrue := (eq_of_heq hreply).symm
    rwa [heard, if_pos rfl] at htrue

theorem StageAt.requestStop {stage : Stage P} (h : StageAt S worker loop stop stage) :
    StageAt S worker loop true stage := by
  cases h with
  | running hcode _ => exact .running hcode fun _ => rfl
  | handling hcalls hcode => exact .handling hcalls hcode
  | acking hcalls hresults hcode => exact .acking hcalls hresults hcode
  | stopped _ => exact .stopped rfl

theorem StageAt.call {stage stage' : Stage P} {answer : (o : Op P) → o.Reply}
    (h : StageAt S worker loop stop stage) (hcall : stage.call worker stop answer = some stage') :
    StageAt S worker loop stop stage' := by
  cases h with
  | running hcode hheard =>
    obtain ⟨r, hr, rfl⟩ := Option.map_eq_some_iff.1 hcall
    exact .running (after_recorded hcode hr) (stop_of_recorded hheard hr)
  | acking hcalls hresults hcode =>
    obtain ⟨r, hr, rfl⟩ := Option.map_eq_some_iff.1 hcall
    exact .acking hcalls hresults (after_recorded hcode hr)
  | handling | stopped => cases hcall

/-- Where a stage is left behind, the next one begins, and a pass that ends with it is over. -/
theorem StageAt.move {stage : Stage P} {r : Stage P × List (Pass P)} (h : StageAt S worker loop stop stage)
    (hmove : stage.move S worker loop = some r) :
    StageAt S worker loop stop r.1 ∧ ∀ pass ∈ r.2, PassAt S worker loop pass := by
  have hstart : StageAt S worker loop stop (Stage.start S worker loop) := .running .start (by simp)
  cases h with
  | @running code calls hcode hheard =>
    cases code with
    | op o k => cases hmove
    | raise e => cases hmove
    | ret next =>
      have hcalls : Runs (round S worker loop) calls (.ok next) := by simpa using hcode.runs (.ret next)
      cases next with
      | stop =>
        obtain rfl := Option.some.inj hmove
        refine ⟨.stopped (hheard (heard_of_stop hcalls)), fun pass hpass => ?_⟩
        rw [List.mem_singleton.1 hpass]
        exact .round hcalls (by simp)
      | again =>
        obtain rfl := Option.some.inj hmove
        refine ⟨hstart, fun pass hpass => ?_⟩
        rw [List.mem_singleton.1 hpass]
        exact .round hcalls (by simp)
      | handle messages =>
        obtain rfl := Option.some.inj hmove
        refine ⟨.handling ?_ fun h hh => ?_, by simp⟩
        · simpa [Function.comp_def] using hcalls
        · obtain ⟨m, -, rfl⟩ := List.mem_map.1 hh
          exact .start
  | @handling calls handlers hcalls hcode =>
    obtain ⟨results, hresults, rfl⟩ := Option.map_eq_some_iff.1 hmove
    refine ⟨.acking (by simpa [Function.comp_def] using hcalls) ?_ .start, by simp⟩
    rw [List.forall₂_map_left_iff]
    have hall := List.forall₂_map_left_iff.1 (forall₂_of_mapM hresults)
    refine List.Forall₂.imp (fun h r hr => ?_) ((List.forall₂_and_left _ _).2 ⟨hcode, hall⟩)
    exact runs_of_result hr.1 hr.2
  | @acking calls acknowledgement handled results code hcalls hresults hcode =>
    cases code with
    | op o k => cases hmove
    | raise e => cases hmove
    | ret u =>
      obtain rfl := Option.some.inj hmove
      refine ⟨hstart, fun pass hpass => ?_⟩
      rw [List.mem_singleton.1 hpass]
      exact .batch hcalls hresults (by simpa using hcode.runs (.ret u))
  | stopped => cases hmove

namespace EventConsumer

/-- Every loop is where its calls have led, and so were its passes when they ended. -/
structure Inv (S : Service P) (worker : Nat) (c : EventConsumer P) : Prop where
  stages : ∀ loop, StageAt S worker loop c.stop (c.stages loop)
  past : ∀ loop, ∀ pass ∈ c.past loop, PassAt S worker loop pass

variable {c c' : EventConsumer P}

theorem inv_start (S : Service P) (worker : Nat) : Inv S worker (start S worker) where
  stages := fun _ => .running .start (by simp)
  past := by simp [start]

/-- A loop that goes on leaves the others where they are. -/
theorem Inv.setStage {stage : Stage P} (hi : Inv S worker c) (h : StageAt S worker loop c.stop stage) :
    Inv S worker (c.setStage loop stage) where
  stages := by
    intro l
    by_cases hl : l = loop
    · subst hl
      simpa [EventConsumer.setStage] using h
    · simpa [EventConsumer.setStage, hl] using hi.stages l
  past := hi.past

theorem Inv.handle {i : Nat} {answer : (o : Op P) → o.Reply} (hi : Inv S worker c)
    (h : c.handle S worker loop i answer = some c') : Inv S worker c' := by
  have hat := hi.stages loop
  unfold EventConsumer.handle at h
  split at h
  · rename_i calls handlers hstage
    rw [hstage] at hat
    cases hat with
    | handling hcalls hcode =>
      split at h
      · cases h
      · rename_i x made hget
        split at h
        · obtain ⟨r, hr, rfl⟩ := Option.map_eq_some_iff.1 h
          have hafter := after_recorded (hcode _ (List.mem_of_getElem? hget)) hr
          refine hi.setStage (.handling ?_ fun y hy => ?_)
          · -- the handler that goes on is still that of its message
            obtain ⟨hlt, hx⟩ := List.getElem?_eq_some_iff.1 hget
            have hsame : (handlers.set i (⟨x.message, true, r.1⟩, r.2)).map (fun h => h.1.message) =
                handlers.map fun h => h.1.message := by
              refine List.ext_getElem (by simp) fun j hj hj' => ?_
              by_cases hij : i = j
              · subst hij
                simp [hx]
              · simp [List.getElem_set_ne hij]
            rw [hsame]
            exact hcalls
          · rcases List.mem_or_eq_of_mem_set hy with hy | rfl
            · exact hcode y hy
            · exact hafter
        · cases h
  · cases h
  · cases h
  · cases h

theorem inv_step {a : ConsumerAction P} (hi : Inv S worker c) (h : c.step S worker a = some c') :
    Inv S worker c' := by
  cases a with
  | requestStop =>
    obtain rfl := Option.some.inj h
    exact ⟨fun loop => (hi.stages loop).requestStop, hi.past⟩
  | call loop answer =>
    obtain ⟨stage, hstage, rfl⟩ := Option.map_eq_some_iff.1 h
    exact hi.setStage ((hi.stages loop).call hstage)
  | handle loop i answer => exact hi.handle h
  | move loop =>
    obtain ⟨r, hr, rfl⟩ := Option.map_eq_some_iff.1 h
    obtain ⟨hstage, hover⟩ := (hi.stages loop).move hr
    refine ⟨(hi.setStage hstage).stages, fun l pass hpass => ?_⟩
    by_cases hl : l = loop
    · subst hl
      simp only [if_true] at hpass
      rcases List.mem_append.1 hpass with hpass | hpass
      · exact hi.past l pass hpass
      · exact hover pass hpass
    · simp only [hl, if_false] at hpass
      exact hi.past l pass hpass

theorem inv_run (h : Run S worker (start S worker) c) : Inv S worker c :=
  h.keeps (inv_start S worker) fun _ _ _ hc ha => inv_step hc ha

end EventConsumer

end App
