/-
A worker that is asked to stop does stop. From the moment the stop is requested, however its loops and
handlers are interleaved and whatever their calls are answered, `run` returns after finitely many steps, and
until then it can always go on: no loop is started over more than once, no batch is handled for ever, and no
handler waits for a place in the semaphore that never gets free.
-/
import EventService.Program.Inevitable
import EventService.Guarantees.Shutdown
import EventService.Run.Solo

namespace App

open Prog Inevitable

variable {P : Type} (S : Service P)

/-! ## Stages -/

/-- A loop that was told to stop goes on. -/
inductive Proceeds (worker : Nat) (loop : Loop) : Stage P → Stage P → Prop
  | call {stage stage' : Stage P} {answer : (o : Op P) → o.Reply} (h : stage.call worker true answer = some stage') :
    Proceeds worker loop stage stage'
  | handle {calls made : List (Call Op.Reply)} {hs : List (Handler P × List (Call Op.Reply))} {i : Nat} {x : Handler P}
    {answer : (o : Op P) → o.Reply} {r : Code P (Option Nat) × List (Call Op.Reply)} (hx : hs[i]? = some (x, made))
    (h : Protocol.advance (recorded worker true) x.code answer made = some r) :
    Proceeds worker loop (.handling calls hs) (.handling calls (hs.set i (⟨x.message, true, r.1⟩, r.2)))
  | move {stage : Stage P} {r : Stage P × List (Pass P)} (h : stage.move S worker loop = some r) :
    Proceeds worker loop stage r.1

variable {S} {worker : Nat} {loop : Loop}

theorem ends_stopped : Ends (Proceeds S worker loop) (.stopped : Stage P) := by
  refine .intro _ fun stage h => ?_
  cases h with
  | call h => cases h
  | move h => cases h

/-- A round first asks whether to stop, and returns if it is to. -/
theorem round_asks (worker : Nat) (loop : Loop) :
    ∃ k, round S worker loop = .op (.stopIsSet worker) k ∧ k true = .ret .stop := by
  cases loop with
  | consume | reclaim | metrics => exact ⟨_, rfl, rfl⟩

/-- So a loop that begins another round is at its end. -/
theorem ends_start : Ends (Proceeds S worker loop) (Stage.start S worker loop) := by
  obtain ⟨k, hround, hk⟩ := round_asks (S := S) worker loop
  refine .intro _ fun stage h => ?_
  unfold Stage.start at h
  rw [hround] at h
  cases h with
  | @call _ _ answer h =>
    have hheard : heard worker true answer (.stopIsSet worker) = true := if_pos rfl
    obtain rfl := Option.some.inj h
    dsimp only
    rw [hheard, hk]
    refine .intro _ fun stage h => ?_
    cases h with
    | call h => cases h
    | move h =>
      rw [← Option.some.inj h]
      exact ends_stopped
  | move h => cases h

theorem ends_acking {code : Code P Unit} {calls acknowledgement : List (Call Op.Reply)}
    {handled : List (QueuedMessage P × List (Call Op.Reply))} :
    Ends (Proceeds S worker loop) (.acking calls handled code acknowledgement) := by
  have hends := ends_continues code
  induction hends generalizing acknowledgement with
  | intro code _ ih =>
    refine .intro _ fun stage h => ?_
    cases h with
    | call h =>
      obtain ⟨r, hr, rfl⟩ := Option.map_eq_some_iff.1 h
      obtain ⟨o, k, rfl, hcode, -⟩ := recorded_of_advance hr
      rw [hcode]
      exact ih _ (.op o k _)
    | move h =>
      cases code with
      | op o k => cases h
      | raise e => cases h
      | ret u =>
        rw [← Option.some.inj h]
        exact ends_start

/-- A handler makes its next call. -/
def Handles (x y : Handler P × List (Call (@Op.Reply P))) : Prop := x.1.code.Continues y.1.code

theorem ends_handling {calls : List (Call Op.Reply)} {hs : List (Handler P × List (Call Op.Reply))} :
    Ends (Proceeds S worker loop) (.handling calls hs) := by
  have hends : Ends (OneOf Handles) hs :=
    ends_oneOf fun x _ => InvImage.accessible (fun x : Handler P × List (Call Op.Reply) => x.1.code)
      (ends_continues x.1.code)
  induction hends with
  | intro hs _ ih =>
    refine .intro _ fun stage h => ?_
    cases h with
    | call h => cases h
    | handle hx h =>
      obtain ⟨o, k, hcode, hr, -⟩ := recorded_of_advance h
      refine ih _ (oneOf_set hx ?_)
      unfold Handles
      rw [hr, hcode]
      exact .op o k _
    | move h =>
      obtain ⟨results, -, rfl⟩ := Option.map_eq_some_iff.1 h
      exact ends_acking

/-- No loop that was told to stop goes on for ever. -/
theorem ends_stage (stage : Stage P) : Ends (Proceeds S worker loop) stage := by
  cases stage with
  | stopped => exact ends_stopped
  | handling calls hs => exact ends_handling
  | acking calls handled code acknowledgement => exact ends_acking
  | running code calls =>
    have hends := ends_continues code
    induction hends generalizing calls with
    | intro code _ ih =>
      refine .intro _ fun stage h => ?_
      cases h with
      | call h =>
        obtain ⟨r, hr, rfl⟩ := Option.map_eq_some_iff.1 h
        obtain ⟨o, k, rfl, hcode, -⟩ := recorded_of_advance hr
        rw [hcode]
        exact ih _ (.op o k _) _
      | move h =>
        cases code with
        | op o k => cases h
        | raise e => cases h
        | ret next =>
          cases next with
          | stop =>
            rw [← Option.some.inj h]
            exact ends_stopped
          | again =>
            rw [← Option.some.inj h]
            exact ends_start
          | handle messages =>
            rw [← Option.some.inj h]
            exact ends_handling

/-! ## The worker -/

variable (S worker) in
/-- A loop or a handler of the worker goes on. -/
def EventConsumer.Proceeds (c c' : EventConsumer P) : Prop := ∃ a, a ≠ .requestStop ∧ c.step S worker a = some c'

variable {c c' : EventConsumer P}

theorem proceeds_of_step (hstop : c.stop = true) (h : c.Proceeds S worker c') :
    c'.stop = true ∧ ∃ loop stage, Proceeds S worker loop (c.stages loop) stage ∧
      c'.stages = (c.setStage loop stage).stages := by
  obtain ⟨a, hne, h⟩ := h
  cases a with
  | requestStop => exact absurd rfl hne
  | call loop answer =>
    obtain ⟨stage, hstage, rfl⟩ := Option.map_eq_some_iff.1 h
    rw [hstop] at hstage
    exact ⟨hstop, loop, stage, .call hstage, rfl⟩
  | move loop =>
    obtain ⟨r, hr, rfl⟩ := Option.map_eq_some_iff.1 h
    exact ⟨hstop, loop, r.1, .move hr, rfl⟩
  | handle loop i answer =>
    change c.handle S worker loop i answer = some c' at h
    unfold EventConsumer.handle at h
    split at h
    · rename_i calls hs hstage
      split at h
      · cases h
      · rename_i x made hx
        split at h
        · obtain ⟨r, hr, rfl⟩ := Option.map_eq_some_iff.1 h
          rw [hstop] at hr
          exact ⟨hstop, loop, _, hstage ▸ .handle hx hr, rfl⟩
        · cases h
    · cases h
    · cases h
    · cases h

/-- The three loops, side by side. -/
def EventConsumer.parts (c : EventConsumer P) : List (Loop × Stage P) :=
  [(.consume, c.stages .consume), (.reclaim, c.stages .reclaim), (.metrics, c.stages .metrics)]

variable (S worker) in
/-- One of the loops goes on. -/
inductive InLoop : Loop × Stage P → Loop × Stage P → Prop
  | intro {loop : Loop} {stage stage' : Stage P} (h : Proceeds S worker loop stage stage') :
    InLoop (loop, stage) (loop, stage')

theorem ends_inLoop (loop : Loop) (stage : Stage P) : Ends (InLoop S worker) (loop, stage) := by
  have hends : Ends (Proceeds S worker loop) stage := ends_stage stage
  induction hends with
  | intro stage _ ih =>
    refine .intro _ fun x h => ?_
    cases h with
    | intro h => exact ih _ h

theorem oneOf_parts {stage : Stage P} (hstages : c'.stages = (c.setStage loop stage).stages)
    (h : Proceeds S worker loop (c.stages loop) stage) : OneOf (InLoop S worker) c.parts c'.parts := by
  unfold EventConsumer.parts
  rw [hstages]
  cases loop with
  | consume => exact .head (.intro h)
  | reclaim => exact .tail (.head (.intro h))
  | metrics => exact .tail (.tail (.head (.intro h)))

/-- A worker that was asked to stop does not go on for ever. -/
theorem ends_consumer (hstop : c.stop = true) : Ends (EventConsumer.Proceeds S worker) c := by
  have hends : Ends (OneOf (InLoop S worker)) c.parts := by
    apply ends_oneOf
    rintro ⟨loop, stage⟩ -
    exact ends_inLoop loop stage
  generalize hparts : c.parts = parts at hends
  induction hends generalizing c with
  | intro parts _ ih =>
    subst hparts
    refine .intro _ fun c' h => ?_
    obtain ⟨hstop', loop, stage, hproceeds, hstages⟩ := proceeds_of_step hstop h
    exact ih _ (oneOf_parts hstages hproceeds) hstop' rfl

/-! ## It can always go on -/

theorem proceeds_of_isSome (a : ConsumerAction P) (hne : a ≠ .requestStop) (h : (c.step S worker a).isSome = true) :
    ∃ c', c.Proceeds S worker c' := by
  obtain ⟨c', h⟩ := Option.isSome_iff_exists.1 h
  exact ⟨c', a, hne, h⟩

theorem exists_advance {α : Type} (worker : Nat) (stop : Bool) (o : Op P) (k : o.Reply → Code P α)
    (calls : List (Call (@Op.Reply P))) :
    ∃ answer r, Protocol.advance (recorded worker stop) (.op o k) answer calls = some r :=
  ⟨fun o => Classical.choice (nonempty_reply o), _, rfl⟩

theorem proceeds_handle {calls made : List (Call Op.Reply)} {hs : List (Handler P × List (Call Op.Reply))} {i : Nat}
    {x : Handler P} {o : Op P} {k : o.Reply → Code P (Option Nat)} (hstage : c.stages loop = .handling calls hs)
    (hx : hs[i]? = some (x, made)) (hcode : x.code = .op o k)
    (hfree : x.started ∨ c.busy < S.settings.concurrency) : ∃ c', c.Proceeds S worker c' := by
  obtain ⟨answer, r, hr⟩ := exists_advance worker c.stop o k made
  apply proceeds_of_isSome (.handle loop i answer) (by simp)
  simp only [EventConsumer.step, EventConsumer.handle, hstage, hx, hcode, hr]
  rw [if_pos hfree]
  rfl

/-- A handler that holds the semaphore can make its next call. -/
theorem exists_busy (h : c.busy ≠ 0) : ∃ c', c.Proceeds S worker c' := by
  unfold EventConsumer.busy Worker.busy at h
  obtain ⟨x, hx⟩ := List.exists_mem_of_length_pos (Nat.pos_of_ne_zero h)
  obtain ⟨hx, hbusy⟩ := List.mem_filter.1 hx
  have hhandlers : ∃ loop, x ∈ (c.stages loop).lane.handlers :=
    (List.mem_append.1 hx).elim (fun hx => ⟨.consume, hx⟩) fun hx => ⟨.reclaim, hx⟩
  obtain ⟨loop, hx⟩ := hhandlers
  cases hstage : c.stages loop with
  | handling calls hs =>
    rw [hstage] at hx
    obtain ⟨⟨y, made⟩, hy, rfl⟩ := List.mem_map.1 hx
    obtain ⟨i, hi⟩ := List.mem_iff_getElem?.1 hy
    obtain ⟨hstarted, hrunning⟩ := Bool.and_eq_true_iff.1 hbusy
    cases hcode : y.code with
    | op o k => exact proceeds_handle hstage hi hcode (Or.inl hstarted)
    | ret | raise =>
      dsimp only at hrunning
      rw [hcode] at hrunning
      cases hrunning
  | running | acking | stopped =>
    rw [hstage] at hx
    cases hx

/-- A loop that has not returned can go on, or one of the handlers can. -/
theorem can_proceed (hconcurrency : 1 ≤ S.settings.concurrency) (hi : EventConsumer.Inv S worker c)
    (hstopped : (c.stages loop).hasStopped = false) : ∃ c', c.Proceeds S worker c' := by
  have hsurvived := (hi.stages loop).survived
  cases hstage : c.stages loop with
  | stopped =>
    rw [hstage] at hstopped
    cases hstopped
  | running code calls =>
    rw [hstage] at hsurvived
    cases code with
    | raise e => cases hsurvived
    | op o k =>
      obtain ⟨answer, r, hr⟩ := exists_advance worker c.stop o k calls
      apply proceeds_of_isSome (.call loop answer) (by simp)
      simp [EventConsumer.step, hstage, Stage.call, hr]
    | ret next =>
      cases next with
      | stop | again | handle =>
        apply proceeds_of_isSome (.move loop) (by simp)
        simp [EventConsumer.step, hstage, Stage.move]
  | acking calls handled code acknowledgement =>
    rw [hstage] at hsurvived
    cases code with
    | raise e => cases hsurvived
    | op o k =>
      obtain ⟨answer, r, hr⟩ := exists_advance worker c.stop o k acknowledgement
      apply proceeds_of_isSome (.call loop answer) (by simp)
      simp [EventConsumer.step, hstage, Stage.call, hr]
    | ret u =>
      apply proceeds_of_isSome (.move loop) (by simp)
      simp [EventConsumer.step, hstage, Stage.move]
  | handling calls hs =>
    rw [hstage] at hsurvived
    by_cases hfinished : ∀ x ∈ hs.map Prod.fst, ∃ r, Handler.result x = some r
    · -- every handler has returned
      obtain ⟨results, hresults⟩ := exists_results hfinished
      apply proceeds_of_isSome (.move loop) (by simp)
      simp [EventConsumer.step, hstage, Stage.move, hresults]
    · push Not at hfinished
      obtain ⟨x, hx, hrunning⟩ := hfinished
      obtain ⟨⟨y, made⟩, hy, rfl⟩ := List.mem_map.1 hx
      obtain ⟨i, hget⟩ := List.mem_iff_getElem?.1 hy
      by_cases hbusy : c.busy = 0
      · -- the semaphore is free
        cases hcode : y.code with
        | op o k => exact proceeds_handle hstage hget hcode (Or.inr (by omega))
        | ret r =>
          refine absurd ?_ (hrunning r)
          unfold Handler.result
          rw [hcode]
        | raise e =>
          have hraised := List.any_eq_false.1 hsurvived y hx
          rw [hcode] at hraised
          exact absurd rfl hraised
      · exact exists_busy hbusy

/-- Once the stop was requested, `run` returns: in every state of every run of a worker, however its loops
and handlers go on and whatever is answered to them, they all return after finitely many steps, and until
then one of them can go on. -/
theorem stop_is_inevitable (hconcurrency : 1 ≤ S.settings.concurrency)
    (h : EventConsumer.Run S worker (EventConsumer.start S worker) c) (hstop : c.stop = true) :
    Inevitable (EventConsumer.Proceeds S worker) (fun c => c.returned = true) c := by
  refine of_ends (ends_consumer hstop) (EventConsumer.inv_run h) ?_ ?_
  · rintro c c' hi ⟨a, -, ha⟩
    exact EventConsumer.inv_step hi ha
  · intro c hi
    by_cases hreturned : c.returned = true
    · exact Or.inl hreturned
    · right
      obtain ⟨loop, hloop⟩ : ∃ loop, (c.stages loop).hasStopped = false := by
        by_contra hall
        push Not at hall
        simp only [Bool.not_eq_false] at hall
        exact hreturned (by simp [EventConsumer.returned, hall])
      exact can_proceed hconcurrency hi hloop

/-- The stop arrives while two handlers of a batch hold the only places in the semaphore and a third waits. -/
def askedInABatch : List (ConsumerAction EventIn) := List.flatten [
  List.replicate 2 (.call .consume Trace.threeEntries),
  [.move .consume, .handle .consume 2 Trace.noRate, .handle .consume 0 Trace.quiet, .call .metrics Trace.quiet,
    .requestStop]]

theorem askedInABatch_returns : ∃ c,
    EventConsumer.Run (documentService { concurrency := 2 }) 0 (EventConsumer.start (documentService { concurrency := 2 }) 0) c ∧
      c.busy = 2 ∧ c.returned = false ∧
      Inevitable (EventConsumer.Proceeds (documentService { concurrency := 2 }) 0) (fun c => c.returned = true) c := by
  obtain ⟨c, hrun, hp⟩ := Steps.exists_run (EventConsumer.step (documentService { concurrency := 2 }) 0)
    (EventConsumer.start (documentService { concurrency := 2 }) 0) askedInABatch
    (fun c => c.busy = 2 && c.stop && !c.returned) (by decide +kernel)
  simp only [Bool.and_eq_true, decide_eq_true_eq, Bool.not_eq_true'] at hp
  obtain ⟨⟨hbusy, hstop⟩, hreturned⟩ := hp
  exact ⟨c, hrun, hbusy, hreturned, stop_is_inevitable (by decide) hrun hstop⟩

end App
