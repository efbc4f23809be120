/-
The calls of a handler that have to do with sessions. A handler makes them only while it stores a row; so a
discipline about sessions holds of a handler as soon as it holds of `store`.
-/
import EventService.Program.Typestate
import EventService.Model.Consumer
import EventService.Run.Retrying

namespace App

open Prog

variable {P : Type} {S : Service P}

/-- What the call does with which session. -/
def Op.session : Op P → Option Nat
  | .execute session _ | .commit session | .close session => some session
  | .xadd _ | .xgroupCreate | .xreadgroup _ _ | .xautoclaim _ _ _ | .xpending _ _ _ | .xack _ | .deadLetter _ | .xlen
  | .xlenDlq | .xinfoGroups | .get _ | .set _ _ | .fetch _ | .openSession | .now | .uniform _ | .sleep _
  | .stopIsSet _ | .record _ _ => none

def Op.isOpenSession : Op P → Bool
  | .openSession => true
  | .xadd _ | .xgroupCreate | .xreadgroup _ _ | .xautoclaim _ _ _ | .xpending _ _ _ | .xack _ | .deadLetter _ | .xlen
  | .xlenDlq | .xinfoGroups | .get _ | .set _ _ | .fetch _ | .execute _ _ | .commit _ | .close _ | .now | .uniform _
  | .sleep _ | .stopIsSet _ | .record _ _ => false

/-- A call that has nothing to do with sessions. -/
abbrev Op.Sessionless (o : Op P) : Prop := o.session = none ∧ o.isOpenSession = false

theorem sessionless_getRate (currency : PyStr) : (getRate S currency).Only Op.Sessionless := by
  unfold getRate
  dsimp only
  split
  · trivial
  · refine Only.bind ?_ fun cached => ?_
    · unfold readCache
      split
      · refine Only.bind (only_perform ⟨rfl, rfl⟩) fun r => ?_
        rcases r with e | _ | raw
        · dsimp only
          split <;> trivial
        · trivial
        · trivial
      · trivial
    · cases cached with
      | some cached => trivial
      | none =>
        refine Only.bind (only_perform ⟨rfl, rfl⟩) fun r => ?_
        rcases r with e | rate
        · rcases e with ⟨cls, text⟩ | e
          · cases cls <;> trivial
          · trivial
        · refine Only.bind ?_ fun _ => trivial
          unfold writeCache
          split
          · refine Only.bind (only_perform ⟨rfl, rfl⟩) fun r => ?_
            rcases r with e | u
            · dsimp only
              split <;> trivial
            · trivial
          · trivial

/-- The state a handler is in whenever it stores nothing: other calls do not move it, and `store` comes back to it. -/
structure Rests {σ : Type} (S : Service P) (d : Discipline (@Op.Reply P) σ) (idle : σ) : Prop where
  others : ∀ o : Op P, o.Sessionless → d.allowed idle o ∧ ∀ r, d.next idle ⟨o, r⟩ = idle
  store : ∀ values, (store S values).Follows d (fun _ s => s = idle) idle

namespace Rests

variable {σ : Type} {d : Discipline (@Op.Reply P) σ} {idle : σ} {α : Type} (h : Rests S d idle)
include h

/-- One call that has nothing to do with sessions, and what follows it. -/
theorem op {o : Op P} {f : o.Reply → Code P α} (ho : o.Sessionless)
    (hf : ∀ r, (f r).Follows d (fun _ s => s = idle) idle) : (Prog.op o f).Follows d (fun _ s => s = idle) idle := by
  obtain ⟨hallowed, hnext⟩ := h.others o ho
  refine ⟨hallowed, fun r => ?_⟩
  rw [hnext]
  exact hf r

theorem only {p : Code P α} (hp : p.Only Op.Sessionless) : p.Follows d (fun _ s => s = idle) idle :=
  follows_of_only hp h.others

theorem process (event : TransactionEvent) : (process S event).Follows d (fun _ s => s = idle) idle := by
  unfold App.process
  refine (h.only (sessionless_getRate _)).bind ?_ fun _ _ hs => hs
  rintro rate _ rfl
  refine h.op ⟨rfl, rfl⟩ fun _ => ?_
  refine (follows_ofExcept (Q := fun _ s => s = _) rfl).bind ?_ fun _ _ hs => hs
  rintro amountUsd _ rfl
  refine h.op ⟨rfl, rfl⟩ fun now => ?_
  refine (h.store _).bind ?_ fun _ _ hs => hs
  rintro inserted _ rfl
  cases inserted <;> rfl

/-- No attempt leaves anything to the next one, nor to the pause between them. -/
theorem retryFrom {operation : Code P α} {maxAttempts : Nat} {baseDelay maxDelay : ℚ}
    (hop : operation.Follows d (fun _ s => s = idle) idle) (last : Option Exn) (remaining : Nat) :
    (retryFrom operation maxAttempts baseDelay maxDelay (pure ()) last remaining).Follows d (fun _ s => s = idle)
      idle := by
  induction remaining generalizing last with
  | zero =>
    unfold App.retryFrom
    cases last <;> rfl
  | succ remaining ih =>
    unfold App.retryFrom
    refine hop.attempt_bind ?_
    rintro x _ rfl
    rcases x with e | a
    · dsimp only
      split
      · split
        · rfl
        · refine (h.only ?_).bind ?_ fun _ _ hs => hs
          · exact only_backoffDelay _ fun _ => ⟨rfl, rfl⟩
          · rintro delay _ rfl
            exact h.op ⟨rfl, rfl⟩ fun _ => ih _
      · rfl
    · rfl

theorem handleOne (m : QueuedMessage P) : (handleOne S m).Follows d (fun _ s => s = idle) idle := by
  have hevent : (handleEvent S m).Follows d (fun _ s => s = idle) idle := by
    unfold handleEvent
    refine (follows_ofExcept (Q := fun _ s => s = _) rfl).bind ?_ fun _ _ hs => hs
    rintro event _ rfl
    unfold retryTransient
    split
    · rfl
    · exact h.retryFrom (h.process event) none _
  unfold App.handleOne
  refine hevent.attempt_bind ?_
  rintro x _ rfl
  rcases x with e | outcome
  · dsimp only
    split
    · refine h.op ⟨rfl, rfl⟩ fun r => ?_
      rcases r with e | u <;> rfl
    · rfl
  · rfl

end Rests

end App
