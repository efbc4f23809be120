/-
What `retry_transient` does, call by call. An attempt ends the loop, or fails with a transient error, and
then a delay is drawn, the hook is called, the delay is slept, and the next attempt follows. Behind attempt
number 1025 no delay can be drawn.
-/
import EventService.Run.Calls
import EventService.Model.Retry

namespace App

open Prog

variable {P α : Type} {operation : Code P α} {onRetry : Code P Unit} {maxAttempts : Nat} {baseDelay maxDelay : ℚ}

/-- The longest delay behind attempt number `i`, counted from 0. -/
def ceiling (baseDelay maxDelay : ℚ) (i : Nat) : ℚ := min maxDelay (baseDelay * 2 ^ i)

/-- The delay before the next attempt is one random number. -/
theorem runs_backoffDelay_iff {i : Nat} {τ : List (Call Op.Reply)} {x : Except Exn ℚ} (hi : i < 1024) :
    Runs (backoffDelay (i + 1) baseDelay maxDelay : Code P ℚ) τ x ↔
      ∃ delay, τ = [⟨.uniform (ceiling baseDelay maxDelay i), delay⟩] ∧ x = .ok delay := by
  unfold backoffDelay
  rw [if_neg (by omega), if_neg (by omega)]
  exact runs_perform_iff

/-- No delay is drawn once the ramp is beyond the range of a `float`. -/
theorem backoffDelay_of_le {i : Nat} (hi : 1024 ≤ i) :
    (backoffDelay (i + 1) baseDelay maxDelay : Code P ℚ) = raise intTooLarge := by
  unfold backoffDelay
  rw [if_neg (by omega), if_pos (by omega)]

/-- The only call is the random number. -/
theorem only_backoffDelay {A : Op P → Prop} (attempt : Nat) (hA : ∀ hi, A (.uniform hi)) :
    (backoffDelay attempt baseDelay maxDelay : Code P ℚ).Only A := by
  unfold backoffDelay
  split
  · trivial
  · split
    · trivial
    · exact only_perform (hA _)

/-- What follows an attempt that failed with a transient error, and is not the last one. -/
theorem runs_retry_iff {i : Nat} {next : Code P α} {τ : List (Call Op.Reply)} {x : Except Exn α} (hi : i < 1024)
    (hhook : onRetry.NeverRaises) :
    Runs ((backoffDelay (i + 1) baseDelay maxDelay).bind fun delay =>
        onRetry.bind fun _ => (ask (.sleep delay)).bind fun _ => next) τ x ↔
      ∃ delay τ₁ τ₂, τ = ⟨.uniform (ceiling baseDelay maxDelay i), delay⟩ :: (τ₁ ++ ⟨.sleep delay, ()⟩ :: τ₂) ∧
        Runs onRetry τ₁ (.ok ()) ∧ Runs next τ₂ x := by
  constructor
  · intro h
    rcases runs_bind_iff.1 h with ⟨e, hdelay, -⟩ | ⟨delay, σ, τ', rfl, hdelay, hrest⟩
    · obtain ⟨delay, -, heq⟩ := (runs_backoffDelay_iff hi).1 hdelay
      cases heq
    · obtain ⟨delay', rfl, heq⟩ := (runs_backoffDelay_iff hi).1 hdelay
      obtain rfl := Except.ok.inj heq
      rcases runs_bind_iff.1 hrest with ⟨e, hraise, -⟩ | ⟨_, τ₁, σ', rfl, hret, hsleep⟩
      · obtain ⟨_, heq⟩ := hhook.runs hraise
        cases heq
      · obtain ⟨r, τ₂, rfl, hnext⟩ := runs_op_iff.1 hsleep
        exact ⟨delay, τ₁, τ₂, rfl, hret, hnext⟩
  · rintro ⟨delay, τ₁, τ₂, rfl, hret, hnext⟩
    refine runs_bind_iff.2 (Or.inr ⟨delay, [_], _, rfl, (runs_backoffDelay_iff hi).2 ⟨delay, rfl, rfl⟩, ?_⟩)
    refine runs_bind_iff.2 (Or.inr ⟨(), τ₁, _, rfl, hret, ?_⟩)
    exact runs_op_iff.2 ⟨(), τ₂, rfl, hnext⟩

/-- One attempt ends the loop, or fails with a transient error and is followed by the others, unless the delay
before those cannot be computed. -/
theorem runs_retryFrom_succ_iff {i remaining : Nat} {last : Option Exn} {τ : List (Call Op.Reply)}
    {x : Except Exn α} (hi : i + remaining + 1 = maxAttempts) (hhook : onRetry.NeverRaises) :
    Runs (retryFrom operation maxAttempts baseDelay maxDelay onRetry last (remaining + 1)) τ x ↔
      (Runs operation τ x ∧ ∀ e, x = .error e → e.isTransient = true → remaining = 0) ∨
      (∃ e τ₁ delay τ₂ τ₃, (0 < remaining ∧ i < 1024) ∧ e.isTransient = true ∧ Runs operation τ₁ (.error e) ∧
        Runs onRetry τ₂ (.ok ()) ∧
        τ = τ₁ ++ ⟨.uniform (ceiling baseDelay maxDelay i), delay⟩ :: (τ₂ ++ ⟨.sleep delay, ()⟩ :: τ₃) ∧
        Runs (retryFrom operation maxAttempts baseDelay maxDelay onRetry (some e) remaining) τ₃ x) ∨
      ∃ e, (0 < remaining ∧ 1024 ≤ i) ∧ e.isTransient = true ∧ Runs operation τ (.error e) ∧
        x = .error intTooLarge := by
  have hnumber : maxAttempts - remaining = i + 1 := by omega
  rw [retryFrom]
  simp only [bind_eq]
  rw [runs_attempt_bind_iff, hnumber]
  constructor
  · rintro ⟨y, τ₁, τ₂, rfl, hop, hrest⟩
    cases y with
    | ok a =>
      obtain ⟨rfl, rfl⟩ := runs_ret_iff.1 hrest
      rw [List.append_nil]
      exact Or.inl ⟨hop, by rintro e ⟨⟩⟩
    | error e =>
      dsimp only at hrest
      split at hrest
      · rename_i htrans
        split at hrest
        · -- the last attempt
          obtain ⟨rfl, rfl⟩ := runs_raise_iff.1 hrest
          rw [List.append_nil]
          exact Or.inl ⟨hop, fun _ _ _ => by omega⟩
        · rcases Nat.lt_or_ge i 1024 with hlt | hle
          · obtain ⟨delay, σ, τ₃, rfl, hret, hnext⟩ := (runs_retry_iff hlt hhook).1 hrest
            exact Or.inr (Or.inl ⟨e, τ₁, delay, σ, τ₃, ⟨by omega, hlt⟩, htrans, hop, hret, rfl, hnext⟩)
          · rw [backoffDelay_of_le hle] at hrest
            obtain ⟨rfl, rfl⟩ := runs_raise_iff.1 hrest
            rw [List.append_nil]
            exact Or.inr (Or.inr ⟨e, ⟨by omega, hle⟩, htrans, hop, rfl⟩)
      · rename_i htrans
        obtain ⟨rfl, rfl⟩ := runs_raise_iff.1 hrest
        rw [List.append_nil]
        refine Or.inl ⟨hop, fun e' he' htrans' => ?_⟩
        rw [← Except.error.inj he'] at htrans'
        exact absurd htrans' htrans
  · rintro (⟨hop, hend⟩ | ⟨e, τ₁, delay, τ₂, τ₃, ⟨hpos, hlt⟩, htrans, hop, hret, rfl, hnext⟩ |
      ⟨e, ⟨hpos, hle⟩, htrans, hop, rfl⟩)
    · refine ⟨x, τ, [], (List.append_nil τ).symm, hop, ?_⟩
      cases x with
      | ok a => exact .ret a
      | error e =>
        dsimp only
        split
        · rename_i htrans
          have hzero := hend e rfl htrans
          rw [if_pos (by omega)]
          exact .raise e
        · exact .raise e
    · refine ⟨.error e, τ₁, _, rfl, hop, ?_⟩
      dsimp only
      rw [if_pos htrans, if_neg (by omega)]
      exact (runs_retry_iff hlt hhook).2 ⟨delay, τ₂, τ₃, rfl, hret, hnext⟩
    · refine ⟨.error e, τ, [], (List.append_nil τ).symm, hop, ?_⟩
      dsimp only
      rw [if_pos htrans, if_neg (by omega), backoffDelay_of_le hle]
      exact .raise intTooLarge

end App
