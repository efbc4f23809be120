/-
`retry_transient` follows its policy exactly if that needs no more than 1025 calls. Its calls are those of a log
that the results of the operation determine: the operation is called up to the first result that is no transient
failure, or as often as is allowed, and between any two of its calls a delay is drawn, the hook is called, and the
delay is slept. What the last call ends with is what the code around sees. Behind the 1025th failure the delay
overflows, and that is what the code around sees instead.
-/
import EventService.Run.Retrying

namespace App

open Prog

variable {P α : Type}

/-! ## The policy -/

/-- What `retry_transient` may do. -/
inductive Did (α : Type)
  | called (result : Except Exn α)
  | drew (ceiling delay : ℚ)
  | hooked
  | slept (delay : ℚ)

def Did.isCalled : Did α → Bool
  | called _ => true
  | drew _ _ | hooked | slept _ => false

def Did.isHooked : Did α → Bool
  | hooked => true
  | called _ | drew _ _ | slept _ => false

def Did.isSlept : Did α → Bool
  | slept _ => true
  | called _ | drew _ _ | hooked => false

/-- The calls are those of the operation, of the hook, and of the delays, as the log tells them. -/
inductive Logged (operation : Code P α) (onRetry : Code P Unit) : List (Did α) → List (Call (@Op.Reply P)) → Prop
  | nil : Logged operation onRetry [] []
  | called {log : List (Did α)} {τ τ' : List (Call Op.Reply)} {result : Except Exn α}
    (h : Runs operation τ result) (h' : Logged operation onRetry log τ') :
    Logged operation onRetry (.called result :: log) (τ ++ τ')
  | drew {log : List (Did α)} {τ : List (Call Op.Reply)} {hi delay : ℚ} (h : Logged operation onRetry log τ) :
    Logged operation onRetry (.drew hi delay :: log) (⟨.uniform hi, delay⟩ :: τ)
  | hooked {log : List (Did α)} {τ τ' : List (Call Op.Reply)}
    (h : Runs onRetry τ (.ok ())) (h' : Logged operation onRetry log τ') :
    Logged operation onRetry (.hooked :: log) (τ ++ τ')
  | slept {log : List (Did α)} {τ : List (Call Op.Reply)} {delay : ℚ} (h : Logged operation onRetry log τ) :
    Logged operation onRetry (.slept delay :: log) (⟨.sleep delay, ()⟩ :: τ)

def failedTransiently : Except Exn α → Bool
  | .ok _ => false
  | .error e => e.isTransient

/-- How often the operation is called: up to the first result that is no transient failure, if that is
among the first `maxAttempts`. -/
def attemptsMade (maxAttempts : Nat) (results : Nat → Except Exn α) : Nat :=
  match (List.range maxAttempts).find? fun i => !failedTransiently (results i) with
  | some i => i + 1
  | none => maxAttempts

/-- `k` calls of the operation, with a delay between any two. -/
def policyLog (ceilings : Nat → ℚ) (results : Nat → Except Exn α) (delays : Nat → ℚ) (k : Nat) : List (Did α) :=
  (List.range (k - 1)).flatMap (fun i =>
    [.called (results i), .drew (ceilings i) (delays i), .hooked, .slept (delays i)]) ++
  [.called (results (k - 1))]

/-- A first element, and a sequence behind it. -/
def followedBy {β : Type} (first : β) (rest : Nat → β) : Nat → β
  | 0 => first
  | i + 1 => rest i

/-! ## The log by its first call -/

section Log

variable {operation : Code P α} {onRetry : Code P Unit} {τ : List (Call (@Op.Reply P))}
  {ceilings delays : Nat → ℚ} {results : Nat → Except Exn α}

theorem attemptsMade_succ (n : Nat) (results : Nat → Except Exn α) :
    attemptsMade (n + 1) results =
      if failedTransiently (results 0) then attemptsMade n (fun i => results (i + 1)) + 1 else 1 := by
  unfold attemptsMade
  rw [List.range_succ_eq_map, List.find?_cons]
  cases hfirst : failedTransiently (results 0) with
  | false => simp
  | true =>
    simp only [Bool.not_true, if_true, List.find?_map]
    cases hfind : (List.range n).find? ((fun i => !failedTransiently (results i)) ∘ Nat.succ) with
    | none =>
      have hnone : (List.range n).find? (fun i => !failedTransiently (results (i + 1))) = none := hfind
      simp [hnone]
    | some i =>
      have hsome : (List.range n).find? (fun i => !failedTransiently (results (i + 1))) = some i := hfind
      simp [hsome]

/-- A first result that is no transient failure is the only one. -/
theorem attemptsMade_of_ended {n : Nat} {results : Nat → Except Exn α} (h : failedTransiently (results 0) = false) :
    attemptsMade (n + 1) results = 1 := by
  rw [attemptsMade_succ, h]
  rfl

/-- A transient failure that is not the last result is followed by the others. -/
theorem attemptsMade_of_failed {n : Nat} {results : Nat → Except Exn α} (h : failedTransiently (results 0) = true) :
    attemptsMade (n + 1) results = attemptsMade n (fun i => results (i + 1)) + 1 := by
  rw [attemptsMade_succ, if_pos h]

theorem attemptsMade_one (results : Nat → Except Exn α) : attemptsMade 1 results = 1 := by
  rw [attemptsMade_succ]
  exact ite_self _

theorem policyLog_one : policyLog ceilings results delays 1 = [.called (results 0)] := rfl

theorem policyLog_succ (k : Nat) : policyLog ceilings results delays (k + 2) =
    .called (results 0) :: .drew (ceilings 0) (delays 0) :: .hooked :: .slept (delays 0) ::
      policyLog (fun i => ceilings (i + 1)) (fun i => results (i + 1)) (fun i => delays (i + 1)) (k + 1) := by
  unfold policyLog
  simp only [Nat.add_sub_cancel, show k + 2 - 1 = k + 1 by omega]
  rw [List.range_succ_eq_map, List.flatMap_cons, List.flatMap_map]
  rfl

/-- The operation is called once more than the hook, and once more than there are delays. -/
theorem counts_policyLog (k : Nat) :
    (policyLog ceilings results delays (k + 1)).countP Did.isCalled = k + 1 ∧
      (policyLog ceilings results delays (k + 1)).countP Did.isHooked = k ∧
      (policyLog ceilings results delays (k + 1)).countP Did.isSlept = k := by
  induction k generalizing ceilings results delays with
  | zero =>
    rw [policyLog_one]
    exact ⟨rfl, rfl, rfl⟩
  | succ k ih =>
    rw [policyLog_succ]
    obtain ⟨hcalled, hhooked, hslept⟩ := @ih (fun i => ceilings (i + 1)) (fun i => delays (i + 1))
      fun i => results (i + 1)
    simp [List.countP_cons, hcalled, hhooked, hslept, Did.isCalled, Did.isHooked, Did.isSlept]

/-- A log of one call. -/
theorem logged_one_iff : Logged operation onRetry (policyLog ceilings results delays 1) τ ↔
    Runs operation τ (results 0) := by
  rw [policyLog_one]
  constructor
  · intro h
    cases h with
    | called h h' =>
      cases h'
      rw [List.append_nil]
      exact h
  · intro h
    rw [← List.append_nil τ]
    exact .called h .nil

/-- A log of more calls. -/
theorem logged_succ_iff {k : Nat} : Logged operation onRetry (policyLog ceilings results delays (k + 2)) τ ↔
    ∃ τ₁ τ₂ τ₃, Runs operation τ₁ (results 0) ∧ Runs onRetry τ₂ (.ok ()) ∧
      τ = τ₁ ++ ⟨.uniform (ceilings 0), delays 0⟩ :: (τ₂ ++ ⟨.sleep (delays 0), ()⟩ :: τ₃) ∧
      Logged operation onRetry
        (policyLog (fun i => ceilings (i + 1)) (fun i => results (i + 1)) (fun i => delays (i + 1)) (k + 1)) τ₃ := by
  rw [policyLog_succ]
  constructor
  · intro h
    cases h with
    | called hop h =>
      cases h with
      | drew h =>
        cases h with
        | hooked hhook h =>
          cases h with
          | slept h => exact ⟨_, _, _, hop, hhook, rfl, h⟩
  · rintro ⟨τ₁, τ₂, τ₃, hop, hhook, rfl, h⟩
    exact .called hop (.drew (.hooked hhook (.slept h)))

/-- A delay of the log was drawn. -/
theorem Logged.drawn {log : List (Did α)} {hi delay : ℚ} (h : Logged operation onRetry log τ)
    (hmem : .drew hi delay ∈ log) : (⟨.uniform hi, delay⟩ : Call (@Op.Reply P)) ∈ τ := by
  induction h with
  | nil => cases hmem
  | called _ _ ih =>
    rcases List.mem_cons.1 hmem with heq | hmem
    · cases heq
    · exact List.mem_append_right _ (ih hmem)
  | drew _ ih =>
    rcases List.mem_cons.1 hmem with heq | hmem
    · obtain ⟨rfl, rfl⟩ := Did.drew.inj heq
      exact List.mem_cons_self ..
    · exact List.mem_cons_of_mem _ (ih hmem)
  | hooked _ _ ih =>
    rcases List.mem_cons.1 hmem with heq | hmem
    · cases heq
    · exact List.mem_append_right _ (ih hmem)
  | slept _ ih =>
    rcases List.mem_cons.1 hmem with heq | hmem
    · cases heq
    · exact List.mem_cons_of_mem _ (ih hmem)

end Log

theorem exists_attemptsMade (n : Nat) (results : Nat → Except Exn α) :
    ∃ k, attemptsMade (n + 1) results = k + 1 := by
  rw [attemptsMade_succ]
  split
  · exact ⟨_, rfl⟩
  · exact ⟨0, rfl⟩

/-- The calls determine the results, and how many there are. -/
theorem Logged.unique {ceilings' delays' : Nat → ℚ} {results' : Nat → Except Exn α} {n n' : Nat}
    (h : Logged operation onRetry (policyLog ceilings results delays (n + 1)) τ)
    (h' : Logged operation onRetry (policyLog ceilings' results' delays' (n' + 1)) τ) :
    n = n' ∧ ∀ i ≤ n, results i = results' i := by
  induction n generalizing ceilings ceilings' results results' delays delays' n' τ with
  | zero =>
    have hop := logged_one_iff.1 h
    rcases n' with _ | n'
    · obtain ⟨-, heq⟩ := hop.prefix_unique (logged_one_iff.1 h') (congrArg (· ++ []) (rfl : τ = τ))
      exact ⟨rfl, fun i hi => by rwa [Nat.le_zero.1 hi]⟩
    · obtain ⟨τ₁, τ₂, τ₃, hop', -, rfl, -⟩ := logged_succ_iff.1 h'
      obtain ⟨hτ, -⟩ := hop.prefix_unique hop' (List.append_nil _)
      simp at hτ
  | succ n ih =>
    obtain ⟨τ₁, τ₂, τ₃, hop, hhook, rfl, hrest⟩ := logged_succ_iff.1 h
    rcases n' with _ | n'
    · obtain ⟨hτ, -⟩ := hop.prefix_unique (logged_one_iff.1 h') (List.append_nil _).symm
      simp at hτ
    · obtain ⟨σ₁, σ₂, σ₃, hop', hhook', heq, hrest'⟩ := logged_succ_iff.1 h'
      obtain ⟨rfl, hfirst⟩ := hop.prefix_unique hop' heq
      obtain ⟨-, htail⟩ := List.cons.inj (List.append_cancel_left heq)
      obtain ⟨rfl, -⟩ := hhook.prefix_unique hhook' htail
      obtain ⟨-, rfl⟩ := List.cons.inj (List.append_cancel_left htail)
      obtain ⟨rfl, hsame⟩ := ih hrest hrest'
      refine ⟨rfl, fun i hi => ?_⟩
      rcases i with _ | i
      · exact hfirst
      · exact hsame i (by omega)

/-- It is called at most `b` times if no more is allowed, or one of the first `b` results ends it. -/
theorem attemptsMade_le_iff {n b : Nat} (hb : 1 ≤ b) :
    attemptsMade n results ≤ b ↔ n ≤ b ∨ ∃ i < b, failedTransiently (results i) = false := by
  induction n generalizing b results with
  | zero => exact iff_of_true (Nat.zero_le b) (Or.inl (Nat.zero_le b))
  | succ n ih =>
    cases hfirst : failedTransiently (results 0) with
    | false =>
      rw [attemptsMade_of_ended hfirst]
      exact iff_of_true hb (Or.inr ⟨0, hb, hfirst⟩)
    | true =>
      rw [attemptsMade_of_failed hfirst]
      rcases n with _ | n
      · exact iff_of_true hb (Or.inl hb)
      obtain ⟨b, rfl⟩ : ∃ b', b = b' + 1 := ⟨b - 1, by omega⟩
      rcases b with _ | b
      · obtain ⟨k, hk⟩ := exists_attemptsMade n fun i => results (i + 1)
        rw [hk]
        refine iff_of_false (by omega) ?_
        rintro (hle | ⟨i, hi, hended⟩)
        · omega
        · obtain rfl : i = 0 := by omega
          cases hfirst.symm.trans hended
      · rw [Nat.add_le_add_iff_right, ih (by omega), Nat.add_le_add_iff_right]
        refine or_congr (by omega) ⟨?_, ?_⟩
        · rintro ⟨i, hi, hended⟩
          exact ⟨i + 1, by omega, hended⟩
        · rintro ⟨i, hi, hended⟩
          rcases i with _ | i
          · cases hfirst.symm.trans hended
          · exact ⟨i, by omega, hended⟩

/-- How often it is called up to a bound is decided by the results up to there. -/
theorem attemptsMade_of_agree {n b : Nat} {results results' : Nat → Except Exn α}
    (h : ∀ i < min (attemptsMade n results) b, results i = results' i) :
    (attemptsMade n results ≤ b → attemptsMade n results' = attemptsMade n results) ∧
      (b < attemptsMade n results → b < attemptsMade n results') := by
  induction n generalizing b results results' with
  | zero => exact ⟨fun _ => rfl, id⟩
  | succ n ih =>
    obtain ⟨k, hk⟩ := exists_attemptsMade n results
    obtain ⟨k', hk'⟩ := exists_attemptsMade n results'
    rcases b with _ | b
    · exact ⟨by omega, by omega⟩
    have hzero : results 0 = results' 0 := h 0 (by omega)
    cases hfirst : failedTransiently (results 0) with
    | false =>
      rw [attemptsMade_of_ended hfirst, attemptsMade_of_ended (hzero ▸ hfirst)]
      exact ⟨fun _ => rfl, id⟩
    | true =>
      rw [attemptsMade_of_failed hfirst] at h ⊢
      rw [attemptsMade_of_failed (hzero ▸ hfirst)]
      obtain ⟨hle, hlt⟩ := @ih b (fun i => results (i + 1)) (fun i => results' (i + 1)) fun i hi =>
        h (i + 1) (by omega)
      exact ⟨fun hb => by rw [hle (by omega)], fun hb => by have := hlt (by omega); omega⟩

/-- What the loop ends with: the last result, if it has room for that many calls. -/
def endOf (room k : Nat) (results : Nat → Except Exn α) : Except Exn α :=
  if k ≤ room then results (k - 1) else .error intTooLarge

theorem endOf_of_le {room k : Nat} (h : k ≤ room) : endOf room k results = results (k - 1) := if_pos h

theorem endOf_of_lt {room k : Nat} (h : room < k) : endOf room k results = .error intTooLarge :=
  if_neg (not_le.2 h)

theorem endOf_succ {room k : Nat} :
    endOf (room + 1) (k + 1) (fun i => results (i + 1)) = endOf (room + 2) (k + 2) results := by
  unfold endOf
  simp only [Nat.add_le_add_iff_right]
  rfl

/-! ## The loop and the log -/

variable {operation : Code P α} {onRetry : Code P Unit} {maxAttempts : Nat} {baseDelay maxDelay : ℚ}

theorem failedTransiently_iff {x : Except Exn α} :
    failedTransiently x = true ↔ ∃ e, x = .error e ∧ e.isTransient = true := by
  cases x with
  | ok a => simp [failedTransiently]
  | error e => simp [failedTransiently]

/-- The last attempt that may be made is made, and that is all. -/
theorem runs_retryFrom_last_iff {i : Nat} {last : Option Exn} {τ : List (Call Op.Reply)} {x : Except Exn α}
    (hi : i + 0 + 1 = maxAttempts) (hhook : onRetry.NeverRaises) :
    Runs (retryFrom operation maxAttempts baseDelay maxDelay onRetry last 1) τ x ↔ Runs operation τ x := by
  rw [@runs_retryFrom_succ_iff _ _ _ _ _ _ _ i 0 _ _ _ hi hhook]
  constructor
  · rintro (⟨hop, -⟩ | ⟨e, τ₁, delay, τ₂, τ₃, ⟨hpos, -⟩, -⟩ | ⟨e, ⟨hpos, -⟩, -⟩)
    · exact hop
    · omega
    · omega
  · intro hop
    exact Or.inl ⟨hop, fun _ _ _ => rfl⟩

/-- The ramp of the delays behind the first one. -/
theorem ceiling_shift (i : Nat) : (fun j => ceiling baseDelay maxDelay (i + (j + 1))) =
    fun j => ceiling baseDelay maxDelay (i + 1 + j) := by
  funext j
  congr 1
  omega

/-- The attempts that are left follow the policy as long as there is `room` for delays; the ramp of those goes on
where it is. -/
theorem runs_retryFrom_iff {i remaining room : Nat} {last : Option Exn} {τ : List (Call Op.Reply)} {x : Except Exn α}
    (hi : i + remaining + 1 = maxAttempts) (hroom : i + room = 1024) (hhook : onRetry.NeverRaises) :
    Runs (retryFrom operation maxAttempts baseDelay maxDelay onRetry last (remaining + 1)) τ x ↔
      ∃ results delays, Logged operation onRetry (policyLog (fun j => ceiling baseDelay maxDelay (i + j))
          results delays (min (attemptsMade (remaining + 1) results) (room + 1))) τ ∧
        x = endOf (room + 1) (attemptsMade (remaining + 1) results) results := by
  induction remaining generalizing i room last τ x with
  | zero =>
    rw [runs_retryFrom_last_iff hi hhook]
    simp only [Nat.zero_add, attemptsMade_one, Nat.min_eq_left (Nat.le_add_left 1 room)]
    constructor
    · intro hop
      exact ⟨fun _ => x, fun _ => 0, logged_one_iff.2 hop, by rw [endOf_of_le (Nat.le_add_left 1 room)]⟩
    · rintro ⟨results, delays, hlog, rfl⟩
      rw [endOf_of_le (Nat.le_add_left 1 room)]
      exact logged_one_iff.1 hlog
  | succ remaining ih =>
    have hi' : i + 1 + remaining + 1 = maxAttempts := by omega
    rw [runs_retryFrom_succ_iff hi hhook]
    constructor
    · rintro (⟨hop, hend⟩ | ⟨e, τ₁, delay, τ₂, τ₃, ⟨hpos, hlt⟩, htrans, hop, hret, rfl, hnext⟩ |
        ⟨e, ⟨hpos, hle⟩, htrans, hop, rfl⟩)
      · -- the first attempt is the last one
        have hfirst : failedTransiently x = false := by
          rw [← Bool.not_eq_true, failedTransiently_iff]
          rintro ⟨e, he, htrans⟩
          have hzero := hend e he htrans
          omega
        refine ⟨fun _ => x, fun _ => 0, ?_, ?_⟩
        · rw [attemptsMade_of_ended hfirst, Nat.min_eq_left (Nat.le_add_left 1 room)]
          exact logged_one_iff.2 hop
        · rw [endOf_of_le (by rw [attemptsMade_of_ended hfirst]; omega)]
      · -- a failure, and the attempts behind it
        obtain ⟨room, rfl⟩ : ∃ r, room = r + 1 := ⟨room - 1, by omega⟩
        obtain ⟨results, delays, hlog, rfl⟩ := (ih hi' (show i + 1 + room = 1024 by omega)).1 hnext
        obtain ⟨k, hk⟩ := exists_attemptsMade remaining results
        have hfirst : failedTransiently (followedBy (.error e) results 0) = true :=
          failedTransiently_iff.2 ⟨e, rfl, htrans⟩
        have hmade : attemptsMade (remaining + 1 + 1) (followedBy (.error e) results) = k + 2 := by
          rw [attemptsMade_of_failed hfirst]
          exact congrArg (· + 1) hk
        rw [hk] at hlog ⊢
        refine ⟨followedBy (.error e) results, followedBy delay delays, ?_, ?_⟩
        · rw [hmade, Nat.add_min_add_right]
          rw [Nat.add_min_add_right] at hlog
          rw [logged_succ_iff]
          refine ⟨τ₁, τ₂, τ₃, hop, hret, rfl, ?_⟩
          rw [ceiling_shift]
          exact hlog
        · rw [hmade]
          exact (endOf_succ : _ = endOf (room + 2) (k + 2) (followedBy (.error e) results))
      · -- a failure, and no delay behind it
        obtain rfl : room = 0 := by omega
        have hfirst : failedTransiently (.error e : Except Exn α) = true := failedTransiently_iff.2 ⟨e, rfl, htrans⟩
        obtain ⟨k, hk⟩ := exists_attemptsMade remaining fun _ => (.error e : Except Exn α)
        have hmade : attemptsMade (remaining + 1 + 1) (fun _ => (.error e : Except Exn α)) = k + 2 := by
          rw [attemptsMade_of_failed hfirst, hk]
        refine ⟨fun _ => .error e, fun _ => 0, ?_, ?_⟩
        · rw [Nat.min_eq_right (by omega)]
          exact logged_one_iff.2 hop
        · rw [hmade, endOf_of_lt (by omega)]
    · rintro ⟨results, delays, hlog, rfl⟩
      cases hfirst : failedTransiently (results 0) with
      | false =>
        rw [attemptsMade_of_ended hfirst, Nat.min_eq_left (Nat.le_add_left 1 room)] at hlog
        rw [attemptsMade_of_ended hfirst, endOf_of_le (by omega)]
        refine Or.inl ⟨logged_one_iff.1 hlog, fun e he htrans => ?_⟩
        have htrue := failedTransiently_iff.2 ⟨e, he, htrans⟩
        cases hfirst.symm.trans htrue
      | true =>
        obtain ⟨e, he, htrans⟩ := failedTransiently_iff.1 hfirst
        obtain ⟨k, hk⟩ := exists_attemptsMade remaining fun j => results (j + 1)
        have hmade : attemptsMade (remaining + 1 + 1) results = k + 2 := by
          rw [attemptsMade_of_failed hfirst, hk]
        rw [hmade] at hlog ⊢
        rcases room with _ | room
        · rw [Nat.min_eq_right (by omega)] at hlog
          rw [endOf_of_lt (by omega)]
          exact Or.inr (Or.inr ⟨e, ⟨by omega, by omega⟩, htrans, he ▸ logged_one_iff.1 hlog, rfl⟩)
        · rw [Nat.add_min_add_right, logged_succ_iff] at hlog
          obtain ⟨τ₁, τ₂, τ₃, hop, hret, rfl, hrest⟩ := hlog
          rw [ceiling_shift] at hrest
          refine Or.inr (Or.inl ⟨e, τ₁, delays 0, τ₂, τ₃, ⟨by omega, by omega⟩, htrans, he ▸ hop, hret, rfl, ?_⟩)
          rw [ih hi' (show i + 1 + room = 1024 by omega)]
          refine ⟨fun j => results (j + 1), fun j => delays (j + 1), ?_, ?_⟩
          · rw [hk, Nat.add_min_add_right]
            exact hrest
          · rw [hk]
            exact endOf_succ.symm

/-! ## The whole of it -/

/-- All runs of `retry_transient`: the results of the operation determine how often it is called, but it is not
called after the 1025th failure, for which there is no delay. -/
theorem runs_retryTransient_iff (hpos : 1 ≤ maxAttempts) (hhook : onRetry.NeverRaises)
    {τ : List (Call Op.Reply)} {x : Except Exn α} :
    Runs (retryTransient operation maxAttempts baseDelay maxDelay onRetry) τ x ↔
      ∃ results delays, Logged operation onRetry (policyLog (ceiling baseDelay maxDelay) results delays
          (min (attemptsMade maxAttempts results) 1025)) τ ∧
        x = endOf 1025 (attemptsMade maxAttempts results) results := by
  obtain ⟨remaining, rfl⟩ : ∃ remaining, maxAttempts = remaining + 1 := ⟨maxAttempts - 1, by omega⟩
  have hramp : (fun j => ceiling baseDelay maxDelay (0 + j)) = ceiling baseDelay maxDelay := by
    funext j
    rw [Nat.zero_add]
  unfold retryTransient
  rw [if_neg (by omega), @runs_retryFrom_iff _ _ _ _ _ _ _ 0 remaining 1024 _ _ _ (by omega) rfl hhook, hramp]

/-- Random numbers are drawn as `random.uniform(0, hi)` draws them. -/
def DrawnWithin (τ : List (Call (@Op.Reply P))) : Prop :=
  ∀ hi delay, (⟨.uniform hi, delay⟩ : Call (@Op.Reply P)) ∈ τ → min 0 hi ≤ delay ∧ delay ≤ max 0 hi

theorem ceiling_nonneg (hbase : 0 ≤ baseDelay) (hmax : 0 ≤ maxDelay) (i : Nat) :
    0 ≤ ceiling baseDelay maxDelay i := le_min hmax (by positivity)

/-- The delays that are slept lie below the capped ramp. -/
theorem delays_within (hbase : 0 ≤ baseDelay) (hmax : 0 ≤ maxDelay) {τ : List (Call Op.Reply)}
    (hdraws : DrawnWithin τ) {results : Nat → Except Exn α} {delays : Nat → ℚ} {k : Nat}
    (hlog : Logged operation onRetry (policyLog (ceiling baseDelay maxDelay) results delays k) τ) {i : Nat}
    (hi : i + 1 < k) : 0 ≤ delays i ∧ delays i ≤ min maxDelay (baseDelay * 2 ^ i) := by
  have hmem : Did.drew (ceiling baseDelay maxDelay i) (delays i) ∈
      policyLog (ceiling baseDelay maxDelay) results delays k := by
    refine List.mem_append_left _ (List.mem_flatMap.2 ⟨i, List.mem_range.2 (by omega), ?_⟩)
    simp
  obtain ⟨hlow, hhigh⟩ := hdraws _ _ (hlog.drawn hmem)
  have hceiling := ceiling_nonneg hbase hmax i
  rw [min_eq_left hceiling] at hlow
  rw [max_eq_right hceiling] at hhigh
  exact ⟨hlow, hhigh⟩

/-- These are the results of the operation, call by call, in a run with these calls. -/
def HasResults (operation : Code P α) (onRetry : Code P Unit) (baseDelay maxDelay : ℚ)
    (results : Nat → Except Exn α) (τ : List (Call (@Op.Reply P))) : Prop :=
  ∃ delays n, Logged operation onRetry (policyLog (ceiling baseDelay maxDelay) results delays (n + 1)) τ

/-- The policy: the operation is called up to the first result that is no transient failure, or `max_attempts`
times; a delay below the capped ramp is drawn and slept, and the hook called, between any two calls; and the last
result is handed on as it is. -/
def FollowsPolicy (operation : Code P α) (onRetry : Code P Unit) (maxAttempts : Nat) (baseDelay maxDelay : ℚ)
    (results : Nat → Except Exn α) (τ : List (Call (@Op.Reply P))) (x : Except Exn α) : Prop :=
  ∃ delays k log, k = attemptsMade maxAttempts results ∧
    log = policyLog (ceiling baseDelay maxDelay) results delays k ∧ Logged operation onRetry log τ ∧
    (log.countP Did.isCalled = k ∧ log.countP Did.isHooked = k - 1 ∧ log.countP Did.isSlept = k - 1) ∧
    (∀ i, i + 1 < k → 0 ≤ delays i ∧ delays i ≤ min maxDelay (baseDelay * 2 ^ i)) ∧
    x = results (k - 1)

/-- Every run of `retry_transient` has results of the operation, and follows the policy for them if and only if it
is not to be called more than 1025 times: with `max_attempts` up to that, or a result among the first 1025 that is
no transient failure. -/
theorem retry_follows_policy_iff (hpos : 1 ≤ maxAttempts) (hbase : 0 ≤ baseDelay) (hmax : 0 ≤ maxDelay)
    (hhook : onRetry.NeverRaises) {τ : List (Call Op.Reply)} (hdraws : DrawnWithin τ) {x : Except Exn α}
    (h : Runs (retryTransient operation maxAttempts baseDelay maxDelay onRetry) τ x) :
    (∃ results, HasResults operation onRetry baseDelay maxDelay results τ) ∧
    ∀ results, HasResults operation onRetry baseDelay maxDelay results τ →
      (FollowsPolicy operation onRetry maxAttempts baseDelay maxDelay results τ x ↔
        maxAttempts ≤ 1025 ∨ ∃ i < 1025, failedTransiently (results i) = false) := by
  obtain ⟨results, delays, hlog, rfl⟩ := (runs_retryTransient_iff hpos hhook).1 h
  obtain ⟨n, hn⟩ : ∃ n, min (attemptsMade maxAttempts results) 1025 = n + 1 := by
    obtain ⟨k, hk⟩ := exists_attemptsMade (maxAttempts - 1) results
    rw [Nat.sub_add_cancel hpos] at hk
    exact ⟨min k 1024, by rw [hk, Nat.add_min_add_right]⟩
  rw [hn] at hlog
  refine ⟨⟨results, delays, n, hlog⟩, fun results' ⟨delays', n', hlog'⟩ => ?_⟩
  -- the results are the same as far as there were calls, and so is how often it is to be called
  obtain ⟨rfl, hsame⟩ := hlog.unique hlog'
  obtain ⟨hwithin, hbeyond⟩ := @attemptsMade_of_agree _ maxAttempts 1025 results results' fun i hi =>
    hsame i (by omega)
  rw [← attemptsMade_le_iff (by omega)]
  constructor
  · rintro ⟨delays'', k, log, rfl, rfl, hlog'', -⟩
    obtain ⟨k, hk⟩ := exists_attemptsMade (maxAttempts - 1) results'
    rw [Nat.sub_add_cancel hpos] at hk
    rw [hk] at hlog'' ⊢
    obtain ⟨rfl, -⟩ := hlog'.unique hlog''
    omega
  · intro hle
    have hmade : attemptsMade maxAttempts results ≤ 1025 := not_lt.1 fun hlt => (hbeyond hlt).not_ge hle
    rw [Nat.min_eq_left hmade] at hn
    have hk : attemptsMade maxAttempts results' = n + 1 := (hwithin hmade).trans hn
    refine ⟨delays', _, _, hk.symm, rfl, hlog', counts_policyLog n, fun i hi => ?_, ?_⟩
    · exact delays_within hbase hmax hdraws hlog' hi
    · rw [endOf_of_le hmade, hn]
      exact hsame n le_rfl

/-- Ask the rate source, once. -/
def askEuro : Code EventIn Decimal := (ask (.fetch "EUR".toList)).bind ofExcept

/-- The source times out once, and answers at the second call. -/
def euroCalls : List (Call (@Op.Reply EventIn)) :=
  [⟨.fetch "EUR".toList, .error (.event .rateUnavailableError "timeout")⟩, ⟨.uniform (ceiling (1 / 5) 5 0), 1 / 10⟩,
    ⟨.sleep (1 / 10), ()⟩, ⟨.fetch "EUR".toList, .ok (.finite false 11 (-1))⟩]

/-- What the source answers, call by call. -/
def euroResults : Nat → Except Exn Decimal
  | 0 => .error (.event .rateUnavailableError "timeout")
  | _ + 1 => .ok (.finite false 11 (-1))

theorem euroCalls_drawn : DrawnWithin euroCalls := by
  intro hi delay hmem
  obtain ⟨rfl, rfl⟩ : hi = ceiling (1 / 5) 5 0 ∧ delay = 1 / 10 := by
    simpa [euroCalls] using hmem
  norm_num [ceiling]

/-- The source is asked twice, and its answer is the result. -/
theorem euro_is_asked_twice :
    Runs (retryTransient askEuro 3 (1 / 5) 5 (pure ())) euroCalls (.ok (.finite false 11 (-1))) ∧
      FollowsPolicy askEuro (pure ()) 3 (1 / 5) 5 euroResults euroCalls (.ok (.finite false 11 (-1))) := by
  have hreturns : (pure () : Code EventIn Unit).NeverRaises := trivial
  have hfirst : Runs askEuro [⟨.fetch "EUR".toList, .error (.event .rateUnavailableError "timeout")⟩]
      (euroResults 0) := .op (.raise _)
  have hsecond : Runs askEuro [⟨.fetch "EUR".toList, .ok (.finite false 11 (-1))⟩] (euroResults 1) := .op (.ret _)
  have hlog : Logged askEuro (pure ()) (policyLog (ceiling (1 / 5) 5) euroResults (fun _ => 1 / 10) 2) euroCalls :=
    .called hfirst (.drew (.hooked (.ret ()) (.slept (.called hsecond .nil))))
  have hruns : Runs (retryTransient askEuro 3 (1 / 5) 5 (pure ())) euroCalls (.ok (.finite false 11 (-1))) :=
    (runs_retryTransient_iff (by norm_num) hreturns).2 ⟨euroResults, fun _ => 1 / 10, hlog, rfl⟩
  refine ⟨hruns, ((retry_follows_policy_iff (by norm_num) (by norm_num) (by norm_num) hreturns euroCalls_drawn
    hruns).2 euroResults ⟨_, 1, hlog⟩).2 (Or.inl (by norm_num))⟩

/-- A call that times out. -/
def timeout : Except Exn Decimal := .error (.event .rateUnavailableError "timeout")

/-- The source times out at every call, and no time is slept between them. -/
def timeouts (ceilings : Nat → ℚ) : Nat → List (Call (@Op.Reply EventIn))
  | 0 => [⟨.fetch "EUR".toList, timeout⟩]
  | n + 1 => ⟨.fetch "EUR".toList, timeout⟩ :: ⟨.uniform (ceilings 0), 0⟩ :: ⟨.sleep 0, ()⟩ ::
      timeouts (fun i => ceilings (i + 1)) n

theorem timeouts_logged (ceilings : Nat → ℚ) (n : Nat) :
    Logged askEuro (pure ()) (policyLog ceilings (fun _ => timeout) (fun _ => 0) (n + 1)) (timeouts ceilings n) := by
  have hop : Runs askEuro [⟨.fetch "EUR".toList, timeout⟩] timeout := .op (.raise _)
  induction n generalizing ceilings with
  | zero => exact logged_one_iff.2 hop
  | succ n ih => exact logged_succ_iff.2 ⟨_, [], _, hop, .ret (), rfl, ih _⟩

theorem timeouts_drawn (ceilings : Nat → ℚ) (n : Nat) : DrawnWithin (timeouts ceilings n) := by
  have hzero : ∀ hi delay, (⟨.uniform hi, delay⟩ : Call (@Op.Reply EventIn)) ∈ timeouts ceilings n → delay = 0 := by
    intro hi delay hmem
    induction n generalizing ceilings with
    | zero => simp [timeouts] at hmem
    | succ n ih =>
      unfold timeouts at hmem
      rcases List.mem_cons.1 hmem with heq | hmem
      · cases heq
      rcases List.mem_cons.1 hmem with heq | hmem
      · cases heq
        rfl
      rcases List.mem_cons.1 hmem with heq | hmem
      · cases heq
      · exact ih _ hmem
  intro hi delay hmem
  rw [hzero hi delay hmem]
  exact ⟨min_le_left 0 hi, le_max_left 0 hi⟩

/-- With 1026 attempts allowed a source that always times out is asked 1025 times, and the result is not its
failure. -/
theorem delay_overflows : ∃ τ, Runs (retryTransient askEuro 1026 (1 / 5) 5 (pure ())) τ (.error intTooLarge) ∧
    DrawnWithin τ ∧ HasResults askEuro (pure ()) (1 / 5) 5 (fun _ => timeout) τ ∧
    ¬FollowsPolicy askEuro (pure ()) 1026 (1 / 5) 5 (fun _ => timeout) τ (.error intTooLarge) := by
  have hmany : 1025 < attemptsMade 1026 fun _ => timeout := by
    rw [← not_le, attemptsMade_le_iff (by norm_num)]
    rintro (hle | ⟨i, -, hended⟩)
    · omega
    · cases hended
  have hreturns : (pure () : Code EventIn Unit).NeverRaises := trivial
  have hlog := timeouts_logged (ceiling (1 / 5) 5) 1024
  refine ⟨timeouts (ceiling (1 / 5) 5) 1024, ?_, timeouts_drawn _ _, ⟨_, 1024, hlog⟩, ?_⟩
  · refine (runs_retryTransient_iff (by norm_num) hreturns).2 ⟨fun _ => timeout, fun _ => 0, ?_, ?_⟩
    · rw [Nat.min_eq_right hmany.le]
      exact hlog
    · rw [endOf_of_lt hmany]
  · rintro ⟨delays, k, log, -, -, -, -, -, hresult⟩
    cases hresult

end App
