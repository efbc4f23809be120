/-
Programs that keep to a discipline. What a program may call next depends on a state, and the state moves on
with each call and its reply; a program that keeps to the discipline, however its calls are answered, is so
also where it is interrupted. The rules go with the ways in which programs are built.
-/
import EventService.Program.Trace

/-- What may be called in which state, and the state behind a call. -/
structure Discipline {Op : Type} (Reply : Op → Type) (σ : Type) where
  allowed : σ → Op → Prop
  next : σ → Call Reply → σ

namespace Prog

variable {Op : Type} {Reply : Op → Type} {ε α β σ : Type}

/-- The program calls what is allowed, whatever it is answered, and ends as `Q` says. -/
def Follows (d : Discipline Reply σ) (Q : Except ε α → σ → Prop) : Prog Op Reply ε α → σ → Prop
  | .ret a, s => Q (.ok a) s
  | .raise e, s => Q (.error e) s
  | .op o k, s => d.allowed s o ∧ ∀ r, Follows d Q (k r) (d.next s ⟨o, r⟩)

variable {d : Discipline Reply σ} {Q : Except ε α → σ → Prop} {p q : Prog Op Reply ε α} {s : σ}

theorem Follows.bind {f : α → Prog Op Reply ε β} {R : Except ε β → σ → Prop} (h : p.Follows d Q s)
    (hok : ∀ a s, Q (.ok a) s → (f a).Follows d R s) (herror : ∀ e s, Q (.error e) s → R (.error e) s) :
    (p.bind f).Follows d R s := by
  induction p generalizing s with
  | ret a => exact hok a s h
  | raise e => exact herror e s h
  | op o k ih => exact ⟨h.1, fun r => ih r (h.2 r)⟩

/-- Code behind a `try` goes on however the program ends. -/
theorem Follows.attempt_bind {f : Except ε α → Prog Op Reply ε β} {R : Except ε β → σ → Prop} (h : p.Follows d Q s)
    (hf : ∀ x s, Q x s → (f x).Follows d R s) : (p.attempt.bind f).Follows d R s := by
  induction p generalizing s with
  | ret a => exact hf _ _ h
  | raise e => exact hf _ _ h
  | op o k ih => exact ⟨h.1, fun r => ih r (h.2 r)⟩

theorem follows_ofExcept {x : Except ε α} (h : Q x s) : (ofExcept x).Follows d Q s := by
  cases x with
  | ok a => exact h
  | error e => exact h

/-- What calls only what is allowed in a state and leaves it there. -/
theorem follows_of_only {A : Op → Prop} (h : p.Only A) (hA : ∀ o, A o → d.allowed s o ∧ ∀ r, d.next s ⟨o, r⟩ = s) :
    p.Follows d (fun _ s' => s' = s) s := by
  induction p with
  | ret a => exact rfl
  | raise e => exact rfl
  | op o k ih =>
    obtain ⟨hallowed, hnext⟩ := hA o h.1
    refine ⟨hallowed, fun r => ?_⟩
    rw [hnext]
    exact ih r (h.2 r)

/-- What is left of a program keeps to the discipline in the state the calls before have led to. -/
theorem Follows.after {τ : List (Call Reply)} (h : p.Follows d Q s) (hafter : After p τ q) :
    q.Follows d Q (τ.foldl d.next s) := by
  induction hafter with
  | start => exact h
  | call _ r ih =>
    rw [List.foldl_append]
    exact ih.2 r

/-- Calls that do not move a state leave it. -/
theorem foldl_next_of_same {τ : List (Call Reply)} (h : ∀ c ∈ τ, d.next s c = s) : τ.foldl d.next s = s := by
  induction τ with
  | nil => rfl
  | cons c τ ih =>
    rw [List.foldl_cons, h c (List.mem_cons_self ..)]
    exact ih fun c' hc' => h c' (List.mem_cons_of_mem _ hc')

theorem Follows.runs {τ : List (Call Reply)} {x : Except ε α} (h : p.Follows d Q s) (hruns : Runs p τ x) :
    Q x (τ.foldl d.next s) := by
  induction hruns generalizing s with
  | ret a => exact h
  | raise e => exact h
  | op _ ih => exact ih (h.2 _)

end Prog
