/-
Runs of a step function. A state takes a step by an action where the function allows it, and a run is
any number of steps. What every step keeps holds in every state of a run, and a list of actions that can
be taken one after the other makes a run.
-/
import Mathlib.Logic.Relation

namespace Steps

variable {σ α : Type} {step : σ → α → Option σ} {s t : σ}

/-- A run from one state to another. -/
def Run (step : σ → α → Option σ) : σ → σ → Prop := Relation.ReflTransGen fun s t => ∃ a, step s a = some t

theorem Run.keeps {Inv : σ → Prop} (h : Run step s t) (hs : Inv s)
    (hstep : ∀ s a t, Inv s → step s a = some t → Inv t) : Inv t := by
  induction h with
  | refl => exact hs
  | tail _ hlast ih =>
    obtain ⟨a, ha⟩ := hlast
    exact hstep _ a _ ih ha

/-- Take the actions one after the other. -/
def runActions (step : σ → α → Option σ) (s : σ) : List α → Option σ
  | [] => some s
  | a :: as => (step s a).bind fun t => runActions step t as

theorem run_of_runActions {as : List α} (h : runActions step s as = some t) : Run step s t := by
  induction as generalizing s with
  | nil =>
    rw [← Option.some.inj h]
    exact .refl
  | cons a as ih =>
    obtain ⟨u, hu, hrest⟩ := Option.bind_eq_some_iff.1 h
    exact (ih hrest).head ⟨a, hu⟩

/-- A list of actions that ends in a state with `p`. -/
theorem exists_run (step : σ → α → Option σ) (s : σ) (as : List α) (p : σ → Bool)
    (h : (runActions step s as).any p = true) : ∃ t, Run step s t ∧ p t = true := by
  obtain ⟨t, ht, hp⟩ := (Option.any_eq_true p _).1 h
  exact ⟨t, run_of_runActions ht, hp⟩

end Steps
