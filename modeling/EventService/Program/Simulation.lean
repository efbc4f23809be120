/-
Forward simulation. A machine with a step function is simulated by a relation between abstract states if
every step it takes, from a state with an invariant, is some number of abstract steps (none, if nothing
changed that the abstract state shows). Then so is every run.
-/
import EventService.Program.Steps

namespace Steps

variable {σ α τ : Type} {step : σ → α → Option σ} {next : τ → τ → Prop} {Inv : σ → Prop} {f : σ → τ} {s t : σ}

/-- Seen through `f`, each step of the machine is a run of `next`. -/
structure Simulates (step : σ → α → Option σ) (Inv : σ → Prop) (next : τ → τ → Prop) (f : σ → τ) : Prop where
  keeps : ∀ s a t, Inv s → step s a = some t → Inv t
  steps : ∀ s a t, Inv s → step s a = some t → Relation.ReflTransGen next (f s) (f t)

theorem Simulates.run (h : Simulates step Inv next f) (hs : Inv s) (hrun : Run step s t) :
    Inv t ∧ Relation.ReflTransGen next (f s) (f t) := by
  induction hrun with
  | refl => exact ⟨hs, .refl⟩
  | tail _ hlast ih =>
    obtain ⟨a, ha⟩ := hlast
    obtain ⟨hinv, hsteps⟩ := ih
    exact ⟨h.keeps _ a _ hinv ha, hsteps.trans (h.steps _ a _ hinv ha)⟩

end Steps
