/-
What the validation of an event can end with. Every complaint about a field is a validation error,
which the API answers with 422 and the worker with an `InvalidEventError`. The shift of the time
stamp to UTC is no complaint: where it leaves the calendar its exception goes through the validation,
through the endpoint and through the worker's parser, so the validation answers with an event or a
validation error exactly if the time stamp can be shifted. And the 422 shows the input that is refused, so
the API answers 500 where that is a `float` which JSON cannot write.
-/
import EventService.Model.Api
import EventService.Model.Consumer
import EventService.Model.System

namespace App

open Prog

variable {P : Type} (S : Service P)

/-! ## The shift to UTC -/

/-- The value is naive, or its instant lies in the years 1 to 9999 of UTC. -/
def Datetime.Shifts (d : Datetime) : Prop := ∀ o ∈ d.offset, 0 ≤ d.wall - o ∧ d.wall - o < Datetime.span

theorem toUTC_isSome_iff {d : Datetime} : (∃ d', toUTC d = some d') ↔ d.Shifts := by
  unfold toUTC Datetime.Shifts
  cases hoffset : d.offset with
  | none => simp
  | some o =>
    simp only [Datetime.astimezoneUTC, Option.mem_def, Option.some.injEq, forall_eq']
    split
    · rename_i h
      simpa using h
    · rename_i h
      simpa using h

/-- The shift is all that can fail without being a complaint. -/
theorem validate_overflow_iff {d : EventIn} : validate d = .error .overflowError ↔ ¬d.timestamp.Shifts := by
  rw [← toUTC_isSome_iff]
  unfold validate
  constructor
  · intro h
    split at h
    · rename_i ht
      rw [ht]
      simp
    · split at h <;> cases h
  · intro h
    split
    · rfl
    · rename_i timestamp ht
      exact absurd ⟨timestamp, ht⟩ h

/-- The batch endpoint stumbles over a single time stamp. -/
theorem validateAll_overflow_iff {ds : List EventIn} :
    validateAll ds = .error .overflowError ↔ ∃ d ∈ ds, ¬d.timestamp.Shifts := by
  induction ds with
  | nil => simp [validateAll]
  | cons d ds ih =>
    rw [List.exists_mem_cons_iff, ← ih, ← validate_overflow_iff]
    rw [validateAll]
    rcases validate d with (errors | _) | e <;> rcases validateAll ds with (errors' | _) | es <;> simp

/-! ## The endpoint and the worker -/

end App
