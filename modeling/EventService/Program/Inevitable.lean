/-
What a system cannot avoid. If it can always go on until it has reached a goal, and cannot go on for ever,
it reaches the goal, whoever makes the next step. A system of parts that go on one at a time cannot go on
for ever if none of its parts can, and a program that is run call by call cannot at all.
-/
import Mathlib.Order.WellFounded
import EventService.Program.Basic

/-- However the system goes on from here, it reaches a goal, and it can go on until it has. -/
inductive Inevitable {σ : Type} (next : σ → σ → Prop) (Goal : σ → Prop) : σ → Prop
  | here {s : σ} (h : Goal s) : Inevitable next Goal s
  | later {s : σ} (hcan : ∃ t, next s t) (hall : ∀ t, next s t → Inevitable next Goal t) : Inevitable next Goal s

namespace Inevitable

variable {σ : Type} {next : σ → σ → Prop} {Goal Inv : σ → Prop} {s : σ}

/-- From `s` the system cannot go on for ever. -/
abbrev Ends (next : σ → σ → Prop) (s : σ) : Prop := Acc (fun t s => next s t) s

theorem of_ends (hends : Ends next s) (hinv : Inv s) (hkeeps : ∀ s t, Inv s → next s t → Inv t)
    (hcan : ∀ s, Inv s → Goal s ∨ ∃ t, next s t) : Inevitable next Goal s := by
  induction hends with
  | intro s _ ih =>
    rcases hcan s hinv with hgoal | hcan
    · exact .here hgoal
    · exact .later hcan fun t ht => ih t ht (hkeeps s t hinv ht)

/-! ## Parts -/

/-- One part of a list goes on. -/
inductive OneOf {α : Type} (next : α → α → Prop) : List α → List α → Prop
  | head {a b : α} {as : List α} (h : next a b) : OneOf next (a :: as) (b :: as)
  | tail {a : α} {as bs : List α} (h : OneOf next as bs) : OneOf next (a :: as) (a :: bs)

theorem oneOf_set {α : Type} {next : α → α → Prop} {as : List α} {i : Nat} {a b : α} (ha : as[i]? = some a)
    (h : next a b) : OneOf next as (as.set i b) := by
  induction as generalizing i with
  | nil => cases ha
  | cons c as ih =>
    cases i with
    | zero =>
      obtain rfl := Option.some.inj ha
      exact .head h
    | succ i => exact .tail (ih ha)

/-- If no part can go on for ever, they cannot either. -/
theorem ends_oneOf {α : Type} {next : α → α → Prop} {as : List α} (h : ∀ a ∈ as, Ends next a) :
    Ends (OneOf next) as := by
  induction as with
  | nil => exact .intro _ fun bs hbs => by cases hbs
  | cons a as ih =>
    have hhead := h a (List.mem_cons_self ..)
    have htail := ih fun b hb => h b (List.mem_cons_of_mem _ hb)
    clear h ih
    -- either part gets smaller: the first one for any rest, the rest for the first one as it is
    induction hhead generalizing as with
    | intro a _ iha =>
      induction htail with
      | intro as htail ihas =>
        refine .intro _ fun bs hbs => ?_
        cases hbs with
        | head hb => exact iha _ hb as (.intro _ htail)
        | tail hbs => exact ihas _ hbs

end Inevitable

namespace Prog

variable {Op ε α : Type} {Reply : Op → Type}

/-- The next call is made. -/
inductive Continues : Prog Op Reply ε α → Prog Op Reply ε α → Prop
  | op (o : Op) (k : Reply o → Prog Op Reply ε α) (r : Reply o) : Continues (.op o k) (k r)

/-- A program ends, whatever its calls are answered. -/
theorem ends_continues (p : Prog Op Reply ε α) : Inevitable.Ends Continues p := by
  induction p with
  | ret a => exact .intro _ fun q hq => by cases hq
  | raise e => exact .intro _ fun q hq => by cases hq
  | op o k ih =>
    refine .intro _ fun q hq => ?_
    cases hq with
    | op _ _ r => exact ih r

end Prog
