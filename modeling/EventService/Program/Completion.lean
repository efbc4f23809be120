/-
Running a program of a machine to its end. Where a machine can always go on to perform the next operation
of a program it holds, it can go on until the program has returned or raised, whatever the replies are. The
operations it performs on the way form a trail through the worlds.
-/
import Mathlib.Logic.Relation
import EventService.Program.Trace

/-- The calls of a trace, each with the effect it has, lead from one world to another. -/
inductive Trail {Op W : Type} {Reply : Op → Type} (effect : (o : Op) → W → Reply o → W → Prop) :
    W → List (Call Reply) → W → Prop
  | nil (w : W) : Trail effect w [] w
  | cons {o : Op} {r : Reply o} {w w₁ w₂ : W} {τ : List (Call Reply)} (hx : effect o w r w₁)
    (h : Trail effect w₁ τ w₂) : Trail effect w (⟨o, r⟩ :: τ) w₂

namespace Trail

variable {Op W : Type} {Reply : Op → Type} {effect : (o : Op) → W → Reply o → W → Prop} {w w' : W}
  {τ τ₁ τ₂ : List (Call Reply)}

theorem nil_iff : Trail effect w [] w' ↔ w' = w := by
  constructor
  · rintro ⟨⟩
    rfl
  · rintro rfl
    exact .nil w'

theorem cons_iff {o : Op} {r : Reply o} :
    Trail effect w (⟨o, r⟩ :: τ) w' ↔ ∃ w₁, effect o w r w₁ ∧ Trail effect w₁ τ w' := by
  constructor
  · intro h
    cases h with
    | cons hx h => exact ⟨_, hx, h⟩
  · rintro ⟨w₁, hx, h⟩
    exact .cons hx h

theorem append_iff : Trail effect w (τ₁ ++ τ₂) w' ↔ ∃ w₁, Trail effect w τ₁ w₁ ∧ Trail effect w₁ τ₂ w' := by
  induction τ₁ generalizing w with
  | nil => simp [nil_iff]
  | cons c τ₁ ih =>
    obtain ⟨o, r⟩ := c
    rw [List.cons_append, cons_iff]
    constructor
    · rintro ⟨w₁, hx, h⟩
      obtain ⟨w₂, h₁, h₂⟩ := ih.1 h
      exact ⟨w₂, .cons hx h₁, h₂⟩
    · rintro ⟨w₂, h₁, h₂⟩
      obtain ⟨w₁, hx, h⟩ := cons_iff.1 h₁
      exact ⟨w₁, hx, ih.2 ⟨w₂, h, h₂⟩⟩

/-- A call of the trace has its place on the trail. -/
theorem exists_of_mem {c : Call Reply} (h : Trail effect w τ w') (hc : c ∈ τ) :
    ∃ τ₁ τ₂ v v', Trail effect w τ₁ v ∧ effect c.op v c.reply v' ∧ Trail effect v' τ₂ w' := by
  obtain ⟨τ₁, τ₂, rfl⟩ := List.append_of_mem hc
  obtain ⟨v, h₁, hrest⟩ := append_iff.1 h
  obtain ⟨v', hx, h₂⟩ := cons_iff.1 hrest
  exact ⟨τ₁, τ₂, v, v', h₁, hx, h₂⟩

/-- A preorder that every effect of the trace respects, the trail respects. -/
theorem keeps {R : W → W → Prop} (h : Trail effect w τ w') (hrefl : ∀ w, R w w)
    (htrans : ∀ {u v w}, R u v → R v w → R u w)
    (heffect : ∀ c ∈ τ, ∀ v v', effect c.op v c.reply v' → R v v') : R w w' := by
  induction h with
  | nil w => exact hrefl w
  | cons hx h ih =>
    exact htrans (heffect _ (List.mem_cons_self ..) _ _ hx) (ih fun c hc => heffect c (List.mem_cons_of_mem _ hc))

end Trail

namespace Prog

variable {Op W σ ε α : Type} {Reply : Op → Type}

/-- A place where a machine holds a program and can always go on with it: `At s p` says that in the state
`s` the program is at `p`. -/
structure Place (next : σ → σ → Prop) (world : σ → W) (effect : (o : Op) → W → Reply o → W → Prop)
    (At : σ → Prog Op Reply ε α → Prop) : Prop where
  performs : ∀ {s : σ} {o : Op} {k : Reply o → Prog Op Reply ε α}, At s (.op o k) →
    ∃ t r, Relation.ReflTransGen next s t ∧ effect o (world s) r (world t) ∧ At t (k r)

variable {next : σ → σ → Prop} {world : σ → W} {effect : (o : Op) → W → Reply o → W → Prop}
  {At : σ → Prog Op Reply ε α → Prop}

/-- The machine can run the program to its end. -/
theorem Place.complete (h : Place next world effect At) {p : Prog Op Reply ε α} {s : σ} (hs : At s p) :
    ∃ τ x t, Runs p τ x ∧ Trail effect (world s) τ (world t) ∧ Relation.ReflTransGen next s t ∧
      At t (ofExcept x) := by
  induction p generalizing s with
  | ret a => exact ⟨[], .ok a, s, .ret a, .nil _, .refl, hs⟩
  | raise e => exact ⟨[], .error e, s, .raise e, .nil _, .refl, hs⟩
  | op o k ih =>
    obtain ⟨t, r, hst, heffect, ht⟩ := h.performs hs
    obtain ⟨τ, x, u, hruns, htrail, htu, hu⟩ := ih r ht
    exact ⟨⟨o, r⟩ :: τ, x, u, .op hruns, .cons heffect htrail, hst.trans htu, hu⟩

end Prog
