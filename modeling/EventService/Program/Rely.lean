/-
Rely-guarantee rules for programs that share a world. A protocol says what one operation may do to
the world, which invariant every world keeps, and how worlds may change from one moment to a later
one. `Ok` is the claim that a program, interrupted anywhere by changes the protocol allows, keeps
the invariant with every operation it performs and ends in its postcondition.
-/
import EventService.Program.Basic

/-- A world shared by programs: `exec o c w` is the reply and the next world when the environment
decides `c` (`none`: the operation cannot go ahead now); `inv` holds of every world; `le w w'`
says that `w'` may be a later world than `w`. -/
structure Protocol (Op : Type) (Reply : Op → Type) (W C : Type) where
  exec : (o : Op) → C → W → Option (Reply o × W)
  inv : W → Prop
  le : W → W → Prop
  refl : ∀ w, le w w
  trans : ∀ {u v w}, le u v → le v w → le u w

namespace Protocol

variable {Op : Type} {Reply : Op → Type} {W C ε α β : Type}

/-- Perform the next operation of a program. -/
def advance (exec : (o : Op) → C → W → Option (Reply o × W)) (p : Prog Op Reply ε α) (c : C) (w : W) :
    Option (Prog Op Reply ε α × W) :=
  match p with
  | .op o k => (exec o c w).map fun r => (k r.1, r.2)
  | .ret _ | .raise _ => none

/-- A program that goes on performs an operation. -/
theorem exec_of_advance {exec : (o : Op) → C → W → Option (Reply o × W)} {p p' : Prog Op Reply ε α} {c : C}
    {w w' : W} (h : advance exec p c w = some (p', w')) : ∃ o r, exec o c w = some (r, w') := by
  cases p with
  | ret a => cases h
  | raise e => cases h
  | op o k =>
    obtain ⟨r, hr, heq⟩ := Option.map_eq_some_iff.1 h
    obtain ⟨rfl, rfl⟩ := Prod.mk.inj heq
    exact ⟨o, r.1, hr⟩

/-- What a program goes on to is what follows the reply to its operation. -/
theorem advance_eq_some_iff {exec : (o : Op) → C → W → Option (Reply o × W)} {p p' : Prog Op Reply ε α} {c : C}
    {w w' : W} : advance exec p c w = some (p', w') ↔
      ∃ o k r, p = .op o k ∧ exec o c w = some (r, w') ∧ p' = k r := by
  constructor
  · intro h
    cases p with
    | ret a => cases h
    | raise e => cases h
    | op o k =>
      obtain ⟨r, hr, heq⟩ := Option.map_eq_some_iff.1 h
      obtain ⟨rfl, rfl⟩ := Prod.mk.inj heq
      exact ⟨o, k, r.1, rfl, hr, rfl⟩
  · rintro ⟨o, k, r, rfl, hexec, rfl⟩
    exact Option.map_eq_some_iff.2 ⟨(r, w'), hexec, rfl⟩

variable (P : Protocol Op Reply W C)

/-- A fact about the world that no later world falsifies. -/
def Stable (F : W → Prop) : Prop := ∀ w w', P.le w w' → F w → F w'

/-- From the world `w` on, whatever happens between its operations, the program keeps the
invariant and the order of worlds, returns only with `Q` and raises only with `E`. -/
def Ok (Q : α → W → Prop) (E : ε → W → Prop) : Prog Op Reply ε α → W → Prop
  | .ret a, w => Q a w
  | .raise e, w => E e w
  -- others may have acted since `w`, so the operation meets any later world
  | .op o k, w => ∀ w₁, P.le w w₁ → P.inv w₁ → ∀ c r w₂, P.exec o c w₁ = some (r, w₂) →
      P.inv w₂ ∧ P.le w₁ w₂ ∧ Ok Q E (k r) w₂

variable {P} {Q Q' : α → W → Prop} {E E' : ε → W → Prop}

@[simp] theorem ok_ret {a : α} {w : W} : P.Ok Q E (.ret a : Prog Op Reply ε α) w ↔ Q a w := Iff.rfl

@[simp] theorem ok_raise {e : ε} {w : W} : P.Ok Q E (.raise e : Prog Op Reply ε α) w ↔ E e w := Iff.rfl

/-- The rule of one operation: what holds after it, in every world it may be performed in. -/
theorem Ok.op {o : Op} {k : Reply o → Prog Op Reply ε α} {w : W}
    (h : ∀ w₁, P.le w w₁ → P.inv w₁ → ∀ c r w₂, P.exec o c w₁ = some (r, w₂) →
      P.inv w₂ ∧ P.le w₁ w₂ ∧ P.Ok Q E (k r) w₂) : P.Ok Q E (.op o k) w := h

/-- Weaken both postconditions; what is known at the start may be used if it is stable. -/
theorem Ok.weaken {p : Prog Op Reply ε α} {w : W} (h : P.Ok Q E p w)
    (hQ : ∀ a w', P.le w w' → Q a w' → Q' a w') (hE : ∀ e w', P.le w w' → E e w' → E' e w') :
    P.Ok Q' E' p w := by
  induction p generalizing w with
  | ret a => exact hQ a w (P.refl w) h
  | raise e => exact hE e w (P.refl w) h
  | op o k ih =>
    intro w₁ h₁ hi c r w₂ hx
    obtain ⟨hi₂, h₂, hk⟩ := h w₁ h₁ hi c r w₂ hx
    have hle : P.le w w₂ := P.trans h₁ h₂
    exact ⟨hi₂, h₂, ih r hk (fun a w' hw => hQ a w' (P.trans hle hw))
      (fun e w' hw => hE e w' (P.trans hle hw))⟩

/-- One operation of a program that is fine leads to a world and a program that are. -/
theorem Ok.advance {p p' : Prog Op Reply ε α} {c : C} {w w₁ w₂ : W} (h : P.Ok Q E p w) (hw : P.le w w₁)
    (hi : P.inv w₁) (hs : Protocol.advance P.exec p c w₁ = some (p', w₂)) :
    P.inv w₂ ∧ P.le w₁ w₂ ∧ P.Ok Q E p' w₂ := by
  cases p with
  | ret a => exact absurd hs (by simp [Protocol.advance])
  | raise e => exact absurd hs (by simp [Protocol.advance])
  | op o k =>
    obtain ⟨r, hr, heq⟩ := Option.map_eq_some_iff.1 hs
    obtain ⟨rfl, rfl⟩ := Prod.mk.inj heq
    exact h w₁ hw hi c r.1 r.2 hr

/-- Sequencing: the second program starts with what the first one returned, in a later world. -/
theorem Ok.bind {R : β → W → Prop} {F : ε → W → Prop} {p : Prog Op Reply ε α}
    {f : α → Prog Op Reply ε β} {w : W} (h : P.Ok Q E p w)
    (hQ : ∀ a w', P.le w w' → Q a w' → P.Ok R F (f a) w')
    (hE : ∀ e w', P.le w w' → E e w' → F e w') : P.Ok R F (p.bind f) w := by
  induction p generalizing w with
  | ret a => exact hQ a w (P.refl w) h
  | raise e => exact hE e w (P.refl w) h
  | op o k ih =>
    intro w₁ h₁ hi c r w₂ hx
    obtain ⟨hi₂, h₂, hk⟩ := h w₁ h₁ hi c r w₂ hx
    have hle : P.le w w₂ := P.trans h₁ h₂
    exact ⟨hi₂, h₂, ih r hk (fun a w' hw => hQ a w' (P.trans hle hw))
      (fun e w' hw => hE e w' (P.trans hle hw))⟩

/-- Catching exceptions: the program never raises, and returns how it ended. -/
theorem Ok.attempt {F : ε → W → Prop} {p : Prog Op Reply ε α} {w : W} (h : P.Ok Q E p w) :
    P.Ok (fun x w' => match x with
      | .ok a => Q a w'
      | .error e => E e w') F p.attempt w := by
  induction p generalizing w with
  | ret a => exact h
  | raise e => exact h
  | op o k ih =>
    intro w₁ h₁ hi c r w₂ hx
    obtain ⟨hi₂, h₂, hk⟩ := h w₁ h₁ hi c r w₂ hx
    exact ⟨hi₂, h₂, ih r hk⟩

/-- A program that was fine is still fine in a later world. -/
theorem Ok.stable {p : Prog Op Reply ε α} {w w' : W} (hQ : ∀ a, P.Stable (Q a))
    (hE : ∀ e, P.Stable (E e)) (hw : P.le w w') (h : P.Ok Q E p w) : P.Ok Q E p w' := by
  cases p with
  | ret a => exact hQ a w w' hw h
  | raise e => exact hE e w w' hw h
  | op o k => exact fun w₁ h₁ => h w₁ (P.trans hw h₁)

/-- Running over a list: a stable precondition of the elements, and what each one yields. -/
theorem Ok.collect {f : β → Prog Op Reply ε α} {A : β → W → Prop} {B : β → α → W → Prop}
    (hA : ∀ b, P.Stable (A b)) (hB : ∀ b a, P.Stable (B b a))
    (hf : ∀ b w, A b w → P.Ok (B b) E (f b) w) (hE : ∀ e, P.Stable (E e)) :
    ∀ (bs : List β) (w : W), (∀ b ∈ bs, A b w) →
      P.Ok (fun as w' => List.Forall₂ (fun b a => B b a w') bs as) E (Prog.collect f bs) w
  | [], w, _ => List.Forall₂.nil
  | b :: bs, w, h => by
    refine Ok.bind (hf b w (h b (List.mem_cons_self ..))) ?_ (fun e _ _ he => he)
    intro a w₁ hw₁ ha
    refine Ok.bind (Ok.collect hA hB hf hE bs w₁ fun b' hb' =>
      hA b' w w₁ hw₁ (h b' (List.mem_cons_of_mem _ hb'))) ?_ (fun e _ _ he => he)
    intro as w₂ hw₂ has
    exact List.Forall₂.cons (hB b a w₁ w₂ hw₂ ha) has

end Protocol
