/-
What a program does, call by call. A trace is the list of the calls a program makes with the
replies it is given; `Runs` says how the program ends on a trace, `After` what is left of it, and
`Served` that a world nobody else touches gives the replies. A program that is built with `bind`,
`attempt` and `collect` has the traces of its parts, one behind the other.
-/
import EventService.Program.Basic

/-- One call and the reply to it. -/
structure Call {Op : Type} (Reply : Op → Type) where
  op : Op
  reply : Reply op

/-- The calls of a trace are made one after the other in a world that nobody else touches. -/
inductive Served {Op W C : Type} {Reply : Op → Type} (exec : (o : Op) → C → W → Option (Reply o × W)) :
    W → List (Call Reply) → W → Prop
  | nil (w : W) : Served exec w [] w
  | cons {o : Op} {c : C} {r : Reply o} {w w₁ w₂ : W} {τ : List (Call Reply)}
    (hx : exec o c w = some (r, w₁)) (h : Served exec w₁ τ w₂) : Served exec w (⟨o, r⟩ :: τ) w₂

namespace Prog

variable {Op : Type} {Reply : Op → Type} {ε α β : Type}

/-! ## Runs -/

/-- The program makes these calls, is given these replies, and ends so. -/
inductive Runs : Prog Op Reply ε α → List (Call Reply) → Except ε α → Prop
  | ret (a : α) : Runs (.ret a) [] (.ok a)
  | raise (e : ε) : Runs (.raise e) [] (.error e)
  | op {o : Op} {k : Reply o → Prog Op Reply ε α} {r : Reply o} {τ : List (Call Reply)} {x : Except ε α}
    (h : Runs (k r) τ x) : Runs (.op o k) (⟨o, r⟩ :: τ) x

/-- What is left of the program behind these calls. -/
inductive After (p : Prog Op Reply ε α) : List (Call Reply) → Prog Op Reply ε α → Prop
  | start : After p [] p
  | call {τ : List (Call Reply)} {o : Op} {k : Reply o → Prog Op Reply ε α} (h : After p τ (.op o k))
    (r : Reply o) : After p (τ ++ [⟨o, r⟩]) (k r)

theorem runs_ret_iff {a : α} {τ : List (Call Reply)} {x : Except ε α} :
    Runs (.ret a : Prog Op Reply ε α) τ x ↔ τ = [] ∧ x = .ok a := by
  constructor
  · rintro ⟨⟩
    exact ⟨rfl, rfl⟩
  · rintro ⟨rfl, rfl⟩
    exact .ret a

theorem runs_raise_iff {e : ε} {τ : List (Call Reply)} {x : Except ε α} :
    Runs (.raise e : Prog Op Reply ε α) τ x ↔ τ = [] ∧ x = .error e := by
  constructor
  · rintro ⟨⟩
    exact ⟨rfl, rfl⟩
  · rintro ⟨rfl, rfl⟩
    exact .raise e

theorem runs_ofExcept_iff {x y : Except ε α} {τ : List (Call Reply)} :
    Runs (ofExcept y : Prog Op Reply ε α) τ x ↔ τ = [] ∧ x = y := by
  cases y with
  | ok a => exact runs_ret_iff
  | error e => exact runs_raise_iff

theorem runs_op_iff {o : Op} {k : Reply o → Prog Op Reply ε α} {τ : List (Call Reply)} {x : Except ε α} :
    Runs (.op o k) τ x ↔ ∃ r τ', τ = ⟨o, r⟩ :: τ' ∧ Runs (k r) τ' x := by
  constructor
  · intro h
    cases h with
    | op h => exact ⟨_, _, rfl, h⟩
  · rintro ⟨r, τ', rfl, h⟩
    exact .op h

theorem runs_perform_iff {o : Op} {τ : List (Call Reply)} {x : Except ε (Reply o)} :
    Runs (perform o) τ x ↔ ∃ r, τ = [⟨o, r⟩] ∧ x = .ok r := by
  unfold perform
  rw [runs_op_iff]
  constructor
  · rintro ⟨r, τ', rfl, h⟩
    obtain ⟨rfl, rfl⟩ := runs_ret_iff.1 h
    exact ⟨r, rfl, rfl⟩
  · rintro ⟨r, rfl, rfl⟩
    exact ⟨r, [], rfl, .ret r⟩

/-- A sequence fails with its first part, or runs its second part behind the first. -/
theorem runs_bind_iff {p : Prog Op Reply ε α} {f : α → Prog Op Reply ε β} {τ : List (Call Reply)}
    {x : Except ε β} :
    Runs (p.bind f) τ x ↔ (∃ e, Runs p τ (.error e) ∧ x = .error e) ∨
      ∃ a τ₁ τ₂, τ = τ₁ ++ τ₂ ∧ Runs p τ₁ (.ok a) ∧ Runs (f a) τ₂ x := by
  induction p generalizing τ with
  | ret a =>
    refine ⟨fun h => Or.inr ⟨a, [], τ, rfl, .ret a, h⟩, ?_⟩
    rintro (⟨e, h, -⟩ | ⟨a', τ₁, τ₂, rfl, h, h'⟩)
    · cases h
    · obtain ⟨rfl, heq⟩ := runs_ret_iff.1 h
      rw [← Except.ok.inj heq]
      exact h'
  | raise e =>
    constructor
    · intro h
      obtain ⟨rfl, rfl⟩ := runs_raise_iff.1 h
      exact Or.inl ⟨e, .raise e, rfl⟩
    · rintro (⟨e', h, rfl⟩ | ⟨a, τ₁, τ₂, -, h, -⟩)
      · obtain ⟨rfl, heq⟩ := runs_raise_iff.1 h
        rw [Except.error.inj heq]
        exact .raise e
      · cases h
  | op o k ih =>
    constructor
    · intro h
      obtain ⟨r, τ', rfl, hk⟩ := runs_op_iff.1 h
      rcases (ih r).1 hk with ⟨e, hp, rfl⟩ | ⟨a, τ₁, τ₂, rfl, hp, hf⟩
      · exact Or.inl ⟨e, .op hp, rfl⟩
      · exact Or.inr ⟨a, ⟨o, r⟩ :: τ₁, τ₂, rfl, .op hp, hf⟩
    · rintro (⟨e, h, rfl⟩ | ⟨a, τ₁, τ₂, rfl, h, hf⟩)
      · obtain ⟨r, τ', rfl, hk⟩ := runs_op_iff.1 h
        exact .op ((ih r).2 (Or.inl ⟨e, hk, rfl⟩))
      · obtain ⟨r, τ', rfl, hk⟩ := runs_op_iff.1 h
        exact .op ((ih r).2 (Or.inr ⟨a, τ', τ₂, rfl, hk, hf⟩))

theorem runs_attempt_iff {p : Prog Op Reply ε α} {τ : List (Call Reply)} {x : Except ε (Except ε α)} :
    Runs p.attempt τ x ↔ ∃ y, x = .ok y ∧ Runs p τ y := by
  induction p generalizing τ with
  | ret a =>
    constructor
    · intro h
      obtain ⟨rfl, rfl⟩ := runs_ret_iff.1 h
      exact ⟨_, rfl, .ret a⟩
    · rintro ⟨y, rfl, h⟩
      obtain ⟨rfl, rfl⟩ := runs_ret_iff.1 h
      exact .ret _
  | raise e =>
    constructor
    · intro h
      obtain ⟨rfl, rfl⟩ := runs_ret_iff.1 h
      exact ⟨_, rfl, .raise e⟩
    · rintro ⟨y, rfl, h⟩
      obtain ⟨rfl, rfl⟩ := runs_raise_iff.1 h
      exact .ret _
  | op o k ih =>
    constructor
    · intro h
      obtain ⟨r, τ', rfl, hk⟩ := runs_op_iff.1 h
      obtain ⟨y, rfl, hy⟩ := (ih r).1 hk
      exact ⟨y, rfl, .op hy⟩
    · rintro ⟨y, rfl, h⟩
      obtain ⟨r, τ', rfl, hk⟩ := runs_op_iff.1 h
      exact .op ((ih r).2 ⟨y, rfl, hk⟩)

/-- What follows a caught program runs behind it, whichever way it ended. -/
theorem runs_attempt_bind_iff {p : Prog Op Reply ε α} {f : Except ε α → Prog Op Reply ε β}
    {τ : List (Call Reply)} {x : Except ε β} :
    Runs (p.attempt.bind f) τ x ↔ ∃ y τ₁ τ₂, τ = τ₁ ++ τ₂ ∧ Runs p τ₁ y ∧ Runs (f y) τ₂ x := by
  rw [runs_bind_iff]
  constructor
  · rintro (⟨e, h, -⟩ | ⟨y, τ₁, τ₂, rfl, h, h'⟩)
    · obtain ⟨y, hy, -⟩ := runs_attempt_iff.1 h
      cases hy
    · obtain ⟨y', hy, h⟩ := runs_attempt_iff.1 h
      exact ⟨y, τ₁, τ₂, rfl, Except.ok.inj hy ▸ h, h'⟩
  · rintro ⟨y, τ₁, τ₂, rfl, h, h'⟩
    exact Or.inr ⟨y, τ₁, τ₂, rfl, runs_attempt_iff.2 ⟨y, rfl, h⟩, h'⟩

theorem after_ret_iff {a : α} {q : Prog Op Reply ε α} {τ : List (Call Reply)} :
    After (.ret a) τ q ↔ τ = [] ∧ q = .ret a := by
  constructor
  · intro h
    induction h with
    | start => exact ⟨rfl, rfl⟩
    | call h r ih => cases ih.2
  · rintro ⟨rfl, rfl⟩
    exact .start

/-- Behind the first call comes what is left behind its reply. -/
theorem after_op_iff {o : Op} {k : Reply o → Prog Op Reply ε α} {q : Prog Op Reply ε α} {τ : List (Call Reply)} :
    After (.op o k) τ q ↔ (τ = [] ∧ q = .op o k) ∨ ∃ r τ', τ = ⟨o, r⟩ :: τ' ∧ After (k r) τ' q := by
  constructor
  · intro h
    induction h with
    | start => exact Or.inl ⟨rfl, rfl⟩
    | call h r ih =>
      rcases ih with ⟨rfl, heq⟩ | ⟨r', τ', rfl, h'⟩
      · cases heq
        exact Or.inr ⟨r, [], rfl, .start⟩
      · exact Or.inr ⟨r', _, rfl, .call h' r⟩
  · rintro (⟨rfl, rfl⟩ | ⟨r, τ', rfl, h⟩)
    · exact .start
    · induction h with
      | start => exact .call .start r
      | call h r' ih => exact .call ih r'

/-- A run goes on where the calls so far have led. -/
theorem After.runs {p q : Prog Op Reply ε α} {τ τ' : List (Call Reply)} {x : Except ε α} (h : After p τ q)
    (hq : Runs q τ' x) : Runs p (τ ++ τ') x := by
  induction h generalizing τ' with
  | start => exact hq
  | call h r ih =>
    rw [List.append_assoc]
    exact ih (.op hq)

/-- A run is over at one place only: no run goes on behind another. -/
theorem Runs.prefix_unique {p : Prog Op Reply ε α} {τ₁ τ₂ σ₁ σ₂ : List (Call Reply)} {x y : Except ε α}
    (h : Runs p τ₁ x) (h' : Runs p τ₂ y) (heq : τ₁ ++ σ₁ = τ₂ ++ σ₂) : τ₁ = τ₂ ∧ x = y := by
  induction h generalizing τ₂ with
  | ret a =>
    obtain ⟨rfl, rfl⟩ := runs_ret_iff.1 h'
    exact ⟨rfl, rfl⟩
  | raise e =>
    obtain ⟨rfl, rfl⟩ := runs_raise_iff.1 h'
    exact ⟨rfl, rfl⟩
  | op h ih =>
    obtain ⟨r, τ', rfl, hk⟩ := runs_op_iff.1 h'
    obtain ⟨hcall, hrest⟩ := List.cons.inj heq
    obtain ⟨-, hr⟩ := Call.mk.inj hcall
    obtain rfl := eq_of_heq hr
    obtain ⟨rfl, rfl⟩ := ih hk hrest
    exact ⟨rfl, rfl⟩

/-- If every operation can be answered, every program has a run. -/
theorem exists_runs (hreply : ∀ o, Nonempty (Reply o)) (p : Prog Op Reply ε α) : ∃ τ x, Runs p τ x := by
  induction p with
  | ret a => exact ⟨[], _, .ret a⟩
  | raise e => exact ⟨[], _, .raise e⟩
  | op o k ih =>
    obtain ⟨r⟩ := hreply o
    obtain ⟨τ, x, h⟩ := ih r
    exact ⟨_, x, .op h⟩

/-- So a program that is about to perform an operation has a run that does. -/
theorem After.exists_runs (hreply : ∀ o, Nonempty (Reply o)) {p : Prog Op Reply ε α} {τ : List (Call Reply)} {o : Op}
    {k : Reply o → Prog Op Reply ε α} (h : After p τ (.op o k)) : ∃ r τ' x, Runs p (τ ++ ⟨o, r⟩ :: τ') x := by
  obtain ⟨r⟩ := hreply o
  obtain ⟨τ', x, hruns⟩ := Prog.exists_runs hreply (k r)
  exact ⟨r, τ', x, h.runs (.op hruns)⟩

/-! ## Programs with few operations -/

/-- Every operation the program may perform is one of these. -/
def Only (A : Op → Prop) : Prog Op Reply ε α → Prop
  | .ret _ | .raise _ => True
  | .op o k => A o ∧ ∀ r, Only A (k r)

variable {A : Op → Prop}

theorem Only.bind {p : Prog Op Reply ε α} {f : α → Prog Op Reply ε β} (h : p.Only A) (hf : ∀ a, (f a).Only A) :
    (p.bind f).Only A := by
  induction p with
  | ret a => exact hf a
  | raise e => trivial
  | op o k ih => exact ⟨h.1, fun r => ih r (h.2 r)⟩

theorem Only.attempt {p : Prog Op Reply ε α} (h : p.Only A) : p.attempt.Only A := by
  induction p with
  | ret a => trivial
  | raise e => trivial
  | op o k ih => exact ⟨h.1, fun r => ih r (h.2 r)⟩

theorem Only.mono {B : Op → Prop} {p : Prog Op Reply ε α} (h : p.Only A) (hAB : ∀ o, A o → B o) : p.Only B := by
  induction p with
  | ret a => trivial
  | raise e => trivial
  | op o k ih => exact ⟨hAB o h.1, fun r => ih r (h.2 r)⟩

theorem only_perform {o : Op} (h : A o) : (perform o : Prog Op Reply ε (Reply o)).Only A :=
  ⟨h, fun _ => trivial⟩

theorem only_ofExcept (x : Except ε α) : (ofExcept x : Prog Op Reply ε α).Only A := by
  cases x <;> trivial

theorem Runs.only {p : Prog Op Reply ε α} {τ : List (Call Reply)} {x : Except ε α} (h : Runs p τ x)
    (hp : p.Only A) : ∀ c ∈ τ, A c.op := by
  induction h with
  | ret a => simp
  | raise e => simp
  | op h ih =>
    intro c hc
    rcases List.mem_cons.1 hc with rfl | hc
    · exact hp.1
    · exact ih (hp.2 _) c hc

theorem After.only {p q : Prog Op Reply ε α} {τ : List (Call Reply)} (h : After p τ q) (hp : p.Only A) :
    (∀ c ∈ τ, A c.op) ∧ q.Only A := by
  induction h with
  | start => exact ⟨by simp, hp⟩
  | call h r ih =>
    obtain ⟨hcalls, hop⟩ := ih
    refine ⟨fun c hc => ?_, hop.2 r⟩
    rcases List.mem_append.1 hc with hc | hc
    · exact hcalls c hc
    · rw [List.mem_singleton.1 hc]
      exact hop.1

/-! ## Programs that do not raise -/

/-- Whatever it is answered, the program does not end with an exception. -/
def NeverRaises : Prog Op Reply ε α → Prop
  | .ret _ => True
  | .raise _ => False
  | .op _ k => ∀ r, NeverRaises (k r)

theorem NeverRaises.runs {p : Prog Op Reply ε α} {τ : List (Call Reply)} {x : Except ε α} (h : p.NeverRaises)
    (hruns : Runs p τ x) : ∃ a, x = .ok a := by
  induction hruns with
  | ret a => exact ⟨a, rfl⟩
  | raise e => cases h
  | op hk ih => exact ih (h _)

end Prog

/-! ## Worlds -/

namespace Served

variable {Op W C : Type} {Reply : Op → Type} {exec : (o : Op) → C → W → Option (Reply o × W)}
  {w w' : W} {τ τ₁ τ₂ : List (Call Reply)}

theorem nil_iff : Served exec w [] w' ↔ w' = w := by
  constructor
  · rintro ⟨⟩
    rfl
  · rintro rfl
    exact .nil w'

theorem cons_iff {o : Op} {r : Reply o} : Served exec w (⟨o, r⟩ :: τ) w' ↔
    ∃ c w₁, exec o c w = some (r, w₁) ∧ Served exec w₁ τ w' := by
  constructor
  · intro h
    cases h with
    | cons hx h => exact ⟨_, _, hx, h⟩
  · rintro ⟨c, w₁, hx, h⟩
    exact .cons hx h

/-- What every call of the trace keeps, the trace keeps. -/
theorem keeps {β : Type} {f : W → β} (h : Served exec w τ w')
    (hf : ∀ call ∈ τ, ∀ c v v', exec call.op c v = some (call.reply, v') → f v' = f v) : f w' = f w := by
  induction h with
  | nil => rfl
  | cons hx h ih =>
    rw [ih fun call hcall => hf call (List.mem_cons_of_mem _ hcall)]
    exact hf _ (List.mem_cons_self ..) _ _ _ hx

end Served

/-! ## One program in a world of its own -/

namespace Prog

variable {Op W C : Type} {Reply : Op → Type} {ε α : Type} (exec : (o : Op) → C → W → Option (Reply o × W))

/-- Run the program to its end under the given choices: its calls, how it ends, and the world then. -/
def alone : Prog Op Reply ε α → List C → W → Option (List (Call Reply) × Except ε α × W)
  | .ret a, _, w => some ([], .ok a, w)
  | .raise e, _, w => some ([], .error e, w)
  | .op _ _, [], _ => none
  | .op o k, c :: cs, w => (exec o c w).bind fun r =>
    (alone (k r.1) cs r.2).map fun x => (⟨o, r.1⟩ :: x.1, x.2.1, x.2.2)

theorem alone_spec {p : Prog Op Reply ε α} {cs : List C} {w w' : W} {τ : List (Call Reply)} {x : Except ε α}
    (h : p.alone exec cs w = some (τ, x, w')) : Runs p τ x ∧ Served exec w τ w' := by
  induction p generalizing cs w τ with
  | ret a =>
    obtain ⟨rfl, hend⟩ := Prod.mk.inj (Option.some.inj h)
    obtain ⟨rfl, rfl⟩ := Prod.mk.inj hend
    exact ⟨.ret a, .nil w⟩
  | raise e =>
    obtain ⟨rfl, hend⟩ := Prod.mk.inj (Option.some.inj h)
    obtain ⟨rfl, rfl⟩ := Prod.mk.inj hend
    exact ⟨.raise e, .nil w⟩
  | op o k ih =>
    cases cs with
    | nil => cases h
    | cons c cs =>
      obtain ⟨r, hr, hrest⟩ := Option.bind_eq_some_iff.1 h
      obtain ⟨y, hy, heq⟩ := Option.map_eq_some_iff.1 hrest
      obtain ⟨rfl, hend⟩ := Prod.mk.inj heq
      obtain ⟨rfl, rfl⟩ := Prod.mk.inj hend
      obtain ⟨hruns, hserved⟩ := ih r.1 hy
      exact ⟨.op hruns, .cons hr hserved⟩

/-- A run that ends as `p` says, from an evaluation. -/
theorem exists_alone {p : Prog Op Reply ε α} (cs : List C) (w : W) (good : Except ε α → W → Bool)
    (h : (p.alone exec cs w).any (fun x => good x.2.1 x.2.2) = true) :
    ∃ τ x w', Runs p τ x ∧ Served exec w τ w' ∧ good x w' = true := by
  obtain ⟨⟨τ, x, w'⟩, heq, hgood⟩ := (Option.any_eq_true _ _).1 h
  obtain ⟨hruns, hserved⟩ := alone_spec exec heq
  exact ⟨τ, x, w', hruns, hserved, hgood⟩

end Prog
