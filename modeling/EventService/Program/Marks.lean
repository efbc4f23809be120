/-
Programs that leave marks between their calls (counters they increase, gauges they set). A mark is
answered by nobody and changes nothing: erasing the marks of a program leaves a program that makes the
same calls and ends in the same way, and the calls it has made tell which marks were left.
-/
import EventService.Program.Trace

/-- A call, or a mark. -/
inductive Marked (Op M : Type)
  | call (o : Op)
  | mark (m : M)

@[reducible] def Marked.Reply {Op : Type} (M : Type) (Reply : Op → Type) : Marked Op M → Type
  | .call o => Reply o
  | .mark _ => Unit

namespace Prog

variable {Op M : Type} {Reply : Op → Type} {ε α β : Type}

/-- The program without its marks. -/
def erase : Prog (Marked Op M) (Marked.Reply M Reply) ε α → Prog Op Reply ε α
  | .ret a => .ret a
  | .raise e => .raise e
  | .op (.call o) k => .op o fun r => (k r).erase
  | .op (.mark _) k => (k ()).erase

/-- The program as it is: it leaves no marks. -/
def bare : Prog Op Reply ε α → Prog (Marked Op M) (Marked.Reply M Reply) ε α
  | .ret a => .ret a
  | .raise e => .raise e
  | .op o k => .op (.call o) fun r => (k r).bare

/-- Leave a mark. -/
def leave (m : M) : Prog (Marked Op M) (Marked.Reply M Reply) ε Unit := .op (.mark m) .ret

@[simp] theorem erase_ret (a : α) : (ret a : Prog (Marked Op M) (Marked.Reply M Reply) ε α).erase = .ret a := rfl

@[simp] theorem erase_raise (e : ε) : (raise e : Prog (Marked Op M) (Marked.Reply M Reply) ε α).erase = .raise e := rfl

@[simp] theorem erase_leave (m : M) : (leave m : Prog (Marked Op M) (Marked.Reply M Reply) ε Unit).erase = .ret () := rfl

@[simp] theorem erase_bind (p : Prog (Marked Op M) (Marked.Reply M Reply) ε α)
    (f : α → Prog (Marked Op M) (Marked.Reply M Reply) ε β) :
    (p.bind f).erase = p.erase.bind fun a => (f a).erase := by
  induction p with
  | ret a => rfl
  | raise e => rfl
  | op o k ih =>
    cases o with
    | call o =>
      show Prog.op o (fun r => ((k r).bind f).erase) = .op o fun r => (k r).erase.bind fun a => (f a).erase
      rw [funext fun r => ih r]
    | mark m => exact ih ()

@[simp] theorem erase_attempt (p : Prog (Marked Op M) (Marked.Reply M Reply) ε α) :
    p.attempt.erase = p.erase.attempt := by
  induction p with
  | ret a => rfl
  | raise e => rfl
  | op o k ih =>
    cases o with
    | call o =>
      show Prog.op o (fun r => (k r).attempt.erase) = .op o fun r => (k r).erase.attempt
      rw [funext fun r => ih r]
    | mark m => exact ih ()

@[simp] theorem erase_bare (p : Prog Op Reply ε α) :
    (p.bare : Prog (Marked Op M) (Marked.Reply M Reply) ε α).erase = p := by
  induction p with
  | ret a => rfl
  | raise e => rfl
  | op o k ih =>
    show Prog.op o (fun r => (k r).bare.erase) = .op o k
    rw [funext fun r => ih r]

@[simp] theorem erase_ofExcept (x : Except ε α) :
    (ofExcept x : Prog (Marked Op M) (Marked.Reply M Reply) ε α).erase = ofExcept x := by
  cases x <;> rfl

theorem erase_ite {c : Prop} [Decidable c] (p q : Prog (Marked Op M) (Marked.Reply M Reply) ε α) :
    (if c then p else q).erase = if c then p.erase else q.erase :=
  apply_ite erase c p q

/-! ## Runs -/

/-- The calls among calls and marks. -/
def calls : List (Call (Marked.Reply M Reply)) → List (Call Reply)
  | [] => []
  | ⟨.call o, r⟩ :: τ => ⟨o, r⟩ :: calls τ
  | ⟨.mark _, _⟩ :: τ => calls τ

/-- The marks among calls and marks. -/
def marks : List (Call (Marked.Reply M Reply)) → List M
  | [] => []
  | ⟨.call _, _⟩ :: τ => marks τ
  | ⟨.mark m, _⟩ :: τ => m :: marks τ

variable {p : Prog (Marked Op M) (Marked.Reply M Reply) ε α} {σ σ' : List (Call (Marked.Reply M Reply))}
  {τ : List (Call Reply)} {x y : Except ε α}

@[simp] theorem calls_append (σ σ' : List (Call (Marked.Reply M Reply))) : calls (σ ++ σ') = calls σ ++ calls σ' := by
  induction σ with
  | nil => rfl
  | cons c σ ih =>
    obtain ⟨o | m, r⟩ := c
    · exact congrArg _ ih
    · exact ih

@[simp] theorem marks_append (σ σ' : List (Call (Marked.Reply M Reply))) : marks (σ ++ σ') = marks σ ++ marks σ' := by
  induction σ with
  | nil => rfl
  | cons c σ ih =>
    obtain ⟨o | m, r⟩ := c
    · exact ih
    · exact congrArg _ ih

/-- Without its marks, the program makes the same calls and ends in the same way. -/
theorem Runs.erase (h : Runs p σ x) : Runs p.erase (calls σ) x := by
  induction h with
  | ret a => exact .ret a
  | raise e => exact .raise e
  | @op o k r σ x h ih =>
    cases o with
    | call o => exact .op ih
    | mark m => exact ih

/-- Every run without the marks is one with them. -/
theorem exists_runs_of_erase (h : Runs p.erase τ x) : ∃ σ, Runs p σ x ∧ calls σ = τ := by
  induction p generalizing τ with
  | ret a =>
    obtain ⟨rfl, rfl⟩ := runs_ret_iff.1 h
    exact ⟨[], .ret a, rfl⟩
  | raise e =>
    obtain ⟨rfl, rfl⟩ := runs_raise_iff.1 h
    exact ⟨[], .raise e, rfl⟩
  | op o k ih =>
    cases o with
    | call o =>
      obtain ⟨r, τ', rfl, hk⟩ := runs_op_iff.1 h
      obtain ⟨σ, hσ, rfl⟩ := ih r hk
      exact ⟨⟨.call o, r⟩ :: σ, .op hσ, rfl⟩
    | mark m =>
      obtain ⟨σ, hσ, rfl⟩ := ih () h
      exact ⟨⟨.mark m, ()⟩ :: σ, .op hσ, rfl⟩

/-- The calls tell the marks, and how the program ends. -/
theorem Runs.eq_of_calls (h : Runs p σ x) (h' : Runs p σ' y) (hcalls : calls σ = calls σ') : σ = σ' ∧ x = y := by
  induction h generalizing σ' with
  | ret a =>
    obtain ⟨rfl, rfl⟩ := runs_ret_iff.1 h'
    exact ⟨rfl, rfl⟩
  | raise e =>
    obtain ⟨rfl, rfl⟩ := runs_raise_iff.1 h'
    exact ⟨rfl, rfl⟩
  | @op o k r σ x h ih =>
    obtain ⟨r', σ₁, rfl, hk⟩ := runs_op_iff.1 h'
    cases o with
    | call o =>
      obtain ⟨hcall, hrest⟩ := List.cons.inj hcalls
      obtain rfl := eq_of_heq (Call.mk.inj hcall).2
      obtain ⟨rfl, rfl⟩ := ih hk hrest
      exact ⟨rfl, rfl⟩
    | mark m =>
      obtain ⟨rfl, rfl⟩ := ih hk hcalls
      exact ⟨rfl, rfl⟩

/-- The program leaves these marks when it makes these calls and returns or raises behind them. -/
def Marking (p : Prog (Marked Op M) (Marked.Reply M Reply) ε α) (τ : List (Call Reply)) (ms : List M) : Prop :=
  ∃ σ x, Runs p σ x ∧ calls σ = τ ∧ marks σ = ms

theorem Marking.unique {ms ms' : List M} (h : p.Marking τ ms) (h' : p.Marking τ ms') : ms = ms' := by
  obtain ⟨σ, x, hruns, hcalls, rfl⟩ := h
  obtain ⟨σ', x', hruns', hcalls', rfl⟩ := h'
  rw [(hruns.eq_of_calls hruns' (hcalls.trans hcalls'.symm)).1]

/-- A program without marks leaves none. -/
theorem runs_bare_iff {p : Prog Op Reply ε α} : Runs (p.bare : Prog (Marked Op M) (Marked.Reply M Reply) ε α) σ x ↔
    Runs p (calls σ) x ∧ marks σ = [] := by
  constructor
  · intro h
    refine ⟨by simpa using h.erase, ?_⟩
    induction p generalizing σ with
    | ret a =>
      obtain ⟨rfl, -⟩ := runs_ret_iff.1 h
      rfl
    | raise e =>
      obtain ⟨rfl, -⟩ := runs_raise_iff.1 h
      rfl
    | op o k ih =>
      obtain ⟨r, σ', rfl, hk⟩ := runs_op_iff.1 h
      show marks σ' = []
      exact ih r hk
  · rintro ⟨h, hmarks⟩
    induction p generalizing σ with
    | ret a =>
      obtain ⟨hcalls, rfl⟩ := runs_ret_iff.1 h
      cases σ with
      | nil => exact .ret a
      | cons c σ =>
        obtain ⟨o | m, r⟩ := c
        · cases hcalls
        · cases hmarks
    | raise e =>
      obtain ⟨hcalls, rfl⟩ := runs_raise_iff.1 h
      cases σ with
      | nil => exact .raise e
      | cons c σ =>
        obtain ⟨o | m, r⟩ := c
        · cases hcalls
        · cases hmarks
    | op o k ih =>
      obtain ⟨r, τ, hcalls, hk⟩ := runs_op_iff.1 h
      cases σ with
      | nil => cases hcalls
      | cons c σ =>
        obtain ⟨o' | m, r'⟩ := c
        · obtain ⟨hcall, rfl⟩ := List.cons.inj hcalls
          obtain ⟨rfl, hr⟩ := Call.mk.inj hcall
          obtain rfl := eq_of_heq hr
          exact .op (ih _ hk hmarks)
        · cases hmarks

theorem runs_leave_bind_iff {m : M} {f : Unit → Prog (Marked Op M) (Marked.Reply M Reply) ε β} {x : Except ε β} :
    Runs ((leave m).bind f) σ x ↔ ∃ σ', σ = ⟨.mark m, ()⟩ :: σ' ∧ Runs (f ()) σ' x := by
  unfold leave
  rw [op_bind, runs_op_iff]
  exact ⟨fun ⟨_, σ', hσ, h⟩ => ⟨σ', hσ, h⟩, fun ⟨σ', hσ, h⟩ => ⟨(), σ', hσ, h⟩⟩

/-! ## Programs with few marks -/

/-- A mark is one of these. -/
def Leaves (A : M → Prop) : Marked Op M → Prop
  | .call _ => True
  | .mark m => A m

theorem only_bare (A : M → Prop) (p : Prog Op Reply ε α) :
    (p.bare : Prog (Marked Op M) (Marked.Reply M Reply) ε α).Only (Leaves A) := by
  induction p with
  | ret a => trivial
  | raise e => trivial
  | op o k ih => exact ⟨trivial, ih⟩

theorem only_leave {A : M → Prop} {m : M} (h : A m) :
    (leave m : Prog (Marked Op M) (Marked.Reply M Reply) ε Unit).Only (Leaves A) := ⟨h, fun _ => trivial⟩

theorem Runs.marks_of_only {A : M → Prop} (h : Runs p σ x) (hp : p.Only (Leaves A)) : ∀ m ∈ marks σ, A m := by
  induction h with
  | ret a => simp [marks]
  | raise e => simp [marks]
  | @op o k r σ x h ih =>
    cases o with
    | call o => exact ih (hp.2 r)
    | mark m =>
      intro m' hm
      rcases List.mem_cons.1 hm with rfl | hm
      · exact hp.1
      · exact ih (hp.2 r) m' hm

/-! ## Marks for calls -/

/-- The marks to keep are those of the calls, in their order, behind the marks that are still owed for
the calls before. -/
def Tallies (keep : M → Bool) (f : Call Reply → Option M) (owed : List M)
    (p : Prog (Marked Op M) (Marked.Reply M Reply) ε α) : Prop :=
  ∀ σ x, Runs p σ x → (marks σ).filter keep = owed ++ (calls σ).filterMap f

section Tallies

variable {keep : M → Bool} {f : Call Reply → Option M} {owed : List M}

theorem tallies_ret (a : α) : (ret a : Prog (Marked Op M) (Marked.Reply M Reply) ε α).Tallies keep f [] := by
  intro σ x h
  obtain ⟨rfl, rfl⟩ := runs_ret_iff.1 h
  rfl

theorem tallies_raise (e : ε) : (raise e : Prog (Marked Op M) (Marked.Reply M Reply) ε α).Tallies keep f [] := by
  intro σ x h
  obtain ⟨rfl, rfl⟩ := runs_raise_iff.1 h
  rfl

theorem tallies_ofExcept (x : Except ε α) :
    (ofExcept x : Prog (Marked Op M) (Marked.Reply M Reply) ε α).Tallies keep f [] := by
  cases x with
  | ok a => exact tallies_ret a
  | error e => exact tallies_raise e

/-- What a part owes it has to leave itself. -/
theorem Tallies.bind {k : α → Prog (Marked Op M) (Marked.Reply M Reply) ε β} (hp : p.Tallies keep f owed)
    (hk : ∀ a, (k a).Tallies keep f []) : (p.bind k).Tallies keep f owed := by
  intro σ x h
  rcases runs_bind_iff.1 h with ⟨e, hruns, rfl⟩ | ⟨a, σ₁, σ₂, rfl, hruns, hrest⟩
  · exact hp _ _ hruns
  · rw [marks_append, calls_append, List.filter_append, List.filterMap_append, hp _ _ hruns, hk a _ _ hrest,
      List.nil_append, List.append_assoc]

theorem Tallies.attempt (hp : p.Tallies keep f owed) : p.attempt.Tallies keep f owed := by
  intro σ x h
  obtain ⟨y, rfl, hruns⟩ := runs_attempt_iff.1 h
  exact hp _ _ hruns

/-- A call owes its mark to what is behind it. -/
theorem tallies_perform_bind {o : Op} {k : Reply o → Prog (Marked Op M) (Marked.Reply M Reply) ε β}
    (hk : ∀ r, (k r).Tallies keep f (owed ++ (f ⟨o, r⟩).toList)) :
    ((bare (perform o)).bind k).Tallies keep f owed := by
  intro σ x h
  obtain ⟨r, σ', rfl, hrest⟩ := runs_op_iff.1 h
  have hmarks := hk r _ _ hrest
  show (marks σ').filter keep = owed ++ (⟨o, r⟩ :: calls σ').filterMap f
  rw [hmarks]
  cases hf : f ⟨o, r⟩ with
  | none => simp [hf]
  | some m => simp [hf]

/-- A mark that was owed. -/
theorem tallies_leave_owed {m : M} (hm : keep m = true) (hp : p.Tallies keep f owed) :
    ((leave m).bind fun _ => p).Tallies keep f (m :: owed) := by
  intro σ x h
  obtain ⟨σ', rfl, hrest⟩ := runs_leave_bind_iff.1 h
  show (m :: marks σ').filter keep = m :: owed ++ (calls σ').filterMap f
  rw [List.filter_cons_of_pos hm, hp _ _ hrest, List.cons_append]

/-- A mark that does not count. -/
theorem tallies_leave_other {m : M} (hm : keep m = false) (hp : p.Tallies keep f owed) :
    ((leave m).bind fun _ => p).Tallies keep f owed := by
  intro σ x h
  obtain ⟨σ', rfl, hrest⟩ := runs_leave_bind_iff.1 h
  show (m :: marks σ').filter keep = owed ++ (calls σ').filterMap f
  rw [List.filter_cons_of_neg (by simp [hm]), hp _ _ hrest]

/-- A mark in front of its call. -/
theorem tallies_leave_ahead {m : M} {o : Op} {k : Reply o → Prog (Marked Op M) (Marked.Reply M Reply) ε α}
    (hm : keep m = true) (hf : ∀ r, f ⟨o, r⟩ = some m) (hk : ∀ r, (k r).Tallies keep f []) :
    ((leave m).bind fun _ => (bare (perform o)).bind k).Tallies keep f [] := by
  intro σ x h
  obtain ⟨σ', rfl, hcall⟩ := runs_leave_bind_iff.1 h
  obtain ⟨r, σ', rfl, hrest⟩ := runs_op_iff.1 hcall
  show (m :: marks σ').filter keep = [] ++ (⟨o, r⟩ :: calls σ').filterMap f
  rw [List.filter_cons_of_pos hm, hk r _ _ hrest, List.filterMap_cons_some (hf r)]
  rfl

/-- Code without marks makes no calls that have any. -/
theorem tallies_bare {p : Prog Op Reply ε α} (h : p.Only fun o => ∀ r, f ⟨o, r⟩ = none) :
    (p.bare : Prog (Marked Op M) (Marked.Reply M Reply) ε α).Tallies keep f [] := by
  intro σ x hruns
  obtain ⟨hcalls, hmarks⟩ := runs_bare_iff.1 hruns
  rw [hmarks]
  refine (List.filterMap_eq_nil_iff.2 fun c hc => ?_).symm
  exact hcalls.only h c hc c.reply

end Tallies

end Prog
