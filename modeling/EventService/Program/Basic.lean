/-
Programs over a signature of operations. A program returns a value, raises an exception, or
performs one operation of the signature and continues with its reply. Nothing here says what an
operation does: a program is the code between two points where other programs may run, and its
meaning is given by whoever answers its operations (`Prog.eval` for one caller who answers every
operation alike, `Program.Rely` for worlds shared with other programs).
-/
import Mathlib.Data.List.Basic

/-- A computation over the operations `Op` with replies `Reply`, raising exceptions of type `ε`. -/
inductive Prog (Op : Type) (Reply : Op → Type) (ε : Type) (α : Type) : Type
  | ret (a : α)
  | raise (e : ε)
  | op (o : Op) (k : Reply o → Prog Op Reply ε α)

namespace Prog

variable {Op : Type} {Reply : Op → Type} {ε α β γ : Type}

/-! ## Sequencing and exceptions -/

/-- Run `p`, then `f` on its result; an exception of `p` ends the computation. -/
def bind : Prog Op Reply ε α → (α → Prog Op Reply ε β) → Prog Op Reply ε β
  | .ret a, f => f a
  | .raise e, _ => .raise e
  | .op o k, f => .op o fun r => (k r).bind f

instance : Monad (Prog Op Reply ε) where
  pure := .ret
  bind := bind

/-- Run `p` and return how it ended: the value it returned or the exception it raised. -/
def attempt : Prog Op Reply ε α → Prog Op Reply ε (Except ε α)
  | .ret a => .ret (.ok a)
  | .raise e => .ret (.error e)
  | .op o k => .op o fun r => (k r).attempt

/-- One operation, returning its reply. -/
def perform (o : Op) : Prog Op Reply ε (Reply o) := .op o .ret

/-- End as `x` says: return its value or raise its exception. -/
def ofExcept : Except ε α → Prog Op Reply ε α
  | .ok a => .ret a
  | .error e => .raise e

/-- Run `f` on every element in order and collect the results. -/
def collect (f : β → Prog Op Reply ε α) : List β → Prog Op Reply ε (List α)
  | [] => .ret []
  | b :: bs => (f b).bind fun a => (collect f bs).bind fun as => .ret (a :: as)

@[simp] theorem pure_eq (a : α) : (pure a : Prog Op Reply ε α) = .ret a := rfl

@[simp] theorem bind_eq (p : Prog Op Reply ε α) (f : α → Prog Op Reply ε β) : p >>= f = p.bind f := rfl

@[simp] theorem ret_bind (a : α) (f : α → Prog Op Reply ε β) : (ret a).bind f = f a := rfl

@[simp] theorem raise_bind (e : ε) (f : α → Prog Op Reply ε β) : (raise e).bind f = .raise e := rfl

@[simp] theorem op_bind (o : Op) (k : Reply o → Prog Op Reply ε α) (f : α → Prog Op Reply ε β) :
    (op o k).bind f = .op o fun r => (k r).bind f := rfl

@[simp] theorem perform_bind (o : Op) (f : Reply o → Prog Op Reply ε β) :
    (perform o).bind f = .op o f := rfl

@[simp] theorem attempt_ret (a : α) : (ret a : Prog Op Reply ε α).attempt = .ret (.ok a) := rfl

@[simp] theorem attempt_raise (e : ε) : (raise e : Prog Op Reply ε α).attempt = .ret (.error e) := rfl

@[simp] theorem attempt_op (o : Op) (k : Reply o → Prog Op Reply ε α) :
    (op o k).attempt = .op o fun r => (k r).attempt := rfl

@[simp] theorem ofExcept_ok (a : α) : (ofExcept (.ok a) : Prog Op Reply ε α) = .ret a := rfl

@[simp] theorem ofExcept_error (e : ε) : (ofExcept (.error e) : Prog Op Reply ε α) = .raise e := rfl

theorem bind_assoc (p : Prog Op Reply ε α) (f : α → Prog Op Reply ε β) (g : β → Prog Op Reply ε γ) :
    (p.bind f).bind g = p.bind fun a => (f a).bind g := by
  induction p with
  | ret a => rfl
  | raise e => rfl
  | op o k ih =>
    -- both sides perform `o` first; what follows its reply is the induction hypothesis
    show Prog.op o (fun r => ((k r).bind f).bind g) = .op o fun r => (k r).bind fun a => (f a).bind g
    rw [funext fun r => ih r]

/-- A function of the value a program returns does not change how it ends. -/
theorem attempt_map (p : Prog Op Reply ε α) (f : α → β) :
    (p.bind fun a => .ret (f a)).attempt = p.attempt.bind fun x => .ret (x.map f) := by
  induction p with
  | ret a => rfl
  | raise e => rfl
  | op o k ih =>
    show Prog.op o (fun r => ((k r).bind fun a => .ret (f a)).attempt) = .op o fun r => _
    rw [funext fun r => ih r]

/-! ## One caller answering every operation -/

/-- The outcome of `p` when every operation is answered by `answer`. -/
def eval (answer : (o : Op) → Reply o) : Prog Op Reply ε α → Except ε α
  | .ret a => .ok a
  | .raise e => .error e
  | .op o k => (k (answer o)).eval answer

variable (answer : (o : Op) → Reply o)

@[simp] theorem eval_ret (a : α) : (ret a : Prog Op Reply ε α).eval answer = .ok a := rfl

@[simp] theorem eval_raise (e : ε) : (raise e : Prog Op Reply ε α).eval answer = .error e := rfl

@[simp] theorem eval_op (o : Op) (k : Reply o → Prog Op Reply ε α) :
    (op o k).eval answer = (k (answer o)).eval answer := rfl

@[simp] theorem eval_perform (o : Op) :
    (perform o : Prog Op Reply ε (Reply o)).eval answer = .ok (answer o) := rfl

theorem eval_bind (p : Prog Op Reply ε α) (f : α → Prog Op Reply ε β) :
    (p.bind f).eval answer =
      match p.eval answer with
      | .ok a => (f a).eval answer
      | .error e => .error e := by
  induction p with
  | ret a => rfl
  | raise e => rfl
  | op o k ih => exact ih (answer o)

theorem eval_attempt (p : Prog Op Reply ε α) :
    p.attempt.eval answer = .ok (p.eval answer) := by
  induction p with
  | ret a => rfl
  | raise e => rfl
  | op o k ih => exact ih (answer o)

@[simp] theorem eval_ofExcept (x : Except ε α) :
    (ofExcept x : Prog Op Reply ε α).eval answer = x := by
  cases x <;> rfl

end Prog
