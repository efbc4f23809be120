/-
The history of the whole service: every call that any of its processes made, with the reply, and the world
before and behind it. The system itself keeps no such list; it is written beside a run as the run goes on.
-/
import EventService.Program.Trace
import EventService.Model.System

namespace App

open Prog

variable {P : Type} (S : Service P)

/-- What makes calls: the endpoint of a request, a worker that makes sure the group exists, one of its
loops, or the handler at a place of the batch a loop is busy with. -/
inductive Process
  | client (i : Nat)
  | booting (worker : Nat)
  | loop (worker : Nat) (loop : Loop)
  | handler (worker : Nat) (loop : Loop) (i : Nat)
  deriving DecidableEq, Repr

/-- The process belongs to the worker. -/
def Process.isOf (worker : Nat) : Process → Bool
  | .booting j | .loop j _ | .handler j _ _ => decide (j = worker)
  | .client _ => false

/-- One call in the history. -/
structure Event (P : Type) where
  caller : Process
  call : Call (@Op.Reply P)
  before : World P
  after : World P

/-- What code calls next. -/
def nextOp {α : Type} : Code P α → Option (Op P)
  | .op o _ => some o
  | .ret _ | .raise _ => none

def Lane.nextOp : Lane P → Option (Op P)
  | running code => App.nextOp code
  | acking code => App.nextOp code
  | handling _ | stopped => none

/-- The calls a process made. -/
def callsBy (p : Process) (log : List (Event P)) : List (Call (@Op.Reply P)) :=
  (log.filter fun ev => ev.caller = p).map Event.call

/-- The action by which a process makes its next call. -/
def Process.action (c : Choice) : Process → Action
  | .client i => .serve i c
  | .booting worker => .boot worker c
  | .loop worker l => .call worker l c
  | .handler worker l i => .handle worker l i c

namespace System

/-- Who makes a call with this action, which call it is, and what the environment decides about it. -/
def caller (s : System P) : Action → Option (Process × Op P × Choice)
  | .serve i c => (s.requests[i]?).bind fun r => (nextOp r.2).map fun o => (.client i, o, c)
  | .boot worker c =>
    match s.workers worker with
    | .booting code => (nextOp code).map fun o => (.booting worker, o, c)
    | .down | .up _ => none
  | .call worker loop c =>
    match s.workers worker with
    | .up lanes => (lanes loop).nextOp.map fun o => (.loop worker loop, o, c)
    | .down | .booting _ => none
  | .handle worker loop i c =>
    match s.workers worker with
    | .up lanes => ((lanes loop).handlers[i]?).bind fun h =>
      (nextOp h.code).map fun o => (.handler worker loop i, o, c)
    | .down | .booting _ => none
  | .tick _ | .expire _ | .drop _ | .request _ | .start _ | .enter _ | .requestStop _ | .exit _ | .crash _
  | .move _ _ => none

/-- What a process calls next. -/
def nextOf (s : System P) (p : Process) : Option (Op P) := (s.caller (p.action {})).map fun x => x.2.1

/-- The call an action makes. -/
def event (s : System P) (a : Action) : Option (Event P) :=
  (s.caller a).bind fun x => (World.exec S x.2.1 x.2.2 s.world).map fun r => ⟨x.1, ⟨x.2.1, r.1⟩, s.world, r.2⟩

/-- A run from the beginning with its history. -/
inductive Chronicle : System P → List (Event P) → Prop
  | start : Chronicle (initial P) []
  | step {s t : System P} {log : List (Event P)} (a : Action) (h : Chronicle s log) (ht : s.step S a = some t) :
    Chronicle t (log ++ (s.event S a).toList)

/-- Every run has a history. -/
theorem exists_chronicle {s : System P} (h : Reachable S s) : ∃ log, Chronicle S s log := by
  unfold Reachable at h
  induction h with
  | refl => exact ⟨[], .start⟩
  | step a _ ht ih =>
    obtain ⟨log, hlog⟩ := ih
    exact ⟨_, .step a hlog ht⟩

theorem Chronicle.reachable {s : System P} {log : List (Event P)} (h : Chronicle S s log) : Reachable S s := by
  induction h with
  | start => exact .refl _
  | step a _ ht ih => exact .step a ih ht

/-- Take the actions one after the other, and put down the calls. -/
def chronicle (s : System P) (log : List (Event P)) : List Action → Option (System P × List (Event P))
  | [] => some (s, log)
  | a :: as => (s.step S a).bind fun t => t.chronicle (log ++ (s.event S a).toList) as

theorem chronicle_spec {s t : System P} {log log' : List (Event P)} {as : List Action} (h : Chronicle S s log)
    (has : s.chronicle S log as = some (t, log')) : Chronicle S t log' := by
  induction as generalizing s log with
  | nil =>
    obtain ⟨rfl, rfl⟩ := Prod.mk.inj (Option.some.inj has)
    exact h
  | cons a as ih =>
    obtain ⟨u, hu, hrest⟩ := Option.bind_eq_some_iff.1 has
    exact ih (.step a h hu) hrest

/-- A list of actions that ends in a state and a history with `p`. -/
theorem exists_chronicle_of (as : List Action) (p : System P → List (Event P) → Bool)
    (h : ((initial P).chronicle S [] as).any (fun x => p x.1 x.2) = true) :
    ∃ s log, Chronicle S s log ∧ p s log = true := by
  obtain ⟨⟨s, log⟩, heq, hp⟩ := (Option.any_eq_true _ _).1 h
  exact ⟨s, log, chronicle_spec S .start heq, hp⟩

end System

end App
