/-
One batch by itself: `_handle_batch` in a world that others change as they like. The handlers make their
calls in any order, and when all have returned the results are acknowledged together. A journal keeps
which of them made which call, and what the world was before and after it.
-/
import EventService.Program.Steps
import EventService.Program.Trace
import EventService.Model.System

namespace App

open Prog

variable {P : Type} (S : Service P)

/-- A call of a batch: the place of the handler that made it, `none` for the acknowledgement at the end. -/
structure JournalEntry (P : Type) where
  caller : Option Nat
  call : Call (@Op.Reply P)
  before : World P
  after : World P

/-- The batch a loop is busy with. -/
structure Batch (P : Type) where
  world : World P
  lane : Lane P
  journal : List (JournalEntry P)

/-- A handler goes on; `gather` returns; the acknowledgement goes on; the others do something. -/
inductive BatchAction (P : Type)
  | handle (i : Nat) (c : Choice)
  | gather
  | acknowledge (c : Choice)
  | others (w : World P)

/-- One operation, put down in the journal. -/
def journaled (caller : Option Nat) (o : Op P) (c : Choice) (j : World P × List (JournalEntry P)) :
    Option (o.Reply × World P × List (JournalEntry P)) :=
  (World.exec S o c j.1).map fun r => (r.1, r.2, j.2 ++ [⟨caller, ⟨o, r.1⟩, j.1, r.2⟩])

/-- The calls one handler made, or the acknowledgement. -/
def callsOf (caller : Option Nat) (journal : List (JournalEntry P)) : List (Call (@Op.Reply P)) :=
  (journal.filter fun l => l.caller = caller).map JournalEntry.call

namespace Batch

def start (messages : List (QueuedMessage P)) (w : World P) : Batch P where
  world := w
  lane := .handling (messages.map fun m => ⟨m, false, handleOne S m⟩)
  journal := []

def step (b : Batch P) : BatchAction P → Option (Batch P)
  | .handle i c =>
    match b.lane.handlers[i]? with
    | none => none
    | some h => (Protocol.advance (journaled S (some i)) h.code c (b.world, b.journal)).map fun r =>
        ⟨r.2.1, .handling (b.lane.handlers.set i ⟨h.message, true, r.1⟩), r.2.2⟩
  | .gather =>
    match b.lane with
    | .handling hs => (hs.mapM Handler.result).map fun results => { b with lane := .acking (ackDone results) }
    | .running _ | .acking _ | .stopped => none
  | .acknowledge c =>
    match b.lane with
    | .acking code => (Protocol.advance (journaled S none) code c (b.world, b.journal)).map fun r =>
        ⟨r.2.1, .acking r.1, r.2.2⟩
    | .running _ | .handling _ | .stopped => none
  | .others w => some { b with world := w }

/-- `_handle_batch` has returned. -/
def finished (b : Batch P) : Bool :=
  match b.lane with
  | .acking (.ret ()) => true
  | .acking (.op _ _) | .acking (.raise _) | .running _ | .handling _ | .stopped => false

/-- A run from one state to another. -/
abbrev Run : Batch P → Batch P → Prop := Steps.Run (step S)

end Batch

end App
