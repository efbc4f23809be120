/-
One worker by itself: `EventConsumer.run` once the group exists. Its three loops and the handlers of their
batches go on in any order, what they call answers as it likes, and a stop is requested at any time. The
loops keep what they did: the calls of each pass through the loop, and if it handed over a batch, those of
the handler of each message and of the acknowledgement behind them.
-/
import EventService.Program.Steps
import EventService.Program.Trace
import EventService.Model.System

namespace App

open Prog

variable {P : Type} (S : Service P)

/-- A pass through a loop that is over. -/
structure Pass (P : Type) where
  calls : List (Call (@Op.Reply P))
  handled : List (QueuedMessage P × List (Call (@Op.Reply P)))
  acknowledgement : List (Call (@Op.Reply P))

/-- Where a loop is, with the calls it made in this pass and those of each handler. -/
inductive Stage (P : Type)
  | running (code : Code P (Next P)) (calls : List (Call (@Op.Reply P)))
  | handling (calls : List (Call (@Op.Reply P))) (handlers : List (Handler P × List (Call (@Op.Reply P))))
  | acking (calls : List (Call (@Op.Reply P))) (handled : List (QueuedMessage P × List (Call (@Op.Reply P))))
    (code : Code P Unit) (acknowledgement : List (Call (@Op.Reply P)))
  | stopped

/-- The worker, whether it was asked to stop, and the passes its loops have behind them. -/
structure EventConsumer (P : Type) where
  stop : Bool
  stages : Loop → Stage P
  past : Loop → List (Pass P)

/-- A stop is requested, a loop or a handler makes its next call, or a loop goes on to its next stage. -/
inductive ConsumerAction (P : Type)
  | requestStop
  | call (loop : Loop) (answer : (o : Op P) → o.Reply)
  | handle (loop : Loop) (i : Nat) (answer : (o : Op P) → o.Reply)
  | move (loop : Loop)

/-- The worker knows its own stop flag; anything else is answered from outside. -/
def heard (worker : Nat) (stop : Bool) (answer : (o : Op P) → o.Reply) : (o : Op P) → o.Reply
  | .stopIsSet i => if i = worker then stop else answer (.stopIsSet i)
  | o => answer o

/-- One call, put down behind those before it. -/
def recorded (worker : Nat) (stop : Bool) (o : Op P) (answer : (o : Op P) → o.Reply)
    (calls : List (Call (@Op.Reply P))) : Option (o.Reply × List (Call (@Op.Reply P))) :=
  some (heard worker stop answer o, calls ++ [⟨o, heard worker stop answer o⟩])

namespace Stage

/-- The loop has returned. -/
def hasStopped : Stage P → Bool
  | stopped => true
  | running _ _ | handling _ _ | acking _ _ _ _ => false

/-- The stage without what was called in it. -/
def lane : Stage P → Lane P
  | running code _ => .running code
  | handling _ hs => .handling (hs.map Prod.fst)
  | acking _ _ code _ => .acking code
  | stopped => .stopped

/-- A pass begins. -/
def start (worker : Nat) (loop : Loop) : Stage P := running (round S worker loop) []

/-- The next call of a round, or of the acknowledgement that ends a batch. -/
def call (worker : Nat) (stop : Bool) (answer : (o : Op P) → o.Reply) : Stage P → Option (Stage P)
  | running code calls =>
    (Protocol.advance (recorded worker stop) code answer calls).map fun r => running r.1 r.2
  | acking calls handled code acknowledgement =>
    (Protocol.advance (recorded worker stop) code answer acknowledgement).map fun r =>
      acking calls handled r.1 r.2
  | handling _ _ | stopped => none

/-- Go on where the code of a round, of every handler, or of the acknowledgement has returned; the pass
may be over with that. -/
def move (worker : Nat) (loop : Loop) : Stage P → Option (Stage P × List (Pass P))
  | running (.ret .stop) calls => some (stopped, [⟨calls, [], []⟩])
  | running (.ret .again) calls => some (start S worker loop, [⟨calls, [], []⟩])
  | running (.ret (.handle messages)) calls =>
    some (handling calls (messages.map fun m => (⟨m, false, handleOne S m⟩, [])), [])
  -- `gather` returns when every handler has
  | handling calls hs => ((hs.map Prod.fst).mapM Handler.result).map fun results =>
    (acking calls (hs.map fun h => (h.1.message, h.2)) (ackDone results) [], [])
  | acking calls handled (.ret ()) acknowledgement =>
    some (start S worker loop, [⟨calls, handled, acknowledgement⟩])
  | running (.op _ _) _ | running (.raise _) _ | acking _ _ (.op _ _) _ | acking _ _ (.raise _) _
  | stopped => none

end Stage

namespace EventConsumer

/-- `run`, with its three loops at the beginning. -/
def start (worker : Nat) : EventConsumer P where
  stop := false
  stages := Stage.start S worker
  past := fun _ => []

def setStage (c : EventConsumer P) (loop : Loop) (stage : Stage P) : EventConsumer P :=
  { c with stages := fun l => if l = loop then stage else c.stages l }

/-- How many handlers hold the semaphore. -/
def busy (c : EventConsumer P) : Nat := Worker.busy fun loop => (c.stages loop).lane

/-- The next call of handler `i`; a handler that has not begun needs a free place in the semaphore. -/
def handle (c : EventConsumer P) (worker : Nat) (loop : Loop) (i : Nat) (answer : (o : Op P) → o.Reply) :
    Option (EventConsumer P) :=
  match c.stages loop with
  | .handling calls hs =>
    match hs[i]? with
    | none => none
    | some (h, made) =>
      -- `async with self._semaphore`
      if h.started ∨ c.busy < S.settings.concurrency then
        (Protocol.advance (recorded worker c.stop) h.code answer made).map fun r =>
          c.setStage loop (.handling calls (hs.set i (⟨h.message, true, r.1⟩, r.2)))
      else none
  | .running _ _ | .acking _ _ _ _ | .stopped => none

def step (worker : Nat) (c : EventConsumer P) : ConsumerAction P → Option (EventConsumer P)
  | .requestStop => some { c with stop := true }
  | .call loop answer => ((c.stages loop).call worker c.stop answer).map (c.setStage loop)
  | .handle loop i answer => c.handle S worker loop i answer
  | .move loop => ((c.stages loop).move S worker loop).map fun r =>
      { c.setStage loop r.1 with past := fun l => if l = loop then c.past l ++ r.2 else c.past l }

/-- `gather` has returned, and `run` with it. -/
def returned (c : EventConsumer P) : Bool :=
  (c.stages .consume).hasStopped && (c.stages .reclaim).hasStopped && (c.stages .metrics).hasStopped

/-- A run from one state to another. -/
abbrev Run (worker : Nat) : EventConsumer P → EventConsumer P → Prop := Steps.Run (step S worker)

end EventConsumer

end App
