/-
The whole service: API processes answering requests and any number of workers, each with its three
loops and the handlers of their current batches, over one shared world. One action lets one of
them make its next call, or lets the environment act: time passes, a cached rate expires, the
database drops a session, a worker starts, is asked to stop, or crashes at whatever point it is.
-/
import EventService.Program.Rely
import EventService.Model.Consumer
import EventService.Model.Api

namespace App

open Prog Store

/-! ## Processes -/

/-- The handler of one message; it makes its first call once the semaphore lets it. -/
structure Handler (P : Type) where
  message : QueuedMessage P
  started : Bool
  code : Code P (Option Nat)

inductive Loop
  | consume
  | reclaim
  | metrics
  deriving DecidableEq, Repr

/-- Where a loop is: in a round, waiting for the handlers of a batch, acknowledging the batch, or
returned. A loop whose code raised goes no further. -/
inductive Lane (P : Type)
  | running (code : Code P (Next P))
  | handling (handlers : List (Handler P))
  | acking (code : Code P Unit)
  | stopped

/-- A worker process: not running, making sure the group exists, or in its loops. -/
inductive Worker (P : Type)
  | down
  | booting (code : Code P Unit)
  | up (lanes : Loop → Lane P)

/-- `requests` are the requests so far with what is left of their endpoints' code; `outcomes` are
the entries for which a handler's `process` returned an outcome. -/
structure System (P : Type) where
  world : World P
  workers : Nat → Worker P
  requests : List (Request × Code P Response)
  outcomes : List Nat

def System.initial (P : Type) : System P where
  world := World.initial P
  workers := fun _ => .down
  requests := []
  outcomes := []

inductive Action
  | tick (ms : Nat)
  | expire (key : PyStr)
  | drop (session : Nat)
  | request (r : Request)
  | serve (i : Nat) (c : Choice)
  | start (worker : Nat)
  | boot (worker : Nat) (c : Choice)
  | enter (worker : Nat)
  | requestStop (worker : Nat)
  | exit (worker : Nat)
  | crash (worker : Nat)
  | call (worker : Nat) (loop : Loop) (c : Choice)
  | handle (worker : Nat) (loop : Loop) (i : Nat) (c : Choice)
  | move (worker : Nat) (loop : Loop)

variable {P : Type} (S : Service P)

/-! ## Loops -/

/-- One round of a loop. -/
def round (worker : Nat) : Loop → Code P (Next P)
  | .consume => consumeRound S worker
  | .reclaim => reclaimRound S worker
  | .metrics => metricsRound S worker

namespace Handler

/-- The handler has begun and not returned. -/
def busy (h : Handler P) : Bool :=
  h.started && match h.code with
    | .op _ _ => true
    | .ret _ | .raise _ => false

/-- What the handler returned. -/
def result (h : Handler P) : Option (Option Nat) :=
  match h.code with
  | .ret r => some r
  | .op _ _ | .raise _ => none

/-- The next call of a handler. -/
def step (h : Handler P) (c : Choice) (w : World P) : Option (Handler P × World P) :=
  (Protocol.advance (World.exec S) h.code c w).map fun r => (⟨h.message, true, r.1⟩, r.2)

end Handler

/-- Results that were gathered are those of the handlers, one by one. -/
theorem forall₂_of_mapM {α β : Type} {f : α → Option β} {as : List α} {bs : List β} (h : as.mapM f = some bs) :
    List.Forall₂ (fun a b => f a = some b) as bs := by
  induction as generalizing bs with
  | nil =>
    rw [List.mapM_nil] at h
    rw [← Option.some.inj h]
    exact .nil
  | cons a as ih =>
    rw [List.mapM_cons] at h
    obtain ⟨b, hb, h⟩ := Option.bind_eq_some_iff.1 h
    obtain ⟨bs', hbs, h⟩ := Option.bind_eq_some_iff.1 h
    rw [← Option.some.inj h]
    exact .cons hb (ih hbs)

theorem exists_of_mapM {α β : Type} {f : α → Option β} {as : List α} {bs : List β} (h : as.mapM f = some bs)
    {b : β} (hb : b ∈ bs) : ∃ a ∈ as, f a = some b := by
  have hall := forall₂_of_mapM h
  obtain ⟨i, hi, rfl⟩ := List.mem_iff_getElem.1 hb
  have hi' : i < as.length := hall.length_eq ▸ hi
  exact ⟨as[i], List.getElem_mem hi', List.Forall₂.get hall hi' hi⟩

namespace Lane

def handlers : Lane P → List (Handler P)
  | handling hs => hs
  | running _ | acking _ | stopped => []

/-- The next call of a round, or of the acknowledgement that ends a batch. -/
def call (c : Choice) (w : World P) : Lane P → Option (Lane P × World P)
  | running code => (Protocol.advance (World.exec S) code c w).map fun r => (running r.1, r.2)
  | acking code => (Protocol.advance (World.exec S) code c w).map fun r => (acking r.1, r.2)
  | handling _ | stopped => none

/-- Go on where the code of a round, of every handler, or of the acknowledgement has returned. -/
def move (worker : Nat) (loop : Loop) : Lane P → Option (Lane P)
  | running (.ret .stop) => some stopped
  | running (.ret .again) => some (running (round S worker loop))
  | running (.ret (.handle messages)) =>
    some (handling (messages.map fun m => ⟨m, false, handleOne S m⟩))
  -- `gather` returns when every handler has
  | handling hs => (hs.mapM Handler.result).map fun results => acking (ackDone results)
  | acking (.ret ()) => some (running (round S worker loop))
  | running (.op _ _) | running (.raise _) | acking (.op _ _) | acking (.raise _) | stopped => none

end Lane

/-! ## Steps -/

namespace Worker

/-- How many handlers of the process hold the semaphore. -/
def busy (lanes : Loop → Lane P) : Nat :=
  (((lanes .consume).handlers ++ (lanes .reclaim).handlers).filter Handler.busy).length

def setLane (lanes : Loop → Lane P) (loop : Loop) (lane : Lane P) : Loop → Lane P :=
  fun l => if l = loop then lane else lanes l

end Worker

namespace System

/-- What clients were answered so far. -/
def answers (s : System P) : List Response :=
  s.requests.filterMap fun r =>
    match r.2 with
    | .ret response => some response
    | .raise _ | .op _ _ => none

/-- The handlers of the batch a loop of a worker is waiting for. -/
def handlers (s : System P) (worker : Nat) (loop : Loop) : List (Handler P) :=
  match s.workers worker with
  | .up lanes => (lanes loop).handlers
  | .booting _ | .down => []

def setWorker (s : System P) (worker : Nat) (x : Worker P) : Nat → Worker P :=
  fun j => if j = worker then x else s.workers j

/-- The next call of handler `i`; a handler that has not begun needs a free place in the semaphore. -/
def handle (s : System P) (worker : Nat) (lanes : Loop → Lane P) (loop : Loop) (i : Nat) (c : Choice) :
    Option (System P) :=
  match (lanes loop).handlers[i]? with
  | none => none
  | some h =>
    -- `async with self._semaphore`
    if h.started ∨ Worker.busy lanes < S.settings.concurrency then
      (h.step S c s.world).map fun r =>
        { s with
          world := r.2
          workers := s.setWorker worker (.up (Worker.setLane lanes loop
            (.handling ((lanes loop).handlers.set i r.1))))
          outcomes := s.outcomes ++ (r.1.result.getD none).toList }
    else none

/-- One action of the environment or of a process; `none` where it cannot happen. -/
def step (s : System P) : Action → Option (System P)
  | .tick ms => some { s with world := { s.world with now := s.world.now + ms } }
  | .expire key =>
    some { s with world := { s.world with cache := s.world.cache.filter fun kv => kv.1 ≠ key } }
  | .drop session => some { s with world := { s.world with table := s.world.table.closeSession session } }
  | .request r => some { s with requests := s.requests ++ [(r, serve S r)] }
  | .serve i c =>
    match s.requests[i]? with
    | none => none
    | some (r, code) => (Protocol.advance (World.exec S) code c s.world).map fun x =>
        { s with world := x.2, requests := s.requests.set i (r, x.1) }
  | .start worker =>
    match s.workers worker with
    | .down => some { s with
        world := { s.world with stops := s.world.stops.filter (· ≠ worker) }
        workers := s.setWorker worker (.booting ensureGroup) }
    | .booting _ | .up _ => none
  | .boot worker c =>
    match s.workers worker with
    | .booting code => (Protocol.advance (World.exec S) code c s.world).map fun x =>
        { s with world := x.2, workers := s.setWorker worker (.booting x.1) }
    | .down | .up _ => none
  | .enter worker =>
    match s.workers worker with
    | .booting (.ret ()) =>
      some { s with workers := s.setWorker worker (.up fun loop => .running (round S worker loop)) }
    | .booting _ | .down | .up _ => none
  | .requestStop worker => some { s with world := { s.world with stops := worker :: s.world.stops } }
  | .exit worker =>
    match s.workers worker with
    | .up lanes =>
      match lanes .consume, lanes .reclaim, lanes .metrics with
      | .stopped, .stopped, .stopped => some { s with workers := s.setWorker worker .down }
      | _, _, _ => none
    | .booting _ | .down => none
  -- whatever the worker was about to do is lost; what it did stays
  | .crash worker => some { s with workers := s.setWorker worker .down }
  | .call worker loop c =>
    match s.workers worker with
    | .up lanes => ((lanes loop).call S c s.world).map fun x =>
        { s with world := x.2, workers := s.setWorker worker (.up (Worker.setLane lanes loop x.1)) }
    | .booting _ | .down => none
  | .handle worker loop i c =>
    match s.workers worker with
    | .up lanes => s.handle S worker lanes loop i c
    | .booting _ | .down => none
  | .move worker loop =>
    match s.workers worker with
    | .up lanes => ((lanes loop).move S worker loop).map fun lane =>
        { s with workers := s.setWorker worker (.up (Worker.setLane lanes loop lane)) }
    | .booting _ | .down => none

/-- A run from one state to another. -/
inductive Run : System P → System P → Prop
  | refl (s : System P) : Run s s
  | step {s t u : System P} (a : Action) (h : Run s t) (ht : t.step S a = some u) : Run s u

/-- The states of all runs. -/
def Reachable (s : System P) : Prop := Run S (initial P) s

/-- Take the actions one after the other. -/
def runActions (s : System P) : List Action → Option (System P)
  | [] => some s
  | a :: as => (s.step S a).bind fun t => t.runActions as

theorem Run.trans {s t u : System P} (h : Run S s t) (h' : Run S t u) : Run S s u := by
  induction h' with
  | refl => exact h
  | step a _ ht ih => exact .step a ih ht

theorem run_of_runActions {s u : System P} :
    ∀ {as : List Action}, s.runActions S as = some u → Run S s u := by
  intro as
  induction as generalizing s with
  | nil =>
    intro h
    rw [← Option.some.inj h]
    exact .refl s
  | cons a as ih =>
    intro h
    obtain ⟨t, ht, hu⟩ := Option.bind_eq_some_iff.1 h
    exact Run.trans S (.step a (.refl s) ht) (ih hu)

/-- A list of actions that ends in a state with `p`. -/
theorem exists_reachable (as : List Action) (p : System P → Bool)
    (h : ((initial P).runActions S as).any p = true) : ∃ s, Reachable S s ∧ p s = true := by
  cases hs : (initial P).runActions S as with
  | none => rw [hs] at h; exact absurd h (by simp)
  | some s =>
    rw [hs] at h
    exact ⟨s, run_of_runActions S hs, h⟩

end System

/-! ## Traces -/

/-- A deployment on PostgreSQL whose payloads are the documents themselves. -/
def documentService (settings : Settings) : Service EventIn :=
  ⟨settings, .documents, .postgresql, true⟩

namespace Trace

/-- The user of every trace. -/
def user : PyStr := "u1".toList

theorem user_length : 1 ≤ user.length ∧ user.length ≤ 128 := by decide

/-- So many microseconds after the first instant, on a clock that names no zone. -/
def clock (time : Nat) (h : (time : Int) < Datetime.span) : Datetime :=
  ⟨time, none, ⟨Int.natCast_nonneg time, h⟩, by simp⟩

theorem zero_lt_span : ((0 : Nat) : Int) < Datetime.span := by decide

/-- A document a client may send. -/
def document (id : String) (amount : Decimal) (currency : String) : EventIn where
  id := id.toList
  userId := user
  amount := amount
  currency := currency.toList
  timestamp := clock 0 zero_lt_span

/-- Request number `i` publishes the document. -/
def publish (i : Nat) (body : EventIn) : List Action := [.request (.event body), .serve i {}]

/-- A worker starts and enters its loops. -/
def boot (worker : Nat) : List Action := [.start worker, .boot worker {}, .enter worker]

/-- The next `n` calls of a loop, none of which fails. -/
def calls (worker : Nat) (loop : Loop) (n : Nat) : List Action := List.replicate n (.call worker loop {})

/-- The next `n` calls of a handler, none of which fails. -/
def handles (worker : Nat) (loop : Loop) (i n : Nat) : List Action :=
  List.replicate n (.handle worker loop i {})

/-- The rate source answers. -/
def answered (reply : Except Exn Decimal) : Choice := { rate := reply }

/-- A Redis command is applied, but its reply is lost. -/
def lost : Choice := { fault := .after ⟨.redisError, "Connection reset by peer"⟩ }

/-- A Redis command is not applied. -/
def refused : Choice := { fault := .before ⟨.redisError, "Connection refused"⟩ }

/-- The database does what it was asked to do, but the connection breaks before it answers. -/
def disconnected : Choice :=
  { fault := .after ⟨.operationalError, "server closed the connection unexpectedly"⟩ }

end Trace

end App
