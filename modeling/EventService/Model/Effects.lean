/-
What the service asks of the world: Redis (the stream with its consumer group, the dead-letter
stream, the rate cache), the rate source, the database, the clock and the stop flag of a worker.
Every call to Redis and to the database may fail before or after it took effect; `World.exec` says
what each operation answers and does for every way the environment may decide.
-/
import EventService.Program.Basic
import EventService.Decimal.Text
import EventService.Store.Stream
import EventService.Store.Table
import EventService.Model.Transactions

namespace App

open Store

/-! ## Configuration -/

/-- The settings the modelled code reads (`app/config.py`). -/
structure Settings where
  streamMaxLen : Nat := 1000000
  batchSize : Nat := 100
  blockMs : Nat := 2000
  idlePollInterval : ℚ := 1 / 20
  concurrency : Nat := 32
  maxAttempts : Nat := 3
  retryBaseDelay : ℚ := 1 / 5
  retryMaxDelay : ℚ := 5
  reclaimIdleMs : Nat := 30000
  reclaimInterval : ℚ := 5
  maxDeliveries : Nat := 5
  apiPageSize : Nat := 50
  apiMaxPageSize : Nat := 500
  metricsRefreshInterval : ℚ := 5

/-- The SQL dialects the insert distinguishes. -/
inductive Dialect
  | postgresql
  | sqlite
  | other
  deriving DecidableEq, Repr

/-- One deployment of the service: its settings, the JSON layer, the database's dialect, and
whether the rate provider was given a Redis client. -/
structure Service (P : Type) where
  settings : Settings
  json : JsonLayer P
  dialect : Dialect
  rateCache : Bool

/-! ## Operations -/

/-- A record of the dead-letter stream. -/
structure DlqRecord (P : Type) where
  payload : P
  reason : String
  originalId : Nat
  deliveryCount : Nat

/-- `INSERT`, with or without `ON CONFLICT (id) DO NOTHING`. -/
structure InsertStatement where
  values : Values
  onConflictDoNothing : Bool

/-- The calls the code makes. `xautoclaim` also answers the number of each delivery and `xpending`
is told the entries it is asked about with theirs; the code sees neither. `record` is not a call
either: it notes for the history that `get_rate` returned a rate. -/
inductive Op (P : Type)
  | xadd (payload : P)
  | xgroupCreate
  | xreadgroup (consumer count : Nat)
  | xautoclaim (consumer minIdle count : Nat)
  | xpending (consumer count : Nat) (wanted : List (Nat × Nat))
  | xack (ids : List Nat)
  | deadLetter (entry : DlqRecord P)
  | xlen
  | xlenDlq
  | xinfoGroups
  | get (key : PyStr)
  | set (key value : PyStr)
  | fetch (currency : PyStr)
  | openSession
  | execute (session : Nat) (statement : InsertStatement)
  | commit (session : Nat)
  | close (session : Nat)
  | now
  | uniform (hi : ℚ)
  | sleep (seconds : ℚ)
  | stopIsSet (worker : Nat)
  | record (currency : PyStr) (rate : Decimal)

/-- What each call answers. -/
@[reducible] def Op.Reply {P : Type} : Op P → Type
  | .xadd _ => Except Foreign Nat
  | .xgroupCreate => Except Foreign Unit
  | .xreadgroup _ _ => Except Foreign (List (Entry P))
  | .xautoclaim _ _ _ => Except Foreign (List (Entry P × Nat) × List Nat)
  | .xpending _ _ _ => Except Foreign (List (Nat × Nat))
  | .xack _ => Except Foreign Nat
  | .deadLetter _ => Except Foreign Unit
  | .xlen => Except Foreign Nat
  | .xlenDlq => Except Foreign Nat
  | .xinfoGroups => Except Foreign (Option (Nat × Nat))
  | .get _ => Except Foreign (Option PyStr)
  | .set _ _ => Except Foreign Unit
  | .fetch _ => Except Exn Decimal
  | .openSession => Except Foreign Nat
  | .execute _ _ => Except Foreign Nat
  | .commit _ => Except Foreign Unit
  | .close _ => Except Foreign Unit
  | .now => Nat
  | .uniform _ => ℚ
  | .sleep _ => Unit
  | .stopIsSet _ => Bool
  | .record _ _ => Unit

/-- The code of the service between two points where others may run. -/
abbrev Code (P α : Type) : Type := Prog (Op P) Op.Reply Exn α

/-- One call, with its answer. -/
def ask {P : Type} (o : Op P) : Code P o.Reply := Prog.perform o

/-- Return a reply or raise the library's exception. -/
def lift {P α : Type} : Except Foreign α → Code P α
  | .ok a => .ret a
  | .error e => .raise (.foreign e)

/-! ## The world -/

/-- Everything the processes share, and the history of what was answered. A missing `dlq` stands
for a key that holds another type. -/
structure World (P : Type) where
  now : Nat
  stream : Stream P
  dlq : Option (Stream (DlqRecord P))
  cache : List (PyStr × PyStr)
  table : Table Values.id
  stops : List Nat
  /-- what the rate source answered -/
  fetched : List (PyStr × Except Exn Decimal)
  /-- what `get_rate` returned -/
  rates : List (PyStr × Decimal)
  /-- the `XPENDING` lookups: the entries asked for with their delivery numbers, and the answer -/
  lookups : List (List (Nat × Nat) × List (Nat × Nat))
  /-- what `XAUTOCLAIM` took off the pending list because it was trimmed away -/
  vanished : List Nat

def World.initial (P : Type) : World P where
  now := 0
  stream := Stream.empty
  dlq := some Stream.empty
  cache := []
  table := Table.empty
  stops := []
  fetched := []
  rates := []
  lookups := []
  vanished := []

/-- How a call fails, if it does. -/
inductive Fault
  | none
  | before (e : Foreign)
  | after (e : Foreign)

/-- What the environment decides about one operation: whether it fails, how many old entries an
approximate trim drops, what the rate source answers, and the random number. -/
structure Choice where
  fault : Fault := .none
  trim : Nat := 0
  rate : Except Exn Decimal := .error (.ofClass .other "")
  jitter : ℚ := 0

/-- A command that may fail before it is applied, or be applied and its reply be lost. -/
def Choice.command {P α : Type} (c : Choice) (w : World P) (r : Except Foreign α × World P) :
    Except Foreign α × World P :=
  match c.fault with
  | .none => r
  | .before e => (.error e, w)
  | .after e => (.error e, r.2)

/-- A statement that waits goes on waiting unless it fails, and then it has changed nothing. -/
def Choice.waiting {P α : Type} (c : Choice) (w : World P) : Option (Except Foreign α × World P) :=
  match c.fault with
  | .none => none
  | .before e | .after e => some (.error e, w)

/-- No failure of the connection is reported as a violated constraint. -/
def Choice.connection (c : Choice) : Bool :=
  match c.fault with
  | .none => true
  | .before e | .after e => e.cls ≠ .integrityError

theorem connection_fault {c : Choice} {e : Foreign} (hc : c.connection = true)
    (he : c.fault = .before e ∨ c.fault = .after e) : e.cls ≠ .integrityError := by
  unfold Choice.connection at hc
  rcases he with he | he <;> simpa [he] using hc

namespace World

variable {P : Type} (S : Service P)

def noGroup : Foreign := ⟨.responseError, "NOGROUP No such key or consumer group"⟩

def wrongType : Foreign :=
  ⟨.responseError, "WRONGTYPE Operation against a key holding the wrong kind of value"⟩

/-- A group command that changes the stream. -/
def groupCommand {α β : Type} (w : World P) (r : Except Missing (α × Stream P)) (f : α → β) :
    Except Foreign β × World P :=
  match r with
  | .error .noGroup => (.error noGroup, w)
  | .ok (a, s) => (.ok (f a), { w with stream := s })

/-- `MULTI`, `XADD` to the dead-letter stream, `XACK`, `EXEC`: a command that is refused does not
keep the other from being applied. -/
def deadLetterExec (w : World P) (trim : Nat) (entry : DlqRecord P) : Except Foreign Unit × World P :=
  let w' := { w with stream := (w.stream.ack [entry.originalId]).2 }
  match w.dlq with
  | none => (.error wrongType, w')
  | some q => (.ok (), { w' with dlq := some (q.addCapped S.settings.streamMaxLen trim entry).2 })

/-- One insert; `none` while it waits for another session to finish. A statement that fails leaves
no transaction behind. -/
def insertExec (w : World P) (session : Nat) (stmt : InsertStatement) :
    Option (Except Foreign Nat × World P) :=
  if stmt.values.fits then
    match w.table.insert session stmt.values with
    | .closed => some (.error ⟨.dbapiError, "connection is closed"⟩, w)
    | .waits => none
    | .conflict t =>
      if stmt.onConflictDoNothing then some (.ok 0, { w with table := t })
      else some (.error ⟨.integrityError, "duplicate key value violates unique constraint"⟩, w)
    | .inserted t => some (.ok 1, { w with table := t })
  else some (.error ⟨.dataError, "value out of range for its column"⟩, w)

def commitExec (w : World P) (session : Nat) : Except Foreign Unit × World P :=
  if session ∈ w.table.live then (.ok (), { w with table := w.table.commit session })
  else (.error ⟨.dbapiError, "connection is closed"⟩, w)

/-- The rate source answers any decimal or raises any exception. -/
def fetchExec (w : World P) (currency : PyStr) (reply : Except Exn Decimal) :
    Option (Except Exn Decimal × World P) :=
  match reply with
  | .ok (.finite neg c e) =>
    if Decimal.representable c e then
      some (.ok (.finite neg c e), { w with fetched := w.fetched ++ [(currency, .ok (.finite neg c e))] })
    else none
  | r => some (r, { w with fetched := w.fetched ++ [(currency, r)] })

/-- The reply and the next world of an operation under a choice of the environment; `none` where
the operation cannot go ahead or the choice is none the environment has. -/
def exec : (o : Op P) → Choice → World P → Option (o.Reply × World P)
  | .xadd payload, c, w =>
    let r := w.stream.addCapped S.settings.streamMaxLen c.trim payload
    some (c.command w (.ok r.1, { w with stream := r.2 }))
  | .xgroupCreate, c, w =>
    some (c.command w (match w.stream.createGroup with
      | none => (.error ⟨.responseError, "BUSYGROUP Consumer Group name already exists"⟩, w)
      | some s => (.ok (), { w with stream := s })))
  | .xreadgroup consumer count, c, w =>
    some (c.command w (w.groupCommand (w.stream.readNew consumer w.now count) id))
  | .xautoclaim consumer minIdle count, c, w =>
    some (c.command w (match w.stream.autoclaim consumer w.now minIdle count with
      | .error .noGroup => (.error noGroup, w)
      | .ok (r, s) => (.ok r, { w with stream := s, vanished := w.vanished ++ r.2 })))
  | .xpending consumer count wanted, c, w =>
    match c.fault, w.stream.pendingOf consumer count with
    | .none, .ok r => some (.ok r, { w with lookups := w.lookups ++ [(wanted, r)] })
    | .none, .error .noGroup => some (.error noGroup, w)
    | .before e, _ | .after e, _ => some (.error e, w)
  | .xack ids, c, w =>
    let r := w.stream.ack ids
    some (c.command w (.ok r.1, { w with stream := r.2 }))
  | .deadLetter entry, c, w => some (c.command w (w.deadLetterExec S c.trim entry))
  | .xlen, c, w => some (c.command w (.ok w.stream.entries.length, w))
  | .xlenDlq, c, w => some (c.command w (match w.dlq with
      | none => (.error wrongType, w)
      | some q => (.ok q.entries.length, w)))
  | .xinfoGroups, c, w => some (c.command w (.ok (w.stream.group.map fun g =>
      (g.pending.length, (w.stream.unread g).length)), w))
  | .get key, c, w => some (c.command w (.ok (w.cache.lookup key), w))
  | .set key value, c, w => some (c.command w (.ok (), { w with cache := (key, value) :: w.cache }))
  | .fetch currency, c, w => w.fetchExec currency c.rate
  | .openSession, c, w =>
    let r := w.table.openSession
    if c.connection then some (c.command w (.ok r.1, { w with table := r.2 })) else none
  | .execute session stmt, c, w =>
    if c.connection then
      match w.insertExec session stmt with
      | none => c.waiting w
      | some r => some (c.command w r)
    else none
  | .commit session, c, w => if c.connection then some (c.command w (w.commitExec session)) else none
  | .close session, c, w =>
    if c.connection then some (c.command w (.ok (), { w with table := w.table.closeSession session }))
    else none
  | .now, _, w => some (w.now, w)
  | .uniform hi, c, w => if min 0 hi ≤ c.jitter ∧ c.jitter ≤ max 0 hi then some (c.jitter, w) else none
  | .sleep _, _, w => some ((), w)
  | .stopIsSet worker, _, w => some (decide (worker ∈ w.stops), w)
  | .record currency rate, _, w => some ((), { w with rates := w.rates ++ [(currency, rate)] })

/-- An insert is a command like others, unless it waits and fails. -/
theorem exec_execute_cases {session : Nat} {stmt : InsertStatement} {c : Choice} {w w' : World P}
    {r : Except Foreign Nat} (h : World.exec S (.execute session stmt) c w = some (r, w')) :
    c.connection = true ∧ ((∃ x, w.insertExec session stmt = some x ∧ c.command w x = (r, w')) ∨
      (w' = w ∧ ∃ e, r = .error e ∧ (c.fault = .before e ∨ c.fault = .after e))) := by
  simp only [World.exec] at h
  split at h
  swap
  · cases h
  rename_i hc
  refine ⟨hc, ?_⟩
  split at h
  · unfold Choice.waiting at h
    split at h
    · cases h
    · rename_i e he
      obtain ⟨rfl, rfl⟩ := Prod.mk.inj (Option.some.inj h)
      exact Or.inr ⟨rfl, e, rfl, Or.inl he⟩
    · rename_i e he
      obtain ⟨rfl, rfl⟩ := Prod.mk.inj (Option.some.inj h)
      exact Or.inr ⟨rfl, e, rfl, Or.inr he⟩
  · rename_i x hx
    exact Or.inl ⟨x, hx, Option.some.inj h⟩

end World

end App
