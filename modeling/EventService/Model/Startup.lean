/-
Around the loops: the connection pool and the sessions of `app/db.py`, the entrypoint of a worker (`app/worker.py`)
and the readiness probe of the API (`app/api/system.py`).
-/
import EventService.Model.Effects

namespace App

open Prog

/-! ## The connection pool -/

/-- The settings of the engine; `db_pool_size` may be left unset. -/
structure PoolSettings where
  dbPoolSize : Option Nat := none
  dbMaxOverflow : Nat := 10

/-- `settings.db_pool_size or max(settings.concurrency, 10)`: a size of zero counts as none. -/
def poolSize (settings : Settings) (pool : PoolSettings) : Nat :=
  match pool.dbPoolSize with
  | none | some 0 => max settings.concurrency 10
  | some (n + 1) => n + 1

/-! ## Calls -/

/-- The calls of a worker outside of its loops, and of the probe; `runConsumer` is `EventConsumer.run`. -/
inductive ProcessOp
  | ping
  | openSession
  | selectOne (session : Nat)
  | close (session : Nat)
  | createTables
  | startHttpServer
  | runConsumer
  | closeRedis
  | disposeEngine
  | sleep (seconds : ℚ)

@[reducible] def ProcessOp.Result : ProcessOp → Type
  | .openSession => Nat
  | .ping | .selectOne _ | .close _ | .createTables | .startHttpServer | .runConsumer | .closeRedis | .disposeEngine
  | .sleep _ => Unit

abbrev ProcessOp.Reply (o : ProcessOp) : Type := Except Exn o.Result

abbrev ProcessCode (α : Type) : Type := Prog ProcessOp ProcessOp.Reply Exn α

/-- One call; its exception is raised. -/
def await (o : ProcessOp) : ProcessCode o.Result := (perform o).bind Prog.ofExcept

/-- `asyncio.sleep`, which raises nothing. -/
def pause (seconds : ℚ) : ProcessCode Unit := (perform (.sleep seconds)).bind fun _ => .ret ()

/-- `session_scope`: the session is closed however the body ends. -/
def sessionScope {α : Type} (body : Nat → ProcessCode α) : ProcessCode α := do
  let session ← await .openSession
  let ended ← (body session).attempt
  await (.close session)
  Prog.ofExcept ended

/-- `SELECT 1` in a session of its own. -/
def selectOne : ProcessCode Unit := sessionScope fun session => await (.selectOne session)

/-! ## A worker -/

def startupMaxAttempts : Nat := 30

def startupRetryDelay : ℚ := 2

/-- Redis and the database both answer. -/
def checkDependencies : ProcessCode Unit := do
  await .ping
  selectOne

def notReady : Exn := .ofClass .other "dependencies did not become ready in time"

/-- The attempts of `wait_for_dependencies` of which so many are left; the pause follows the last one too. -/
def waitFrom : Nat → ProcessCode Unit
  | 0 => raise notReady
  | remaining + 1 => do
    match ← checkDependencies.attempt with
    | .ok () => pure ()
    | .error _ => do
      pause startupRetryDelay
      waitFrom remaining

/-- `wait_for_dependencies` -/
def waitForDependencies : ProcessCode Unit := waitFrom startupMaxAttempts

/-- `try: body`, `finally: close_redis(); dispose_engine()`: an exception of the closing takes the place of the
body's, and what comes behind it is left out. -/
def closingConnections (body : ProcessCode Unit) : ProcessCode Unit := do
  let ended ← body.attempt
  await .closeRedis
  await .disposeEngine
  Prog.ofExcept ended

/-- `app.worker.main` -/
def workerMain : ProcessCode Unit := do
  waitForDependencies
  -- `init_db`
  await .createTables
  await .startHttpServer
  closingConnections (await .runConsumer)

/-! ## The readiness probe -/

structure HealthResponse where
  statusCode : Nat
  status : String
  database : String
  redis : String
  deriving DecidableEq, Repr

/-- What a check of a dependency is reported as. -/
def reported (check : Except Exn Unit) : String :=
  match check with
  | .ok () => "ok"
  | .error _ => "unavailable"

/-- `health` -/
def health : ProcessCode HealthResponse := do
  let database ← selectOne.attempt
  let redis ← (await .ping).attempt
  let database := reported database
  let redis := reported redis
  let healthy := database = "ok" ∧ redis = "ok"
  pure {
    statusCode := if healthy then 200 else 503
    status := if healthy then "ok" else "degraded"
    database := database
    redis := redis }

end App
