/-
The ingest endpoints (`app/api/events.py`) and the start of an API process (`app/main.py`).
-/
import EventService.Model.Queue

namespace App

open Prog

variable {P : Type} (S : Service P)

/-- What a client sends, or an API process starting. Bodies have the shape of events; any other
body is refused before the endpoint is called. -/
inductive Request
  | startup
  | event (body : EventIn)
  | events (body : List EventIn)

/-- What the client gets back. -/
inductive Response
  | started
  | accepted (id : PyStr) (messageId : Nat)
  | batchAccepted (accepted : Nat) (messageIds : List Nat)
  | failed (status : Nat) (detail : String)
  deriving DecidableEq

def maxBatchSize : Nat := 500

/-- FastAPI's answer to a body that is not valid; it shows the input that is refused. -/
def unprocessable : Response := .failed 422 "validation error"

/-- The handler for exceptions nobody caught. -/
def internalError : Response := .failed 500 "internal server error"

/-- JSON has no way to write a `float` that is not finite, although `json.loads` reads one. -/
def EventIn.renders (body : EventIn) : Bool := body.amount.isFinite || !body.amountIsNumber

/-- The answer to complaints: an input that cannot be rendered raises another exception. -/
def complained (renders : Bool) : Response := if renders then unprocessable else internalError

theorem complained_failed (renders : Bool) : ∃ status detail, complained renders = .failed status detail := by
  cases renders
  · exact ⟨_, _, rfl⟩
  · exact ⟨_, _, rfl⟩

def queueUnavailable : Response := .failed 503 "event queue unavailable, retry later"

/-- Answer the exceptions that leave an endpoint: a `RedisError` is the queue's. -/
def respond {α : Type} (p : Code P α) (f : α → Response) : Code P Response := do
  match ← p.attempt with
  | .ok a => pure (f a)
  | .error (.foreign e) => if e.cls.isRedisError then pure queueUnavailable else pure internalError
  | .error (.event _ _) => pure internalError

/-- `receive_event` -/
def receiveEvent (body : EventIn) : Code P Response :=
  match validate body with
  | .error (.validationError _) => pure (complained body.renders)
  | .error .overflowError => pure internalError
  | .ok event => respond (publish S event) (.accepted event.id)

/-- The events of a batch, or the first reason to refuse it. -/
def validateAll : List EventIn → Except Rejection (List TransactionEvent)
  | [] => .ok []
  | d :: ds =>
    match validate d, validateAll ds with
    | .ok e, .ok es => .ok (e :: es)
    | .error .overflowError, _ | _, .error .overflowError => .error .overflowError
    | .error (.validationError errors), _ => .error (.validationError errors)
    | _, .error (.validationError errors) => .error (.validationError errors)

/-- `receive_events` -/
def receiveEvents (body : List EventIn) : Code P Response :=
  if body = [] then pure unprocessable
  else
    match validateAll body with
    | .error (.validationError _) => pure (complained (body.all EventIn.renders))
    | .error .overflowError => pure internalError
    | .ok events =>
      if maxBatchSize < events.length then
        pure (.failed 413 ("batch may contain at most " ++ toString maxBatchSize ++ " events"))
      else respond (publishMany S events) fun ids => .batchAccepted ids.length ids

/-- `lifespan`: an API process makes sure the group exists; if it cannot, it does not start. -/
def startup : Code P Response := do
  ensureGroup
  pure .started

def serve : Request → Code P Response
  | .startup => startup
  | .event body => receiveEvent S body
  | .events body => receiveEvents S body

end App
