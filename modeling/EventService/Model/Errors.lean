/-
The exceptions that can be raised while an event is processed: the service's own taxonomy
(`app/exceptions.py`), which decides what is retried and what is dead-lettered, and the classes of
other exceptions the `except` clauses of the service tell apart.
-/

namespace App

/-- The classes of `app/exceptions.py`. -/
inductive EventError
  | eventProcessingError
  | transientError
  | permanentError
  | rateUnavailableError
  | storageUnavailableError
  | unknownCurrencyError
  | invalidEventError
  deriving DecidableEq, Repr

namespace EventError

def isTransient : EventError → Bool
  | transientError | rateUnavailableError | storageUnavailableError => true
  | eventProcessingError | permanentError | unknownCurrencyError | invalidEventError => false

def isPermanent : EventError → Bool
  | permanentError | unknownCurrencyError | invalidEventError => true
  | eventProcessingError | transientError | rateUnavailableError | storageUnavailableError => false

def reason : EventError → String
  | eventProcessingError | transientError | permanentError => "unknown"
  | rateUnavailableError => "rate_unavailable"
  | storageUnavailableError => "database_unavailable"
  | unknownCurrencyError => "unknown_currency"
  | invalidEventError => "invalid_event"

end EventError

/-- The exception classes of the libraries and of the language. `poolTimeout` is
`sqlalchemy.exc.TimeoutError` (no connection became free) and `driverError` what the database
driver raises while it connects; neither is a `DBAPIError` or an `OSError`. -/
inductive ForeignClass
  | redisError
  | responseError
  | dbapiError
  | operationalError
  | integrityError
  | dataError
  | poolTimeout
  | driverError
  | osError
  | valueError
  | typeError
  | validationError
  | invalidOperation
  | decimalOverflow
  | overflowError
  | assertionError
  | other
  deriving DecidableEq, Repr

namespace ForeignClass

def isRedisError : ForeignClass → Bool
  | redisError | responseError => true
  | _ => false

def isDBAPIError : ForeignClass → Bool
  | dbapiError | operationalError | integrityError | dataError => true
  | _ => false

def isOSError : ForeignClass → Bool
  | osError => true
  | _ => false

end ForeignClass

structure Foreign where
  cls : ForeignClass
  message : String
  deriving DecidableEq, Repr

/-- An `Exception` with its text. -/
inductive Exn
  | event (cls : EventError) (message : String)
  | foreign (e : Foreign)
  deriving DecidableEq, Repr

namespace Exn

/-- `str(exc)` -/
def str : Exn → String
  | event _ message => message
  | foreign e => e.message

def isTransient : Exn → Bool
  | event cls _ => cls.isTransient
  | foreign _ => false

def isPermanent : Exn → Bool
  | event cls _ => cls.isPermanent
  | foreign _ => false

def ofClass (cls : ForeignClass) (message : String) : Exn := .foreign ⟨cls, message⟩

end Exn

/-- No exception is both worth retrying and beyond it. -/
theorem EventError.not_isPermanent_of_isTransient {e : EventError} (h : e.isTransient = true) :
    e.isPermanent = false := by
  cases e <;> first | rfl | exact absurd h (by decide)

theorem Exn.not_isPermanent_of_isTransient {e : Exn} (h : e.isTransient = true) : e.isPermanent = false := by
  cases e with
  | event cls message => exact EventError.not_isPermanent_of_isTransient h
  | foreign e => rfl

end App
