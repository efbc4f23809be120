/-
The exchange-rate lookup (`app/rates.py`): a cache-aside wrapper around a rate source, and the
static source of the repository.
-/
import EventService.Model.Effects

namespace App

open Prog

variable {P : Type} (S : Service P)

/-- `STATIC_RATES`: USD per unit of the currency. -/
def staticRates : List (PyStr × Decimal) :=
  [("USD".toList, .finite false 1 0),
   ("EUR".toList, .finite false 10850 (-4)),
   ("GBP".toList, .finite false 12640 (-4)),
   ("JPY".toList, .finite false 64 (-4)),
   ("CHF".toList, .finite false 11180 (-4)),
   ("CAD".toList, .finite false 7350 (-4)),
   ("AUD".toList, .finite false 6620 (-4)),
   ("SEK".toList, .finite false 945 (-4)),
   ("PLN".toList, .finite false 2510 (-4)),
   ("UAH".toList, .finite false 242 (-4))]

/-- What `StaticRateSource.fetch` may answer: the table's rate or that there is none, and with a
failure rate also a simulated outage. -/
def StaticRateSource.answers (currency : PyStr) (reply : Except Exn Decimal) : Prop :=
  reply = (match staticRates.lookup currency with
    | some rate => .ok rate
    | none => .error (.event .unknownCurrencyError ("no exchange rate for " ++ String.ofList currency))) ∨
  reply = .error (.event .rateUnavailableError
    ("simulated rate-provider outage for " ++ String.ofList currency))

instance (currency : PyStr) (reply : Except Exn Decimal) :
    Decidable (StaticRateSource.answers currency reply) :=
  inferInstanceAs (Decidable (_ ∨ _))

def baseCurrency : PyStr := "USD".toList

/-- `_cache_key` -/
def cacheKey (currency : PyStr) : PyStr := "rate:".toList ++ currency

/-- `_read_cache`: only a `RedisError` is taken for a miss, and so is what `Decimal` cannot read. -/
def readCache (currency : PyStr) : Code P (Option Decimal) :=
  if S.rateCache then do
    match ← ask (.get (cacheKey currency)) with
    | .error exc => if exc.cls.isRedisError then pure none else raise (.foreign exc)
    | .ok none => pure none
    | .ok (some raw) => pure (Decimal.parse raw)
  else pure none

/-- `_write_cache` -/
def writeCache (currency : PyStr) (rate : Decimal) : Code P Unit :=
  if S.rateCache then do
    match ← ask (.set (cacheKey currency) rate.str) with
    | .error exc => if exc.cls.isRedisError then pure () else raise (.foreign exc)
    | .ok () => pure ()
  else pure ()

/-- `get_rate` -/
def getRate (currency : PyStr) : Code P Decimal := do
  let currency := PyStr.upper currency
  if currency = baseCurrency then
    -- no lookup and no cache round trip
    pure (.finite false 1 0)
  else
    match ← readCache S currency with
    | some cached => pure cached
    | none =>
      match ← ask (.fetch currency) with
      | .error (.event .unknownCurrencyError message) => raise (.event .unknownCurrencyError message)
      | .error (.event .rateUnavailableError message) => raise (.event .rateUnavailableError message)
      -- any other exception of the source is transient
      | .error _ =>
        raise (.event .rateUnavailableError ("rate lookup failed for " ++ String.ofList currency))
      | .ok rate => do
        writeCache S currency rate
        pure rate

end App
