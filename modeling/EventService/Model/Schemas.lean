/-
The events (`app/schemas.py`): candidate documents as a client or the queue delivers them, the
validation that turns them into a `TransactionEvent`, and the JSON layer that carries an event
through the queue. A `TransactionEvent` carries what the validation established, so an event that
breaks a constraint cannot be built; the main result is that validating an event's own document
gives the event back exactly if its currency still has three characters.
-/
import EventService.Decimal.Basic
import EventService.Text.Unicode
import EventService.Model.Errors
import Mathlib.Tactic.Linarith

namespace App

/-! ## Dates and times -/

namespace Datetime

/-- Microseconds of a day. -/
def day : Int := 86400 * 10 ^ 6

/-- Microseconds from the first to the last representable instant: years 1 to 9999. -/
def span : Int := 3652059 * day

end Datetime

/-- A `datetime`: microseconds since 0001-01-01T00:00 on the wall clock, and the offset of that
clock from UTC unless the value is naive. -/
structure Datetime where
  wall : Int
  offset : Option Int
  wall_range : 0 ≤ wall ∧ wall < Datetime.span
  offset_range : ∀ o ∈ offset, -Datetime.day < o ∧ o < Datetime.day
  deriving DecidableEq

namespace Datetime

theorem offset_in_range {o : Int} (h : -day < o ∧ o < day) : ∀ o' ∈ some o, -day < o' ∧ o' < day := by
  rintro o' ⟨⟩
  exact h

/-- The instant of a value of which a naive one is meant in UTC. -/
def instant (d : Datetime) : Int := d.wall - d.offset.getD 0

/-- `d > d'`: values with an offset are compared as instants, naive ones as they are. -/
def gt (d d' : Datetime) : Except Exn Bool :=
  match d.offset, d'.offset with
  | some o, some o' => .ok (d'.wall - o' < d.wall - o)
  | none, none => .ok (d'.wall < d.wall)
  | some _, none | none, some _ => .error (.ofClass .typeError "can't compare offset-naive and offset-aware datetimes")

def isUTC (d : Datetime) : Bool := d.offset = some 0

/-- `value.replace(tzinfo=UTC)` -/
def replaceUTC (d : Datetime) : Datetime := ⟨d.wall, some 0, d.wall_range, by simp [day]⟩

/-- `value.astimezone(UTC)` of a value with this offset; `none` where it raises `OverflowError`. -/
def astimezoneUTC (d : Datetime) (offset : Int) : Option Datetime :=
  if h : 0 ≤ d.wall - offset ∧ d.wall - offset < span then some ⟨d.wall - offset, some 0, h, by simp [day]⟩ else none

/-- Changing to UTC changes nothing about a value that is in UTC. -/
theorem astimezoneUTC_of_isUTC {d : Datetime} (h : d.isUTC = true) : d.astimezoneUTC 0 = some d := by
  obtain ⟨wall, offset, hwall, hoffset⟩ := d
  obtain rfl : offset = some 0 := by simpa [isUTC] using h
  unfold astimezoneUTC
  simp [hwall.1, hwall.2]

theorem isUTC_of_astimezoneUTC {d d' : Datetime} {offset : Int} (h : d.astimezoneUTC offset = some d') :
    d'.isUTC = true ∧ d'.instant = d.wall - offset := by
  unfold astimezoneUTC at h
  split at h
  · rw [← Option.some.inj h]
    simp [isUTC, instant]
  · cases h

end Datetime

/-! ## Events -/

/-- A document that has the fields of an event, with their types but not checked any further. Its amount is
spelt as a string or as a number. -/
structure EventIn where
  id : PyStr
  userId : PyStr
  amount : Decimal
  currency : PyStr
  timestamp : Datetime
  amountIsNumber : Bool := false
  deriving DecidableEq

/-- One complaint of a failed validation. -/
inductive FieldError
  | shape
  | tooShort (field : String) (bound : Nat)
  | tooLong (field : String) (bound : Nat)
  | finiteNumber (field : String)
  | maxDigits (field : String) (bound : Nat)
  | maxPlaces (field : String) (bound : Nat)
  | wholeDigits (field : String) (bound : Nat)
  | value (field : String) (message : String)
  deriving DecidableEq, Repr

/-- `Field(min_length=…, max_length=…)` -/
def checkLength (field : String) (lo hi : Nat) (s : PyStr) : List FieldError :=
  if s.length < lo then [.tooShort field lo]
  else if hi < s.length then [.tooLong field hi]
  else []

/-- The decimal places of a finite decimal and its digits, as pydantic counts them: the zeros that an exponent
stands for, behind the coefficient or before it, are digits. -/
def digitsInfo (c : Nat) (e : Int) : Nat × Nat :=
  if 0 ≤ e then (0, Decimal.digits c + e.toNat) else (e.natAbs, max (Decimal.digits c) e.natAbs)

/-- What it counts behind `normalize`; a decimal that cannot be normalized is taken as it is. -/
def normalizedInfo (neg : Bool) (c : Nat) (e : Int) : Nat × Nat :=
  match Decimal.normalize .default neg c e with
  | .ok (.finite _ c e) => digitsInfo c e
  | .ok (.infinity _) | .ok (.nan _ _ _) | .error _ => digitsInfo c e

/-- `Field(max_digits=…, decimal_places=…)`: a bound is broken by a decimal that breaks it both as it is and
normalized, which rounds it to 28 digits. -/
def checkDigits (field : String) (maxDigits decimalPlaces : Nat) : Decimal → List FieldError
  | .finite neg c e =>
    let (decimals, digits) := digitsInfo c e
    let (decimals', digits') := normalizedInfo neg c e
    if maxDigits < digits ∧ maxDigits < digits' then [.maxDigits field maxDigits]
    else if decimalPlaces < decimals ∧ decimalPlaces < decimals' then [.maxPlaces field decimalPlaces]
    else if maxDigits - decimalPlaces < digits - decimals ∧ maxDigits - decimalPlaces < digits' - decimals' then
      [.wholeDigits field (maxDigits - decimalPlaces)]
    else []
  | .infinity _ | .nan _ _ _ => [.finiteNumber field]

/-- `MoneyAmount`: at most 16 digits before the point and 4 after it. -/
def moneyAmount (amount : Decimal) : List FieldError := checkDigits "amount" 20 4 amount

/-- `_normalise_currency`: the code, or the text of the `ValueError`. -/
def normaliseCurrency (value : PyStr) : Except String PyStr :=
  let code := PyStr.upper (PyStr.strip value)
  if PyStr.isalpha code then .ok code else .error "currency must be a 3-letter ISO-4217 code"

/-- `_finite_amount` -/
def finiteAmount (value : Decimal) : Except String Decimal :=
  if value.isFinite then .ok value else .error "amount must be a finite number"

/-- `_to_utc`; `none` where the shift raises `OverflowError`. -/
def toUTC (value : Datetime) : Option Datetime :=
  match value.offset with
  | none => some value.replaceUTC
  | some offset => value.astimezoneUTC offset

/-- An event that passed validation. -/
structure TransactionEvent where
  id : PyStr
  userId : PyStr
  amount : Decimal
  currency : PyStr
  timestamp : Datetime
  id_length : 1 ≤ id.length ∧ id.length ≤ 128
  userId_length : 1 ≤ userId.length ∧ userId.length ≤ 128
  amount_digits : moneyAmount amount = []
  currency_alpha : PyStr.isalpha currency = true
  currency_upper : PyStr.upper currency = currency
  timestamp_utc : timestamp.isUTC = true
  deriving DecidableEq

namespace TransactionEvent

/-- The document an event is written as. -/
def toIn (e : TransactionEvent) : EventIn where
  id := e.id
  userId := e.userId
  amount := e.amount
  currency := e.currency
  timestamp := e.timestamp

theorem toIn_inj {e e' : TransactionEvent} (h : e.toIn = e'.toIn) : e = e' := by
  cases e
  cases e'
  simp only [toIn, EventIn.mk.injEq] at h
  obtain ⟨rfl, rfl, rfl, rfl, rfl, -⟩ := h
  rfl

end TransactionEvent

/-- The complaints about one field: its constraint on the raw value first, then its validator. -/
def fieldErrors (constraint : List FieldError) (field : String) {α : Type} (validator : Except String α) :
    List FieldError :=
  if constraint = [] then
    match validator with
    | .ok _ => []
    | .error message => [.value field message]
  else constraint

/-- The complaints about every field but the time stamp, whose validator cannot complain. -/
def EventIn.errors (d : EventIn) : List FieldError :=
  checkLength "id" 1 128 d.id ++ checkLength "user_id" 1 128 d.userId ++
    fieldErrors (moneyAmount d.amount) "amount" (finiteAmount d.amount) ++
    fieldErrors (checkLength "currency" 3 3 d.currency) "currency" (normaliseCurrency d.currency)

/-- How a validation ends that yields no event. -/
inductive Rejection
  | validationError (errors : List FieldError)
  | overflowError
  deriving DecidableEq, Repr

theorem checkLength_eq_nil {field : String} {lo hi : Nat} {s : PyStr} :
    checkLength field lo hi s = [] ↔ lo ≤ s.length ∧ s.length ≤ hi := by
  unfold checkLength
  split
  · simp; omega
  · split
    · simp; omega
    · simp; omega

theorem fieldErrors_eq_nil {constraint : List FieldError} {field : String} {α : Type}
    {validator : Except String α} :
    fieldErrors constraint field validator = [] ↔ constraint = [] ∧ ∃ a, validator = .ok a := by
  unfold fieldErrors
  split
  · rename_i h
    cases validator <;> simp [h]
  · rename_i h
    simp [h]

/-- Without complaints an amount is a number. -/
theorem isFinite_of_moneyAmount {amount : Decimal} (h : moneyAmount amount = []) : amount.isFinite = true := by
  cases amount with
  | finite => rfl
  | infinity => cases h
  | nan => cases h

/-- What a document without complaints satisfies. -/
theorem EventIn.errors_eq_nil {d : EventIn} : d.errors = [] ↔
    (1 ≤ d.id.length ∧ d.id.length ≤ 128) ∧ (1 ≤ d.userId.length ∧ d.userId.length ≤ 128) ∧
    moneyAmount d.amount = [] ∧ d.currency.length = 3 ∧
    PyStr.isalpha (PyStr.upper (PyStr.strip d.currency)) = true := by
  unfold errors
  rw [List.append_eq_nil_iff, List.append_eq_nil_iff, List.append_eq_nil_iff, checkLength_eq_nil,
    checkLength_eq_nil, fieldErrors_eq_nil, fieldErrors_eq_nil, checkLength_eq_nil]
  have hamount : (moneyAmount d.amount = [] ∧ ∃ a, finiteAmount d.amount = .ok a) ↔ moneyAmount d.amount = [] := by
    refine and_iff_left_of_imp fun h => ⟨d.amount, ?_⟩
    unfold finiteAmount
    rw [if_pos (isFinite_of_moneyAmount h)]
  have hcurrency : (∃ a, normaliseCurrency d.currency = .ok a) ↔
      PyStr.isalpha (PyStr.upper (PyStr.strip d.currency)) = true := by
    unfold normaliseCurrency
    simp only
    split <;> simp_all
  rw [hamount, hcurrency]
  have : (3 ≤ d.currency.length ∧ d.currency.length ≤ 3) ↔ d.currency.length = 3 := by omega
  rw [this]
  tauto

/-- `TransactionEvent.model_validate`: the shift to UTC may overflow, which no validation catches;
otherwise the complaints of all fields are reported together. -/
def validate (d : EventIn) : Except Rejection TransactionEvent :=
  match ht : toUTC d.timestamp with
  | none => .error .overflowError
  | some timestamp =>
    if h : d.errors = [] then
      .ok ⟨d.id, d.userId, d.amount, PyStr.upper (PyStr.strip d.currency), timestamp,
        (EventIn.errors_eq_nil.1 h).1, (EventIn.errors_eq_nil.1 h).2.1, (EventIn.errors_eq_nil.1 h).2.2.1,
        (EventIn.errors_eq_nil.1 h).2.2.2.2, PyStr.upper_upper _, by
          unfold toUTC at ht
          split at ht
          · rw [← Option.some.inj ht]
            rfl
          · exact (Datetime.isUTC_of_astimezoneUTC ht).1⟩
    else .error (.validationError d.errors)

theorem toUTC_of_isUTC {d : Datetime} (h : d.isUTC = true) : toUTC d = some d := by
  have hoff : d.offset = some 0 := by simpa [Datetime.isUTC] using h
  unfold toUTC
  rw [hoff]
  exact Datetime.astimezoneUTC_of_isUTC h

/-- The fields of a validated event. -/
theorem validate_ok {d : EventIn} {e : TransactionEvent} (h : validate d = .ok e) :
    d.errors = [] ∧ e.id = d.id ∧ e.userId = d.userId ∧ e.amount = d.amount ∧
      e.currency = PyStr.upper (PyStr.strip d.currency) ∧ toUTC d.timestamp = some e.timestamp := by
  unfold validate at h
  split at h
  · cases h
  · rename_i timestamp ht
    split at h
    · rename_i herr
      rw [← Except.ok.inj h]
      exact ⟨herr, rfl, rfl, rfl, rfl, ht⟩
    · cases h

/-- Normalising a normalised currency changes nothing. -/
theorem TransactionEvent.normalised (e : TransactionEvent) :
    PyStr.upper (PyStr.strip e.currency) = e.currency := by
  rw [PyStr.strip_of_isalpha e.currency_alpha, e.currency_upper]

/-- Validating an event's own document: the currency's length is all that can fail. -/
theorem validate_toIn (e : TransactionEvent) :
    validate e.toIn = if e.currency.length = 3 then .ok e else .error (.validationError e.toIn.errors) := by
  have herr : e.toIn.errors = [] ↔ e.currency.length = 3 := by
    rw [EventIn.errors_eq_nil]
    show (1 ≤ e.id.length ∧ e.id.length ≤ 128) ∧ (1 ≤ e.userId.length ∧ e.userId.length ≤ 128) ∧
      moneyAmount e.amount = [] ∧ e.currency.length = 3 ∧
      PyStr.isalpha (PyStr.upper (PyStr.strip e.currency)) = true ↔ _
    rw [e.normalised]
    exact ⟨fun h => h.2.2.2.1, fun h => ⟨e.id_length, e.userId_length, e.amount_digits, h, e.currency_alpha⟩⟩
  cases hv : validate e.toIn with
  | ok e' =>
    obtain ⟨hnil, hid, huser, hamount, hcurrency, htime⟩ := validate_ok hv
    rw [if_pos (herr.1 hnil)]
    have ht : e.timestamp = e'.timestamp :=
      Option.some.inj ((toUTC_of_isUTC e.timestamp_utc).symm.trans htime)
    congr 1
    -- the checks are proofs, so the events agree if their documents do
    apply TransactionEvent.toIn_inj
    unfold TransactionEvent.toIn
    rw [hid, huser, hamount, hcurrency, ← ht]
    show EventIn.mk e.id e.userId e.amount (PyStr.upper (PyStr.strip e.currency)) e.timestamp false = _
    rw [e.normalised]
  | error r =>
    unfold validate at hv
    split at hv
    · rename_i ht
      exact absurd (ht.symm.trans (toUTC_of_isUTC e.timestamp_utc)) (by simp)
    · split at hv
      · cases hv
      · rename_i hne
        rw [if_neg (fun h => hne (herr.2 h)), ← Except.error.inj hv]

/-! ## The JSON layer -/

/-- What the JSON layer does: it writes events to payloads, reads documents from payloads (`none`
where the text has another shape), reads back what it wrote, and words the complaints of a failed
validation. -/
structure JsonLayer (P : Type) where
  modelDumpJson : TransactionEvent → P
  load : P → Option EventIn
  describe : List FieldError → String
  load_dump : ∀ e, load (modelDumpJson e) = some e.toIn

namespace JsonLayer

variable {P : Type} (J : JsonLayer P)

/-- `TransactionEvent.model_validate_json`: a `ValidationError`, or the `OverflowError` that no
validation catches. -/
def modelValidateJson (payload : P) : Except Exn TransactionEvent :=
  match J.load payload with
  | none => .error (.ofClass .validationError (J.describe [.shape]))
  | some d =>
    match validate d with
    | .ok e => .ok e
    | .error (.validationError errors) => .error (.ofClass .validationError (J.describe errors))
    | .error .overflowError => .error (.ofClass .overflowError "date value out of range")

theorem modelValidateJson_dump (e : TransactionEvent) :
    J.modelValidateJson (J.modelDumpJson e) =
      if e.currency.length = 3 then .ok e
      else .error (.ofClass .validationError (J.describe e.toIn.errors)) := by
  unfold modelValidateJson
  rw [J.load_dump e]
  simp only [validate_toIn e]
  by_cases h : e.currency.length = 3
  · rw [if_pos h, if_pos h]
  · rw [if_neg h, if_neg h]

/-- Different events are written differently. -/
theorem modelDumpJson_inj {e e' : TransactionEvent} (h : J.modelDumpJson e = J.modelDumpJson e') :
    e = e' := by
  have hload := J.load_dump e
  rw [h, J.load_dump e'] at hload
  exact (TransactionEvent.toIn_inj (Option.some.inj hload)).symm

/-- A payload that was written from an event is read as that event, or not at all. -/
theorem eq_of_modelValidateJson {e e' : TransactionEvent}
    (h : J.modelValidateJson (J.modelDumpJson e) = .ok e') : e' = e := by
  rw [modelValidateJson_dump] at h
  split at h
  · exact (Except.ok.inj h).symm
  · cases h

/-- The layer whose payloads are the documents themselves. -/
def documents : JsonLayer EventIn where
  modelDumpJson := TransactionEvent.toIn
  load := some
  describe := fun errors =>
    toString errors.length ++ (if errors.length = 1 then " validation error" else " validation errors") ++
      " for TransactionEvent"
  load_dump := fun _ => rfl

end JsonLayer

end App
