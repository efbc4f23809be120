/-
The body of `POST /events` as a client spells it. FastAPI decodes it with `json.loads`, for which a
number without point and exponent is an `int` and any other the nearest `float`; pydantic makes an `int`
and a string a `Decimal` as they are, and a `float` through its `str`, the shortest decimal that is read
as the same `float`.
-/
import EventService.Decimal.Shortest
import EventService.Model.Api

namespace App

/-! ## Numbers -/

/-- A number of a JSON text: its whole part, the digits behind the point, and the exponent if one is
written. -/
structure JsonNumber where
  negative : Bool
  whole : Nat
  fraction : List (Fin 10)
  exponent : Option Int
  deriving DecidableEq

/-- A `float`: a finite one by its sign and its absolute value. -/
inductive PyFloat
  | finite (neg : Bool) (abs : ℚ)
  | infinity (neg : Bool)
  | nan

namespace JsonNumber

/-- The digits on both sides of the point as one number. -/
def digits (n : JsonNumber) : Nat := n.fraction.foldl (fun c d => 10 * c + d) n.whole

def abs (n : JsonNumber) : ℚ := n.digits * 10 ^ (n.exponent.getD 0 - n.fraction.length)

/-- The number that is written. -/
def value (n : JsonNumber) : ℚ := (if n.negative then -1 else 1) * n.abs

/-- `json.loads` makes it an `int`. -/
def isInt (n : JsonNumber) : Bool := n.fraction = [] && n.exponent = none

def toInt (n : JsonNumber) : Int := if n.negative then -n.whole else n.whole

/-- `float(text)` -/
def toFloat (n : JsonNumber) : PyFloat :=
  let d := Binary64.nearest n.abs
  if 2 ^ 1024 ≤ d then .infinity n.negative else .finite n.negative d

end JsonNumber

/-- The digits `str` writes for a positive `float`, and the exponent of the last; a tenth unit of the
only digit is carried. -/
def strDigits (d : ℚ) : Nat × Int :=
  let (c, q) := Binary64.shortest d
  if c % 10 = 0 then (c.toNat / 10, q + 1) else (c.toNat, q)

/-- `Decimal(str(x))`: whole numbers of up to 16 digits are written out and end in `.0`. -/
def PyFloat.toDecimal : PyFloat → Decimal
  | .finite neg d =>
    if d = 0 then .finite neg 0 (-1)
    else
      let (c, q) := strDigits d
      if 0 ≤ q ∧ Decimal.digits c + q ≤ 16 then .finite neg (c * 10 ^ (q + 1).toNat) (-1)
      else .finite neg c q
  | .infinity neg => .infinity neg
  | .nan => .nan false false 0

/-! ## Bodies -/

/-- What a body may have as its amount. `json.loads` also reads `NaN`, `Infinity` and `-Infinity`; of a value that is
neither a string nor a number it matters whether JSON can write it again. -/
inductive JsonValue
  | string (text : PyStr)
  | number (n : JsonNumber)
  | nan
  | infinity (neg : Bool)
  | other (renders : Bool)

namespace JsonValue

/-- The decimal pydantic makes of a decoded value, if it makes one. -/
def toDecimal : JsonValue → Option Decimal
  | .string text => Decimal.parse text
  | .number n => if n.isInt then some (.finite (n.toInt < 0) n.toInt.natAbs 0) else some n.toFloat.toDecimal
  | .nan => some PyFloat.nan.toDecimal
  | .infinity neg => some (PyFloat.infinity neg).toDecimal
  | .other _ => none

/-- It is spelt as a number. -/
def isNumber : JsonValue → Bool
  | .number _ | .nan | .infinity _ => true
  | .string _ | .other _ => false

/-- `json.loads` refuses integers of more than 4300 digits. -/
def unreadable : JsonValue → Bool
  | .number n => n.isInt && 10 ^ 4300 ≤ n.whole
  | .string _ | .nan | .infinity _ | .other _ => false

/-- JSON can write a value of which no decimal is made. -/
def renders : JsonValue → Bool
  | .other renders => renders
  | .string _ | .number _ | .nan | .infinity _ => true

/-- The number that is written, in a string as `Decimal` reads it. -/
def written : JsonValue → ℚ
  | .string text => (Decimal.parse text).elim 0 Decimal.toRat
  | .number n => n.value
  | .nan | .infinity _ | .other _ => 0

end JsonValue

/-- A body with the fields of an event. -/
structure EventBody where
  id : PyStr
  userId : PyStr
  amount : JsonValue
  currency : PyStr
  timestamp : Datetime

/-- The document with the amount that was made of the body's. -/
def EventBody.toIn (body : EventBody) (amount : Decimal) : EventIn where
  id := body.id
  userId := body.userId
  amount := amount
  currency := body.currency
  timestamp := body.timestamp
  amountIsNumber := body.amount.isNumber

/-- FastAPI's answer to a body that cannot be decoded, other than by a `JSONDecodeError`. -/
def undecodable : Response := .failed 400 "There was an error parsing the body"

/-- `POST /events`: an amount no decimal is made of is one more complaint, which the shift to UTC may
forestall. -/
def postEvent {P : Type} (S : Service P) (body : EventBody) : Code P Response :=
  if body.amount.unreadable then pure undecodable
  else
    match body.amount.toDecimal, toUTC body.timestamp with
    | some amount, _ => receiveEvent S (body.toIn amount)
    | none, some _ => pure (complained body.amount.renders)
    | none, none => pure internalError

/-! ## The values that are made -/

theorem toRat_int (n : Int) : (Decimal.finite (n < 0) n.natAbs 0).toRat = n := by
  unfold Decimal.toRat
  have habs : ((n.natAbs : ℕ) : ℚ) = |(n : ℚ)| := by
    rw [Nat.cast_natAbs, Int.cast_abs]
  dsimp only
  rw [habs, zpow_zero, mul_one]
  by_cases hn : n < 0
  · have hneg : (n : ℚ) < 0 := by exact_mod_cast hn
    simp [hn, abs_of_neg hneg]
  · have hnonneg : (0 : ℚ) ≤ n := by exact_mod_cast not_lt.1 hn
    simp [hn, abs_of_nonneg hnonneg]

theorem JsonNumber.value_of_isInt {n : JsonNumber} (h : n.isInt = true) : n.value = n.toInt := by
  obtain ⟨negative, whole, fraction, exponent⟩ := n
  obtain ⟨rfl, rfl⟩ : fraction = [] ∧ exponent = none := by simpa [isInt] using h
  cases negative <;> simp [value, abs, digits, toInt]

theorem JsonNumber.abs_nonneg (n : JsonNumber) : 0 ≤ n.abs := by
  unfold abs
  positivity

/-- Carrying changes the digits, not the number. -/
theorem strDigits_value {d : ℚ} (h : 0 ≤ (Binary64.shortest d).1) :
    ((strDigits d).1 : ℚ) * 10 ^ (strDigits d).2 = Binary64.value (Binary64.shortest d) := by
  unfold strDigits Binary64.value
  generalize Binary64.shortest d = p at h ⊢
  obtain ⟨c, q⟩ := p
  obtain ⟨n, rfl⟩ := Int.eq_ofNat_of_zero_le h
  dsimp only
  split
  · rename_i hmod
    have hdiv : n / 10 * 10 = n := Nat.div_mul_cancel (Nat.dvd_of_mod_eq_zero (by omega))
    have hcast : ((n / 10 : ℕ) : ℚ) * 10 = n := by exact_mod_cast hdiv
    rw [Int.toNat_natCast, zpow_add_one₀ (by norm_num), mul_comm _ (10 : ℚ), ← mul_assoc, hcast, Int.cast_natCast]
  · rw [Int.toNat_natCast, Int.cast_natCast]

/-- Neither does writing the zeros out. -/
theorem PyFloat.toRat_toDecimal {neg : Bool} {d : ℚ} (hd : d ≠ 0) (h : 0 ≤ (Binary64.shortest d).1) :
    (PyFloat.finite neg d).toDecimal.toRat =
      (if neg then -1 else 1) * Binary64.value (Binary64.shortest d) := by
  rw [← strDigits_value h]
  unfold toDecimal
  dsimp only
  rw [if_neg hd]
  generalize strDigits d = p
  obtain ⟨c, q⟩ := p
  dsimp only
  split
  · rename_i hq
    unfold Decimal.toRat
    dsimp only
    rw [Nat.cast_mul, Nat.cast_pow, ← zpow_natCast, Int.toNat_of_nonneg (by omega), mul_assoc, Nat.cast_ofNat,
      ← zpow_add₀ (by norm_num)]
    norm_num
  · rfl

end App
