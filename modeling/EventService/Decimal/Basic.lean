/-
Decimal floating point as Python's `decimal` module computes it: signed coefficients with an
exponent, the special values, and a context that rounds every product half to even to its
precision and signals what it cannot represent. The value of a finite decimal is a rational.
-/
import Mathlib.Data.Nat.Log
import Mathlib.Data.Rat.Floor
import Mathlib.Algebra.Order.Field.Power

/-- A decimal: `(-1)^neg · coeff · 10^exp`, an infinity, or a (quiet or signaling) NaN. -/
inductive Decimal
  | finite (neg : Bool) (coeff : Nat) (exp : Int)
  | infinity (neg : Bool)
  | nan (neg signaling : Bool) (payload : Nat)
  deriving DecidableEq, Repr

namespace Decimal

/-- The signals that are trapped, so that they reach the caller as exceptions. -/
inductive Signal
  | invalidOperation
  | overflow
  deriving DecidableEq, Repr

/-- How many digits a result may have and which exponents are representable. -/
structure Context where
  prec : Nat
  emin : Int
  emax : Int
  prec_pos : 1 ≤ prec
  emin_lt : emin < emax

/-- The context every thread starts with: 28 digits. -/
def Context.default : Context := ⟨28, -999999, 999999, by decide, by decide⟩

/-- The least exponent of a subnormal result. -/
def Context.etiny (ctx : Context) : Int := ctx.emin - ctx.prec + 1

/-- The greatest exponent of a result with all its digits. -/
def Context.etop (ctx : Context) : Int := ctx.emax - ctx.prec + 1

/-- The number of digits of a coefficient as it is written (one for zero). -/
def digits (c : Nat) : Nat := Nat.log 10 c + 1

/-- `c / 10^k`, rounded half to even. -/
def divHalfEven (c k : Nat) : Nat :=
  let q := c / 10 ^ k
  let r := c % 10 ^ k
  if 10 ^ k < 2 * r ∨ (2 * r = 10 ^ k ∧ q % 2 = 1) then q + 1 else q

/-- `c / 10^k`, rounded half up. -/
def divHalfUp (c k : Nat) : Nat :=
  let q := c / 10 ^ k
  let r := c % 10 ^ k
  if 10 ^ k ≤ 2 * r then q + 1 else q

/-! ## Values -/

/-- The value of a finite decimal; the special values have none. -/
def toRat : Decimal → ℚ
  | .finite neg c e => (if neg then -1 else 1) * ((c : ℚ) * (10 : ℚ) ^ e)
  | .infinity _ | .nan _ _ _ => 0

def isFinite : Decimal → Bool
  | .finite _ _ _ => true
  | .infinity _ | .nan _ _ _ => false

/-- `d <= 0` for a finite `d`. -/
def nonPositive : Decimal → Bool
  | .finite neg c _ => neg || c == 0
  | .infinity neg => neg
  | .nan _ _ _ => false

/-- Round to `scale` decimal places, halves away from zero. -/
def roundHalfAway (scale : Nat) (x : ℚ) : ℚ :=
  (if x < 0 then -1 else 1) * ((⌊|x| * 10 ^ scale + 1 / 2⌋ : ℤ) / 10 ^ scale)

/-! ## Operations -/

/-- Fit an exact result into the context: zeros get a representable exponent, long coefficients
are rounded, and what is too large overflows. -/
def fix (ctx : Context) (neg : Bool) (c : Nat) (e : Int) : Except Signal Decimal :=
  if c = 0 then .ok (.finite neg 0 (min (max e ctx.etiny) ctx.emax))
  else if ctx.etop < (digits c : Int) + e - ctx.prec then .error .overflow
  else
    let low := max ((digits c : Int) + e - ctx.prec) ctx.etiny
    if e < low then
      let c' := divHalfEven c (low - e).toNat
      if ctx.prec < digits c' then
        -- the rounding carried into one more digit, which is a zero
        if ctx.etop < low + 1 then .error .overflow else .ok (.finite neg (c' / 10) (low + 1))
      else if ctx.etop < low then .error .overflow
      else .ok (.finite neg c' low)
    else .ok (.finite neg c e)

/-- Move zeros from the end of a coefficient into the exponent, at most so many. -/
def stripZeros : Nat → Nat → Int → Nat × Int
  | 0, c, e => (c, e)
  | n + 1, c, e => if c % 10 = 0 then stripZeros n (c / 10) (e + 1) else (c, e)

/-- `normalize`: what fits into the context, without the zeros at its end. -/
def normalize (ctx : Context) (neg : Bool) (c : Nat) (e : Int) : Except Signal Decimal :=
  match fix ctx neg c e with
  | .ok (.finite neg c e) =>
    if c = 0 then .ok (.finite neg 0 0)
    else
      -- the exponent stays representable
      let (c, e) := stripZeros (min (digits c) (ctx.emax - e).toNat) c e
      .ok (.finite neg c e)
  | r => r

/-- The product, rounded half to even to the context's precision. -/
def mul (ctx : Context) : Decimal → Decimal → Except Signal Decimal
  | .finite n₁ c₁ e₁, .finite n₂ c₂ e₂ => fix ctx (n₁ != n₂) (c₁ * c₂) (e₁ + e₂)
  | .nan _ true _, _ | _, .nan _ true _ => .error .invalidOperation
  | .nan n false p, _ | _, .nan n false p => .ok (.nan n false p)
  | .infinity n₁, .infinity n₂ => .ok (.infinity (n₁ != n₂))
  | .infinity n₁, .finite n₂ c _ | .finite n₂ c _, .infinity n₁ =>
    if c = 0 then .error .invalidOperation else .ok (.infinity (n₁ != n₂))

/-- `quantize` to the exponent `q` with halves rounded up: it fails where the result would need
more digits than the context has. -/
def quantize (ctx : Context) (q : Int) : Decimal → Except Signal Decimal
  | .finite neg c e =>
    if q < ctx.etiny ∨ ctx.emax < q then .error .invalidOperation
    else if c = 0 then fix ctx neg 0 q
    else if ctx.emax < e + digits c - 1 then .error .invalidOperation
    else if ctx.prec < e + digits c - q then .error .invalidOperation
    else
      let c' := if q ≤ e then c * 10 ^ (e - q).toNat else divHalfUp c (q - e).toNat
      if ctx.emax < q + digits c' - 1 then .error .invalidOperation
      else if ctx.prec < digits c' then .error .invalidOperation
      else fix ctx neg c' q
  | .nan neg false payload => .ok (.nan neg false payload)
  | .nan _ true _ | .infinity _ => .error .invalidOperation

end Decimal
