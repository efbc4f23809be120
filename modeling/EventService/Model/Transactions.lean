/-
Rows of the `transactions` table (`app/models.py`): the values an insert carries, whether the
columns can hold them, and what the columns then store.
-/
import EventService.Decimal.Normalize
import EventService.Decimal.Places
import EventService.Model.Schemas

namespace App

/-- The values of one insert, as `EventProcessor.process` builds them. -/
structure Values where
  id : PyStr
  userId : PyStr
  amount : Decimal
  currency : PyStr
  amountUsd : Decimal
  rate : Decimal
  timestamp : Datetime
  processedAt : Nat
  deriving DecidableEq

/-- One stored row. `NUMERIC` columns hold rationals at their scale. -/
structure Transaction where
  id : PyStr
  userId : PyStr
  amount : ℚ
  currency : PyStr
  amountUsd : ℚ
  rate : ℚ
  timestamp : Datetime
  processedAt : Nat
  deriving DecidableEq

/-- `NUMERIC(24, scale)` holds a number if, rounded to the scale, it has at most 24 digits. -/
def fitsNumeric (scale : Nat) (d : Decimal) : Bool :=
  d.isFinite && decide (|Decimal.roundHalfAway scale d.toRat| * 10 ^ scale < 10 ^ 24)

/-- `NUMERIC(24, scale)` holds the number as it is. -/
def HoldsNumeric (scale : Nat) (x : ℚ) : Prop := Decimal.HasPlaces scale x ∧ |x| * 10 ^ scale < 10 ^ 24

/-- `String(n)`; text cannot hold the character U+0000. -/
def fitsString (n : Nat) (s : PyStr) : Bool := decide (s.length ≤ n) && s.all (· ≠ Char.ofNat 0)

namespace Values

/-- The columns of `Transaction` can hold the values. -/
def fits (v : Values) : Bool :=
  fitsString 128 v.id && fitsString 128 v.userId && fitsNumeric 4 v.amount && fitsString 3 v.currency &&
    fitsNumeric 4 v.amountUsd && fitsNumeric 10 v.rate

/-- The row the columns hold: numbers are rounded to the scale of their column. -/
def stored (v : Values) : Transaction where
  id := v.id
  userId := v.userId
  amount := Decimal.roundHalfAway 4 v.amount.toRat
  currency := v.currency
  amountUsd := Decimal.roundHalfAway 4 v.amountUsd.toRat
  rate := Decimal.roundHalfAway 10 v.rate.toRat
  timestamp := v.timestamp
  processedAt := v.processedAt

end Values

/-! ## Amounts -/

/-- The complaint about the digits before the point bounds a decimal. -/
theorem lt_of_digitsInfo {c n : Nat} {e : Int} (h : (digitsInfo c e).2 - (digitsInfo c e).1 ≤ n) :
    (c : ℚ) * (10 : ℚ) ^ e < (10 : ℚ) ^ (n : Int) := by
  refine (Decimal.val_lt_zpow c e).trans_le (zpow_le_zpow_right₀ (by norm_num) ?_)
  unfold digitsInfo at h
  split at h
  · dsimp only at h
    omega
  · dsimp only at h
    omega

/-- The complaint about the places behind the point bounds those. -/
theorem places_of_digitsInfo {c p : Nat} {e : Int} (h : (digitsInfo c e).1 ≤ p) :
    (c : ℚ) * (10 : ℚ) ^ e * 10 ^ p = ((c * 10 ^ (e + p).toNat : ℕ) : ℚ) := by
  have hexp : 0 ≤ e + p := by
    unfold digitsInfo at h
    split at h
    · omega
    · dsimp only at h
      omega
  push_cast
  rw [mul_assoc, ← zpow_natCast (10 : ℚ) p, ← zpow_add₀ (by norm_num), ← zpow_natCast, Int.toNat_of_nonneg hexp]

/-- The complaints about an amount that is accepted, none of which is made of it. -/
theorem moneyAmount_eq_nil {neg : Bool} {c : Nat} {e : Int} (h : moneyAmount (.finite neg c e) = []) :
    ((digitsInfo c e).1 ≤ 4 ∨ (normalizedInfo neg c e).1 ≤ 4) ∧
      ((digitsInfo c e).2 - (digitsInfo c e).1 ≤ 16 ∨
        (normalizedInfo neg c e).2 - (normalizedInfo neg c e).1 ≤ 16) := by
  unfold moneyAmount checkDigits at h
  dsimp only at h
  split at h
  · cases h
  · split at h
    · cases h
    · split at h
      · cases h
      · constructor <;> omega

/-- An accepted amount has at most 16 digits before the point: rounding carries nothing over `10^16` but what is
that large already. -/
theorem moneyAmount_lt {neg : Bool} {c : Nat} {e : Int} (h : moneyAmount (.finite neg c e) = []) :
    (c : ℚ) * (10 : ℚ) ^ e < (10 : ℚ) ^ (16 : Int) := by
  rcases (moneyAmount_eq_nil h).2 with hraw | hnorm
  · exact lt_of_digitsInfo hraw
  by_contra hge
  have hpos : (0 : ℚ) < (10 : ℚ) ^ ((16 : Int) - Decimal.Context.default.prec) / 2 := by positivity
  unfold normalizedInfo at hnorm
  rcases Decimal.normalize_ge .default neg (c := c) (e := e) (n := 16) (by decide) (by linarith) with
    ⟨s, herr⟩ | ⟨m, k, hok, hmk⟩
  · rw [herr] at hnorm
    exact hge (lt_of_digitsInfo hnorm)
  · rw [hok] at hnorm
    exact absurd hmk (not_le.2 (lt_of_digitsInfo hnorm))

/-- An amount as the schema means it: of at most 20 digits, at most four of them behind the point. -/
structure AmountFits (amount : Decimal) : Prop where
  finite : amount.isFinite = true
  places : Decimal.HasPlaces 4 amount.toRat
  bound : |amount.toRat| < 10 ^ 16

/-- Among the accepted amounts these are the multiples of the last place. -/
theorem amountFits_of_places {amount : Decimal} (h : moneyAmount amount = [])
    (hplaces : Decimal.HasPlaces 4 amount.toRat) : AmountFits amount := by
  have hfinite := isFinite_of_moneyAmount h
  obtain ⟨neg, c, e, rfl⟩ := Decimal.exists_finite hfinite
  refine ⟨hfinite, hplaces, ?_⟩
  rw [Decimal.abs_toRat]
  exact_mod_cast moneyAmount_lt h

/-- An accepted amount that the context's digits can write is one of them. -/
theorem places_of_short {amount : Decimal} (h : moneyAmount amount = []) {M : Nat} {K : Int}
    (hv : |amount.toRat| = (M : ℚ) * (10 : ℚ) ^ K) (hM : M < 10 ^ 28) (hK : -1000026 ≤ K) :
    Decimal.HasPlaces 4 amount.toRat := by
  obtain ⟨neg, c, e, rfl⟩ := Decimal.exists_finite (isFinite_of_moneyAmount h)
  rcases (moneyAmount_eq_nil h).1 with hraw | hnorm
  · exact Decimal.hasPlaces_of_abs (by rw [Decimal.abs_toRat]; exact places_of_digitsInfo hraw)
  · have hhi : (c : ℚ) * (10 : ℚ) ^ e < (10 : ℚ) ^ Decimal.Context.default.emax :=
      (moneyAmount_lt h).trans (zpow_lt_zpow_right₀ (by norm_num) (by decide))
    rw [Decimal.abs_toRat] at hv
    obtain ⟨m, k, hok, hmk⟩ := Decimal.normalize_exact .default neg hv hM
      (show (-999999 - 28 + 1 : Int) ≤ K by omega) hhi
    unfold normalizedInfo at hnorm
    rw [hok] at hnorm
    refine Decimal.hasPlaces_of_abs (m := m * 10 ^ (k + 4).toNat) ?_
    rw [Decimal.abs_toRat, ← hmk]
    exact places_of_digitsInfo hnorm

/-- It is a whole number of the last place, of at most 20 digits. -/
theorem AmountFits.coefficient {amount : Decimal} (h : AmountFits amount) :
    ∃ m : Nat, m < 10 ^ 20 ∧ |amount.toRat| * 10 ^ 4 = m := by
  obtain ⟨n, hn⟩ := h.places
  have habs : |amount.toRat| * 10 ^ 4 = (n.natAbs : ℚ) := by
    rw [Nat.cast_natAbs, Int.cast_abs, ← hn, abs_mul, abs_of_pos (by norm_num : (0 : ℚ) < 10 ^ 4)]
  refine ⟨n.natAbs, ?_, habs⟩
  have hbound : (n.natAbs : ℚ) < 10 ^ 20 := by
    rw [← habs]
    linarith [h.bound]
  exact_mod_cast hbound

end App
