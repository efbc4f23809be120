/-
Currency conversion (`app/money.py`): the product in the default decimal context, quantized half up
to four places. The main results say for which arguments the conversion raises nothing, and that
its result is the exact product rounded once whenever the product has at most 28 digits.
-/
import EventService.Decimal.Places
import EventService.Model.Errors

namespace App

/-- The decimal signals as the exceptions they raise. -/
def Exn.ofSignal : Decimal.Signal → Exn
  | .invalidOperation => .ofClass .invalidOperation "[<class 'decimal.InvalidOperation'>]"
  | .overflow => .ofClass .decimalOverflow "[<class 'decimal.Overflow'>]"

/-- The result, or the exception a signal raises. -/
def ofSignals {α : Type} : Except Decimal.Signal α → Except Exn α
  | .ok a => .ok a
  | .error s => .error (.ofSignal s)

/-- `USD_QUANTUM = Decimal("0.0001")`: the exponent amounts are stored with. -/
def usdQuantum : Int := -4

def quantizeUsd (value : Decimal) : Except Exn Decimal :=
  ofSignals (Decimal.quantize .default usdQuantum value)

/-- `convert_to_usd`; its check that both arguments are `Decimal`s is their type here. -/
def convertToUsd (amount rate : Decimal) : Except Exn Decimal :=
  if !amount.isFinite || !rate.isFinite then .error (.ofClass .valueError "amount and rate must be finite")
  else if rate.nonPositive then .error (.ofClass .valueError "rate must be positive")
  else
    match Decimal.mul .default amount rate with
    | .error s => .error (.ofSignal s)
    | .ok product => quantizeUsd product

/-- Past the argument checks. -/
theorem convertToUsd_eq {amount rate : Decimal} (ha : amount.isFinite = true) (hr : rate.isFinite = true)
    (hpos : rate.nonPositive = false) : convertToUsd amount rate =
      match Decimal.mul .default amount rate with
      | .error s => .error (.ofSignal s)
      | .ok product => quantizeUsd product := by
  unfold convertToUsd
  rw [ha, hr, hpos]
  rfl

/-- What a successful conversion was given. -/
theorem convertToUsd_ok {amount rate usd : Decimal} (h : convertToUsd amount rate = .ok usd) :
    amount.isFinite = true ∧ rate.isFinite = true ∧ rate.nonPositive = false := by
  unfold convertToUsd at h
  split at h
  · cases h
  · rename_i hfin
    split at h
    · cases h
    · rename_i hpos
      simp only [Bool.or_eq_true, Bool.not_eq_true', not_or, Bool.not_eq_false] at hfin
      exact ⟨hfin.1, hfin.2, by simpa using hpos⟩

/-- The conversion raises nothing as long as the product stays half a step below `10^24`. -/
theorem convertToUsd_isOk {amount rate : Decimal} (ha : amount.isFinite = true) (hr : rate.isFinite = true)
    (hpos : rate.nonPositive = false)
    (h : |amount.toRat * rate.toRat| + (10 : ℚ) ^ (-4 : Int) / 2 < (10 : ℚ) ^ (24 : Int)) :
    ∃ usd, convertToUsd amount rate = .ok usd := by
  obtain ⟨n₁, c₁, e₁, rfl⟩ := Decimal.exists_finite ha
  obtain ⟨n₂, c₂, e₂, rfl⟩ := Decimal.exists_finite hr
  rw [Decimal.toRat_mul, Decimal.abs_toRat] at h
  obtain ⟨c, e, hfix, hval⟩ := Decimal.fix_lt .default (n₁ != n₂) (n := 24) (by decide) (by decide) h
  obtain ⟨usd, hq, -, -⟩ := Decimal.quantize_ok .default (n₁ != n₂) c e 4 (by decide) (by decide) hval
  refine ⟨usd, ?_⟩
  rw [convertToUsd_eq ha hr hpos, Decimal.mul_finite, hfix]
  show ofSignals (Decimal.quantize .default (-((4 : Nat) : Int)) _) = _
  rw [hq]
  rfl

/-- From there on it raises a decimal exception. -/
theorem convertToUsd_raises {amount rate : Decimal} (ha : amount.isFinite = true) (hr : rate.isFinite = true)
    (hpos : rate.nonPositive = false)
    (h : (10 : ℚ) ^ (24 : Int) ≤ |amount.toRat * rate.toRat| + (10 : ℚ) ^ (-4 : Int) / 2) :
    ∃ s, convertToUsd amount rate = .error (.ofSignal s) := by
  obtain ⟨n₁, c₁, e₁, rfl⟩ := Decimal.exists_finite ha
  obtain ⟨n₂, c₂, e₂, rfl⟩ := Decimal.exists_finite hr
  rw [Decimal.toRat_mul, Decimal.abs_toRat] at h
  rw [convertToUsd_eq ha hr hpos, Decimal.mul_finite]
  rcases Decimal.fix_ge .default (n₁ != n₂) (n := 24) (by decide) h with hover | ⟨c, e, hfix, hval⟩
  · exact ⟨.overflow, by rw [hover]⟩
  · refine ⟨.invalidOperation, ?_⟩
    rw [hfix]
    show ofSignals (Decimal.quantize .default (-((4 : Nat) : Int)) _) = _
    rw [Decimal.quantize_error .default (n₁ != n₂) 4 hval]
    rfl

/-- A product of at most 28 digits is rounded once, half away from zero, to four places. -/
theorem convertToUsd_exact {amount rate : Decimal} (ha : amount.isFinite = true) (hr : rate.isFinite = true)
    (hpos : rate.nonPositive = false) {M : Nat} {K : Int}
    (hv : |amount.toRat * rate.toRat| = (M : ℚ) * (10 : ℚ) ^ K) (hM : M < 10 ^ 28) (hK : -1000026 ≤ K)
    (h : |amount.toRat * rate.toRat| + (10 : ℚ) ^ (-4 : Int) / 2 < (10 : ℚ) ^ (24 : Int)) :
    ∃ usd, convertToUsd amount rate = .ok usd ∧ usd.isFinite = true ∧
      usd.toRat = Decimal.roundHalfAway 4 (amount.toRat * rate.toRat) := by
  have hhi : |amount.toRat * rate.toRat| < (10 : ℚ) ^ Decimal.Context.default.emax := by
    have h1 : (0 : ℚ) < (10 : ℚ) ^ (-4 : Int) / 2 := by positivity
    have h2 : (10 : ℚ) ^ (24 : Int) ≤ (10 : ℚ) ^ Decimal.Context.default.emax :=
      zpow_le_zpow_right₀ (by norm_num) (by decide)
    linarith
  obtain ⟨neg, c, e, hmul, hval⟩ := Decimal.mul_exact .default ha hr hv hM hK hhi
  rw [← hval, Decimal.abs_toRat] at h
  obtain ⟨usd, hq, hfin, husd⟩ := Decimal.quantize_ok .default neg c e 4 (by decide) (by decide) h
  refine ⟨usd, ?_, hfin, by rw [husd, hval]⟩
  rw [convertToUsd_eq ha hr hpos, hmul]
  show ofSignals (Decimal.quantize .default (-((4 : Nat) : Int)) _) = _
  rw [hq]
  rfl

/-- What was converted is the exact product rounded once, if the product has at most 28 digits. -/
theorem convertToUsd_rounded {amount rate usd : Decimal} (h : convertToUsd amount rate = .ok usd) {p : Nat}
    (hplaces : Decimal.HasPlaces p (amount.toRat * rate.toRat)) (hp : p ≤ 1000026)
    (hdigits : Decimal.FewDigits 28 (amount.toRat * rate.toRat)) :
    usd.toRat = Decimal.roundHalfAway 4 (amount.toRat * rate.toRat) := by
  obtain ⟨ha, hr, hpos⟩ := convertToUsd_ok h
  obtain ⟨m, k, hm, hk, habs⟩ := hdigits.from_places hplaces
  rcases lt_or_ge (|amount.toRat * rate.toRat| + (10 : ℚ) ^ (-4 : Int) / 2) ((10 : ℚ) ^ (24 : Int))
    with hlt | hge
  · obtain ⟨usd', h', -, hval⟩ := convertToUsd_exact ha hr hpos habs hm (by omega) hlt
    rw [Except.ok.inj (h.symm.trans h'), hval]
  · obtain ⟨signal, herr⟩ := convertToUsd_raises ha hr hpos hge
    exact absurd (h.symm.trans herr) (by simp)

end App
