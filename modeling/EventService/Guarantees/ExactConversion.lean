/-
Whether a conversion is the exact product rounded once. The product is rounded half to even to the 28
digits of the context before it is rounded half up to four places: it must stay half a step below
`10^24`, where the quantization would need more digits, and the first rounding must not carry it to a
tie of the second, or decide one itself.
-/
import EventService.Decimal.TwoRoundings
import EventService.Model.Money
import EventService.Model.Transactions

namespace App

/-- A positive rate that its column `NUMERIC(24, 10)` holds as it is. -/
structure RateFits (rate : Decimal) : Prop where
  finite : rate.isFinite = true
  positive : rate.nonPositive = false
  column : HoldsNumeric 10 rate.toRat

/-- The conversion yields the exact product, rounded once, half away from zero, to four places. -/
def ConvertsExactly (amount rate : Decimal) : Prop :=
  ∃ usd, convertToUsd amount rate = .ok usd ∧ usd.toRat = Decimal.roundHalfAway 4 (amount.toRat * rate.toRat)

/-- As long as it does not fail, a conversion rounds the product to four places after fitting it into
the context. -/
theorem convertToUsd_fixed {n₁ n₂ : Bool} {c₁ c₂ : Nat} {e₁ e₂ : Int}
    (hpos : (Decimal.finite n₂ c₂ e₂).nonPositive = false)
    (h : ((c₁ * c₂ : ℕ) : ℚ) * (10 : ℚ) ^ (e₁ + e₂) + (10 : ℚ) ^ (-4 : Int) / 2 < (10 : ℚ) ^ (24 : Int)) :
    ∃ c e usd, Decimal.fix .default (n₁ != n₂) (c₁ * c₂) (e₁ + e₂) = .ok (.finite (n₁ != n₂) c e) ∧
      convertToUsd (.finite n₁ c₁ e₁) (.finite n₂ c₂ e₂) = .ok usd ∧
      usd.toRat = Decimal.roundHalfAway 4 (Decimal.finite (n₁ != n₂) c e).toRat := by
  obtain ⟨c, e, hfix, hval⟩ := Decimal.fix_lt .default (n₁ != n₂) (n := 24) (by decide) (by decide) h
  obtain ⟨usd, hq, -, husd⟩ := Decimal.quantize_ok .default (n₁ != n₂) c e 4 (by decide) (by decide) hval
  refine ⟨c, e, usd, hfix, ?_, husd⟩
  rw [convertToUsd_eq rfl rfl hpos, Decimal.mul_finite, hfix]
  show ofSignals (Decimal.quantize .default (-((4 : Nat) : Int)) _) = _
  rw [hq]
  rfl

/-- Rounding two numbers of one sign gives the same if it does so of their absolute values. -/
theorem roundHalfAway_signed_eq_iff (neg : Bool) {x y : ℚ} (hx : 0 ≤ x) (hy : 0 ≤ y) :
    Decimal.roundHalfAway 4 ((if neg then -1 else 1) * x) = Decimal.roundHalfAway 4 ((if neg then -1 else 1) * y) ↔
      Decimal.roundHalfAway 4 x = Decimal.roundHalfAway 4 y := by
  rw [Decimal.roundHalfAway_signed 4 neg hx, Decimal.roundHalfAway_signed 4 neg hy]
  cases neg <;> simp

/-- Fitting a number of at most 14 places below `10^24` into the context leaves its rounding to four
places alone if and only if it is rounded once. -/
theorem fix_rounds_once_iff {neg : Bool} {c₀ c : Nat} {e₀ e : Int}
    (hplaces : Decimal.HasPlaces 14 (Decimal.finite neg c₀ e₀).toRat)
    (hlt : (c₀ : ℚ) * (10 : ℚ) ^ e₀ < (10 : ℚ) ^ (24 : Int))
    (hfix : Decimal.fix .default neg c₀ e₀ = .ok (.finite neg c e)) :
    Decimal.roundHalfAway 4 ((c : ℚ) * (10 : ℚ) ^ e) = Decimal.roundHalfAway 4 ((c₀ : ℚ) * (10 : ℚ) ^ e₀) ↔
      Decimal.RoundsOnce 28 4 ((c₀ : ℚ) * (10 : ℚ) ^ e₀) := by
  rcases eq_or_ne c₀ 0 with rfl | hc
  · -- zero fits into the context as it is
    have hzero : c = 0 := by
      unfold Decimal.fix at hfix
      rw [if_pos rfl] at hfix
      exact (Decimal.finite.inj (Except.ok.inj hfix)).2.1.symm
    rw [hzero, Nat.cast_zero, zero_mul, zero_mul]
    exact iff_of_true rfl (Decimal.RoundsOnce.of_fewDigits ⟨0, 0, by norm_num, by norm_num⟩)
  · have hne : (Decimal.finite neg c₀ e₀).toRat ≠ 0 := by
      rw [← abs_pos, Decimal.abs_toRat]
      have := Nat.pos_of_ne_zero hc
      positivity
    have hlo := hplaces.le_abs hne
    rw [Decimal.abs_toRat] at hlo
    have hlow := Decimal.le_digits_add_of_le_val hlo
    have hhigh := Decimal.digits_add_le_of_val_lt hc hlt
    apply Decimal.roundHalfAway_fix_iff .default neg hc ?_ ?_ hfix
    · show (-999999 - 28 + 1 : Int) ≤ Decimal.digits c₀ + e₀ - 28
      omega
    · show (Decimal.digits c₀ : Int) + e₀ - 28 ≤ -4
      omega

/-- For every amount of the schema's digits and every rate the column holds: the conversion is exact if
and only if the product stays half a step below `10^24` and is rounded once. -/
theorem convertToUsd_exact_iff {amount rate : Decimal} (ha : AmountFits amount) (hr : RateFits rate) :
    ConvertsExactly amount rate ↔
      |amount.toRat * rate.toRat| + (10 : ℚ) ^ (-4 : Int) / 2 < (10 : ℚ) ^ (24 : Int) ∧
        Decimal.RoundsOnce 28 4 |amount.toRat * rate.toRat| := by
  have hplaces : Decimal.HasPlaces 14 (amount.toRat * rate.toRat) := ha.places.mul hr.column.1
  have hfin := ha.finite
  obtain ⟨n₁, c₁, e₁, rfl⟩ := Decimal.exists_finite hfin
  obtain ⟨n₂, c₂, e₂, rfl⟩ := Decimal.exists_finite hr.finite
  by_cases hbound : |(Decimal.finite n₁ c₁ e₁).toRat * (Decimal.finite n₂ c₂ e₂).toRat| +
      (10 : ℚ) ^ (-4 : Int) / 2 < (10 : ℚ) ^ (24 : Int)
  · rw [and_iff_right hbound]
    rw [Decimal.toRat_mul] at hplaces hbound ⊢
    rw [Decimal.abs_toRat] at hbound ⊢
    obtain ⟨c, e, usd, hfix, hok, husd⟩ := convertToUsd_fixed hr.positive hbound
    -- the conversion succeeds, so it is exact if both roundings are one
    have hexact : ConvertsExactly (.finite n₁ c₁ e₁) (.finite n₂ c₂ e₂) ↔
        Decimal.roundHalfAway 4 ((c : ℚ) * (10 : ℚ) ^ e) =
          Decimal.roundHalfAway 4 (((c₁ * c₂ : ℕ) : ℚ) * (10 : ℚ) ^ (e₁ + e₂)) := by
      rw [← roundHalfAway_signed_eq_iff (n₁ != n₂) (by positivity) (by positivity)]
      unfold ConvertsExactly
      rw [Decimal.toRat_mul]
      constructor
      · rintro ⟨usd', hok', hval⟩
        obtain rfl := Except.ok.inj (hok.symm.trans hok')
        exact husd.symm.trans hval
      · intro heq
        exact ⟨usd, hok, husd.trans heq⟩
    rw [hexact]
    apply fix_rounds_once_iff hplaces ?_ hfix
    have : (0 : ℚ) < (10 : ℚ) ^ (-4 : Int) / 2 := by positivity
    linarith
  · refine iff_of_false ?_ fun h => hbound h.1
    rintro ⟨usd, hok, -⟩
    obtain ⟨signal, herr⟩ := convertToUsd_raises hfin hr.finite hr.positive (not_lt.1 hbound)
    cases hok.symm.trans herr

/-! ## Two products -/

/-- Ten euros. -/
theorem ten_euros_convert_exactly : ConvertsExactly (.finite false 1000 (-2)) (.finite false 10850 (-4)) := by
  refine (convertToUsd_exact_iff ⟨rfl, ⟨100000, ?_⟩, ?_⟩ ⟨rfl, rfl, ⟨10850000000, ?_⟩, ?_⟩).2 ⟨?_, ?_⟩
  · norm_num [Decimal.toRat]
  · norm_num [Decimal.toRat, abs_of_pos]
  · norm_num [Decimal.toRat]
  · norm_num [Decimal.toRat, abs_of_pos]
  · norm_num [Decimal.toRat, abs_of_pos]
  · refine Decimal.RoundsOnce.of_fewDigits ⟨10850000, -6, by norm_num, ?_⟩
    norm_num [Decimal.toRat, abs_of_pos]

/-- An amount of twenty digits at a rate of fifteen: the first rounding carries the product to a tie,
and the second one away from it. -/
theorem rounded_twice :
    AmountFits (.finite false 99999999904999999999 (-4)) ∧
      RateFits (.finite false 100000000000001 (-10)) ∧
      ¬ConvertsExactly (.finite false 99999999904999999999 (-4)) (.finite false 100000000000001 (-10)) := by
  refine ⟨⟨rfl, ⟨99999999904999999999, ?_⟩, ?_⟩, ⟨rfl, rfl, ⟨100000000000001, ?_⟩, ?_⟩, ?_⟩
  · norm_num [Decimal.toRat]
  · norm_num [Decimal.toRat, abs_of_pos]
  · norm_num [Decimal.toRat]
  · norm_num [Decimal.toRat, abs_of_pos]
  · rintro ⟨usd, hok, hval⟩
    have hconv : convertToUsd (.finite false 99999999904999999999 (-4)) (.finite false 100000000000001 (-10)) =
        .ok (.finite false 999999999050009999989991 (-4)) := by decide +kernel
    obtain rfl := Except.ok.inj (hconv.symm.trans hok)
    rw [Decimal.roundHalfAway_nonneg 4 (by norm_num [Decimal.toRat])] at hval
    have hfloor : ⌊(Decimal.finite false 99999999904999999999 (-4)).toRat *
        (Decimal.finite false 100000000000001 (-10)).toRat * 10 ^ 4 + 1 / 2⌋ = 999999999050009999989990 := by
      rw [Int.floor_eq_iff]
      norm_num [Decimal.toRat]
    rw [hfloor] at hval
    norm_num [Decimal.toRat] at hval

/-- A product of 26 digits before the point is not converted at all. -/
theorem too_large_to_convert :
    AmountFits (.finite false 1 15) ∧ RateFits (.finite false 1 10) ∧
      convertToUsd (.finite false 1 15) (.finite false 1 10) = .error (.ofSignal .invalidOperation) := by
  refine ⟨⟨rfl, ⟨10000000000000000000, ?_⟩, ?_⟩, ⟨rfl, rfl, ⟨100000000000000000000, ?_⟩, ?_⟩, by decide +kernel⟩
  · norm_num [Decimal.toRat]
  · norm_num [Decimal.toRat, abs_of_pos]
  · norm_num [Decimal.toRat]
  · norm_num [Decimal.toRat, abs_of_pos]

end App
