/-
What a committed row says about its conversion: at which rate the event it was made from was
converted, and that the amount in USD is the exact product rounded once as long as the product has
at most 28 digits.
-/
import EventService.Run.Reachable

namespace App

open Store

variable {P : Type} {S : Service P} {w : World P}

/-- Every rate the source answered is a finite decimal. -/
def FiniteRates (w : World P) : Prop :=
  ∀ currency answer, (currency, .ok answer) ∈ w.fetched → answer.isFinite = true

/-- The cache changes no finite answer: a rate is 1 for the base currency, and otherwise what the
source answered. -/
theorem RateFrom.answered {currency : PyStr} {rate : Decimal} (h : RateFrom w currency rate) (hi : Inv S w)
    (hfinite : FiniteRates w) :
    (PyStr.upper currency = baseCurrency ∧ rate = .finite false 1 0) ∨
      (PyStr.upper currency, .ok rate) ∈ w.fetched := by
  refine h.imp_right fun ⟨answer, hanswer, hrate⟩ => ?_
  rcases hrate with rfl | hparsed
  · exact hanswer
  · obtain ⟨neg, c, e, rfl⟩ := Decimal.exists_finite (hfinite _ _ hanswer)
    rw [Decimal.parse_str (hi.representable _ neg c e hanswer)] at hparsed
    rw [← Option.some.inj hparsed]
    exact hanswer

/-- Every amount that was published is a multiple of the last of the four decimal places. -/
def AmountsFit (S : Service P) (w : World P) : Prop :=
  ∀ event, Published S w event → Decimal.HasPlaces 4 event.amount.toRat

theorem AmountsFit.amount (h : AmountsFit S w) {event : TransactionEvent} (hpub : Published S w event) :
    AmountFits event.amount :=
  amountFits_of_places event.amount_digits (h event hpub)

/-- The amount of an event that fits its column has at most 20 digits, so its product with a rate has at most 20
more than the rate. -/
theorem fewDigits_product {amount : Decimal} {rate : ℚ} {n : Nat} (ha : AmountFits amount)
    (hr : Decimal.FewDigits n rate) : Decimal.FewDigits (20 + n) (amount.toRat * rate) := by
  obtain ⟨a, ha', hamount⟩ := ha.coefficient
  obtain ⟨m, k, hm, hrate⟩ := hr
  refine ⟨a * m, k - (4 : ℕ), ?_, ?_⟩
  · rw [pow_add]
    exact Nat.mul_lt_mul'' ha' hm
  · have hp : (10 : ℚ) ^ 4 ≠ 0 := by positivity
    have hvalue : |amount.toRat| = (a : ℚ) / 10 ^ 4 := by
      rw [eq_div_iff hp]
      exact hamount
    rw [abs_mul, hrate, hvalue, zpow_sub₀ (by norm_num), zpow_natCast]
    push_cast
    ring

end App
