/-
Whether a row's conversion can be checked from the row. The event's amount is converted at the rate the
source answered, in a context of 28 digits, but the amount is stored at four decimal places and the rate at
ten; the row bears out its amount in USD as long as none of these roundings changes anything.
-/
import EventService.Run.Conversions

namespace App

open Store

variable {P : Type} (S : Service P)

/-- The amount in USD is the product of the row's own amount and rate, rounded half away from zero. -/
def Auditable (t : Transaction) : Prop := t.amountUsd = Decimal.roundHalfAway 4 (t.amount * t.rate)

/-- Every rate the source answered is finite and has at most ten decimal places, and multiplied by
any published amount in its currency it has at most 28 digits. -/
def AuditableRates (w : World P) : Prop :=
  ∀ currency answer, (currency, .ok answer) ∈ w.fetched → answer.isFinite = true ∧
    Decimal.HasPlaces 10 answer.toRat ∧
    ∀ event, Published S w event → PyStr.upper event.currency = currency →
      Decimal.FewDigits 28 (event.amount.toRat * answer.toRat)

instance (t : Transaction) : Decidable (Auditable t) := inferInstanceAs (Decidable (_ = _))

variable {S}

/-- What the columns hold of a conversion that was rounded once, of an amount and at a rate that fit theirs. -/
theorem auditable_stored {v : Values} (hamount : Decimal.HasPlaces 4 v.amount.toRat)
    (hrate : Decimal.HasPlaces 10 v.rate.toRat)
    (husd : v.amountUsd.toRat = Decimal.roundHalfAway 4 (v.amount.toRat * v.rate.toRat)) :
    Auditable v.stored := by
  show Decimal.roundHalfAway 4 v.amountUsd.toRat =
    Decimal.roundHalfAway 4 (Decimal.roundHalfAway 4 v.amount.toRat * Decimal.roundHalfAway 10 v.rate.toRat)
  rw [Decimal.roundHalfAway_of_hasPlaces hamount, Decimal.roundHalfAway_of_hasPlaces hrate, husd]
  exact Decimal.roundHalfAway_of_hasPlaces (Decimal.hasPlaces_roundHalfAway ..)

/-- In every reachable state in which only amounts of at most four decimal places were published, and the
source has only answered rates of at most ten, whose products with the published amounts have at most 28
digits, every row is auditable. -/
theorem stored_conversions_are_auditable {s : System P} (h : System.Reachable S s)
    (hamounts : AmountsFit S s.world) (hrates : AuditableRates S s.world) :
    ∀ v ∈ s.world.table.rows, Auditable v.stored := by
  intro v hv
  have hi := (ok_of_reachable h).inv
  obtain ⟨event, hpub, -, hrate, husd, hvalues⟩ := hi.made v (Or.inl hv)
  have hfrom : RateFrom s.world event.currency v.rate := hi.rated _ hrate
  have hamount : v.amount = event.amount := by rw [hvalues]; rfl
  have hfits := hamounts.amount hpub
  obtain ⟨hplaces, hdigits⟩ : Decimal.HasPlaces 10 v.rate.toRat ∧
      Decimal.FewDigits 28 (event.amount.toRat * v.rate.toRat) := by
    -- the base currency's rate is one, whatever the source answers
    rcases hfrom.answered hi fun c a hmem => (hrates c a hmem).1 with ⟨-, hone⟩ | hanswer
    · have hvalue : v.rate.toRat = 1 := by rw [hone]; simp [Decimal.toRat]
      rw [hvalue]
      have hone' : Decimal.FewDigits 1 1 := ⟨1, 0, by norm_num, by norm_num⟩
      exact ⟨⟨10 ^ 10, by norm_num⟩, (fewDigits_product hfits hone').mono (by decide)⟩
    · obtain ⟨-, hplaces, hdigits⟩ := hrates _ _ hanswer
      exact ⟨hplaces, hdigits event hpub rfl⟩
  refine auditable_stored (hamount ▸ hfits.places) hplaces ?_
  rw [hamount]
  exact convertToUsd_rounded husd (hfits.places.mul hplaces) (by decide) hdigits

/-- A published event is converted at the given rate and stored. -/
def conversionTrace (amount rate : Decimal) : List Action :=
  Trace.publish 0 (Trace.document "a" amount "IDR") ++ Trace.boot 0 ++
  Trace.calls 0 .consume 2 ++ [.move 0 .consume] ++ Trace.handles 0 .consume 0 1 ++
  [.handle 0 .consume 0 (Trace.answered (.ok rate))] ++ Trace.handles 0 .consume 0 7

/-- One row was stored, converted at the given rate. -/
def storesConversion (amount rate : Decimal) (s : System EventIn) : Bool :=
  s.world.table.rows.map (fun v => (v.amount, v.rate)) = [(amount, rate)]

/-- An event with this amount is stored, converted at this rate, and its row is not auditable. -/
def Unauditable (amount rate : Decimal) : Prop :=
  ∃ s, System.Reachable (documentService {}) s ∧ storesConversion amount rate s = true ∧
    ∀ v ∈ s.world.table.rows, ¬Auditable v.stored

theorem unauditable_of_trace {amount rate : Decimal}
    (h : ((System.initial EventIn).runActions (documentService {}) (conversionTrace amount rate)).any (fun s =>
      storesConversion amount rate s && decide (∀ v ∈ s.world.table.rows, ¬Auditable v.stored)) = true) :
    Unauditable amount rate := by
  obtain ⟨s, hs, hp⟩ := System.exists_reachable (documentService {}) (conversionTrace amount rate) _ h
  rw [Bool.and_eq_true, decide_eq_true_eq] at hp
  exact ⟨s, hs, hp⟩

/-- A billion at a rate with 14 decimal places is stored with a rate that yields another amount; an amount of
20 digits at a rate of 15 digits has a product of 34 digits, which is rounded twice; and an amount that is no
multiple of a ten-thousandth is stored as another one than was converted. -/
theorem unauditable_conversions_are_stored :
    Unauditable (.finite false (10 ^ 9) 0) (.finite false 12345678901 (-14)) ∧
    Unauditable (.finite false 99999999904999999999 (-4)) (.finite false 100000000000001 (-10)) ∧
    Unauditable (.finite false 29999999999999999999999999996 (-32)) (.finite false 25 (-1)) :=
  ⟨unauditable_of_trace (by decide +kernel), unauditable_of_trace (by decide +kernel),
    unauditable_of_trace (by decide +kernel)⟩

theorem conversionTrace_is_auditable : ∃ s, System.Reachable (documentService {}) s ∧
    storesConversion (.finite false 5 0) (.finite false 10850 (-4)) s = true ∧
    ∀ v ∈ s.world.table.rows, Auditable v.stored := by
  obtain ⟨s, hs, hp⟩ := System.exists_reachable (documentService {})
    (conversionTrace (.finite false 5 0) (.finite false 10850 (-4)))
    (fun s => storesConversion (.finite false 5 0) (.finite false 10850 (-4)) s &&
      decide (∀ f ∈ s.world.fetched, f.2 = .ok (.finite false 10850 (-4))) &&
      decide (∀ e ∈ s.world.stream.added, e.payload.amount = .finite false 5 0)) (by decide +kernel)
  rw [Bool.and_eq_true, Bool.and_eq_true, decide_eq_true_eq, decide_eq_true_eq] at hp
  have hamounts : AmountsFit (documentService {}) s.world := by
    rintro event ⟨e, he, hpayload⟩
    have hamount : event.amount = .finite false 5 0 := by
      rw [← hp.2 e he, hpayload]
      rfl
    exact ⟨50000, by norm_num [hamount, Decimal.toRat]⟩
  refine ⟨s, hs, hp.1.1, stored_conversions_are_auditable hs hamounts fun currency answer hmem => ?_⟩
  obtain rfl : answer = .finite false 10850 (-4) := Except.ok.inj (hp.1.2 _ hmem)
  refine ⟨rfl, ⟨10850 * 10 ^ 6, by norm_num [Decimal.toRat]⟩, fun event hpub _ => ?_⟩
  have hdigits : Decimal.FewDigits 5 (Decimal.finite false 10850 (-4)).toRat :=
    ⟨10850, -4, by norm_num, by norm_num [Decimal.toRat]⟩
  exact (fewDigits_product (hamounts.amount hpub) hdigits).mono (by decide)

end App
