/-
Rounding twice: first half to even to a number of digits, as the context does with every product,
and then half away from zero to a number of places. The result is that of the second rounding alone
unless the first one carries a number to a tie of the second, or decides one itself; the main result
says exactly when.
-/
import EventService.Decimal.Places

namespace Decimal

/-! ## Ties -/

/-- The number half way between `n` and `n + 1` in the last of `scale` places. -/
def tie (scale n : Nat) : ℚ := ((n : ℚ) + 1 / 2) / 10 ^ scale

/-- Two numbers are rounded alike if and only if they lie on the same side of every tie. -/
theorem roundHalfAway_eq_iff {scale : Nat} {x y : ℚ} (hx : 0 ≤ x) (hy : 0 ≤ y) :
    roundHalfAway scale x = roundHalfAway scale y ↔ ∀ n, tie scale n ≤ x ↔ tie scale n ≤ y := by
  have hp : (0 : ℚ) < 10 ^ scale := by positivity
  -- a tie is reached exactly where the rounded number is behind it
  have hreach : ∀ z : ℚ, ∀ n : ℕ, tie scale n ≤ z ↔ (n : ℤ) + 1 ≤ ⌊z * 10 ^ scale + 1 / 2⌋ := by
    intro z n
    unfold tie
    rw [div_le_iff₀ hp, Int.le_floor]
    push_cast
    constructor
    · intro h
      linarith
    · intro h
      linarith
  have hnonneg : ∀ z : ℚ, 0 ≤ z → 0 ≤ ⌊z * 10 ^ scale + 1 / 2⌋ := by
    intro z hz
    rw [Int.le_floor]
    push_cast
    positivity
  rw [roundHalfAway_nonneg scale hx, roundHalfAway_nonneg scale hy, div_left_inj' hp.ne', Int.cast_inj]
  constructor
  · intro h n
    rw [hreach, hreach, h]
  · intro h
    simp only [hreach] at h
    have hx' := hnonneg x hx
    have hy' := hnonneg y hy
    generalize ⌊x * 10 ^ scale + 1 / 2⌋ = a at h hx'
    generalize ⌊y * 10 ^ scale + 1 / 2⌋ = b at h hy'
    rcases lt_trichotomy a b with hlt | heq | hlt
    · have := (h a.toNat).2 (by omega)
      omega
    · exact heq
    · have := (h b.toNat).1 (by omega)
      omega

/-! ## Both roundings -/

variable {c k m : Nat} {e low : Int}

/-- A positive number that is rounded once: if the unit of the first rounding is below the last place
of the second, no tie lies above the number within half a unit, or, if it is the tenth of that place,
within less than half a unit; if it is that place, the number is no tie that half to even leaves
below. -/
def RoundsOnce (prec scale : Nat) (x : ℚ) : Prop :=
  ∀ E : Int, (10 : ℚ) ^ (E - 1) ≤ x → x < (10 : ℚ) ^ E → ∀ n,
    (E - prec < -scale → x < tie scale n → (10 : ℚ) ^ (E - prec) / 2 < tie scale n - x ∨
      (tie scale n - x = (10 : ℚ) ^ (E - prec) / 2 ∧ E - prec = -scale - 1)) ∧
    (E - prec = -scale → x = tie scale n → n % 2 = 1)

/-- There is one exponent a number lies below and not ten times below. -/
theorem exponent_unique {x : ℚ} {E E' : Int} (h : (10 : ℚ) ^ (E - 1) ≤ x) (h' : x < (10 : ℚ) ^ E)
    (hE : (10 : ℚ) ^ (E' - 1) ≤ x) (hE' : x < (10 : ℚ) ^ E') : E = E' := by
  have h1 := (zpow_lt_zpow_iff_right₀ (by norm_num : (1 : ℚ) < 10)).1 (lt_of_le_of_lt h hE')
  have h2 := (zpow_lt_zpow_iff_right₀ (by norm_num : (1 : ℚ) < 10)).1 (lt_of_le_of_lt hE h')
  omega

/-- A tie as a multiple of a unit below its place: an odd one for the tenth of the place. -/
theorem tie_eq_units {scale n : Nat} (h : low < -(scale : Int)) :
    ∃ m : ℕ, tie scale n = (m : ℚ) * (10 : ℚ) ^ low ∧ (m % 2 = 1 ↔ low = -scale - 1) := by
  obtain ⟨j, hj⟩ : ∃ j : ℕ, low = -scale - 1 - j := ⟨(-scale - 1 - low).toNat, by omega⟩
  refine ⟨(10 * n + 5) * 10 ^ j, ?_, ?_⟩
  · have hplaces : (10 : ℚ) ^ low * (10 ^ scale * (10 * 10 ^ j)) = 1 := by
      rw [← zpow_natCast, ← zpow_natCast, ← zpow_one_add₀ (by norm_num), ← zpow_add₀ (by norm_num),
        ← zpow_add₀ (by norm_num), hj, show -(scale : Int) - 1 - j + (scale + (1 + j)) = 0 by ring, zpow_zero]
    unfold tie
    rw [div_eq_iff (by positivity)]
    push_cast
    calc (n : ℚ) + 1 / 2 = (n + 1 / 2) * ((10 : ℚ) ^ low * (10 ^ scale * (10 * 10 ^ j))) := by
          rw [hplaces, mul_one]
      _ = (10 * (n : ℚ) + 5) * 10 ^ j * (10 : ℚ) ^ low * 10 ^ scale := by ring
  · cases j with
    | zero => exact iff_of_true (by omega) (by omega)
    | succ j =>
      have heven : (10 * n + 5) * 10 ^ (j + 1) % 2 = 0 := by
        rw [pow_succ, Nat.mul_mod, Nat.mul_mod (10 ^ j)]
        simp
      exact iff_of_false (by omega) (by omega)

/-- A tie of the place itself lies half a unit below the next number of that place. -/
theorem tie_eq_place {scale n : Nat} :
    tie scale n = ((n + 1 : ℕ) : ℚ) * (10 : ℚ) ^ (-(scale : Int)) - (10 : ℚ) ^ (-(scale : Int)) / 2 := by
  unfold tie
  rw [zpow_neg, zpow_natCast]
  push_cast
  ring

/-- A tie of a place above the unit, on the side of a number before and after the first rounding. -/
theorem tie_le_iff_above {scale n : Nat} (hk : low - e = k) (hlow : low < -(scale : Int)) :
    (tie scale n ≤ (divHalfEven c k : ℚ) * (10 : ℚ) ^ low ↔ tie scale n ≤ (c : ℚ) * (10 : ℚ) ^ e) ↔
      ((c : ℚ) * (10 : ℚ) ^ e < tie scale n →
        (10 : ℚ) ^ low / 2 < tie scale n - (c : ℚ) * (10 : ℚ) ^ e ∨
        (tie scale n - (c : ℚ) * (10 : ℚ) ^ e = (10 : ℚ) ^ low / 2 ∧ low = -scale - 1)) := by
  have hu : (0 : ℚ) < (10 : ℚ) ^ low := by positivity
  obtain ⟨m, htie, hodd⟩ := tie_eq_units (n := n) hlow
  rw [htie]
  by_cases hm : m % 2 = 1
  · -- the tie is reached from above half a unit below it
    rw [odd_unit_le_iff hk hm]
    generalize (c : ℚ) * (10 : ℚ) ^ e = x
    generalize (10 : ℚ) ^ low = u at hu ⊢
    constructor
    · intro h hx
      rcases lt_trichotomy (u / 2) (m * u - x) with h1 | h1 | h1
      · exact Or.inl h1
      · exact Or.inr ⟨h1.symm, hodd.1 hm⟩
      · have hle := h.1 (by linarith)
        linarith
    · intro h
      constructor
      · intro hx
        by_contra hlt
        rcases h (not_le.1 hlt) with h1 | ⟨h1, -⟩ <;> linarith
      · intro hx
        linarith
  · -- the tie is reached from half a unit below it on
    rw [even_unit_le_iff hk (by omega)]
    generalize (c : ℚ) * (10 : ℚ) ^ e = x
    generalize (10 : ℚ) ^ low = u at hu ⊢
    constructor
    · intro h hx
      by_contra hno
      have hle := h.1 (by linarith [not_lt.1 fun h1 => hno (Or.inl h1)])
      linarith
    · intro h
      constructor
      · intro hx
        by_contra hlt
        rcases h (not_le.1 hlt) with h1 | ⟨-, h1⟩
        · linarith
        · exact hm (hodd.2 h1)
      · intro hx
        linarith

/-- A number of the place reaches a tie if it reaches the next number. -/
theorem tie_le_place_iff {scale n m : Nat} : tie scale n ≤ (m : ℚ) * (10 : ℚ) ^ (-(scale : Int)) ↔
    ((n + 1 : ℕ) : ℚ) * (10 : ℚ) ^ (-(scale : Int)) ≤ (m : ℚ) * (10 : ℚ) ^ (-(scale : Int)) := by
  have hu : (0 : ℚ) < (10 : ℚ) ^ (-(scale : Int)) := by positivity
  rw [tie_eq_place]
  constructor
  · intro h
    rw [mul_le_mul_iff_of_pos_right hu, Nat.cast_le]
    by_contra hlt
    have hle : (m : ℚ) + 1 ≤ ((n + 1 : ℕ) : ℚ) := by exact_mod_cast not_le.1 hlt
    nlinarith
  · intro h
    linarith

/-- A tie of the unit's own place: the first rounding decides it. -/
theorem tie_le_iff_place {scale n : Nat} (hk : -(scale : Int) - e = k) :
    (tie scale n ≤ (divHalfEven c k : ℚ) * (10 : ℚ) ^ (-(scale : Int)) ↔ tie scale n ≤ (c : ℚ) * (10 : ℚ) ^ e) ↔
      ((c : ℚ) * (10 : ℚ) ^ e = tie scale n → n % 2 = 1) := by
  have hu : (0 : ℚ) < (10 : ℚ) ^ (-(scale : Int)) := by positivity
  rw [tie_le_place_iff]
  by_cases hn : n % 2 = 1
  · rw [even_unit_le_iff hk (by omega), tie_eq_place]
    refine iff_of_true ?_ fun _ => hn
    constructor
    · intro h
      linarith
    · intro h
      linarith
  · rw [odd_unit_le_iff hk (by omega), tie_eq_place]
    generalize ((n + 1 : ℕ) : ℚ) * (10 : ℚ) ^ (-(scale : Int)) = t
    generalize (c : ℚ) * (10 : ℚ) ^ e = x
    generalize (10 : ℚ) ^ (-(scale : Int)) = u at hu ⊢
    constructor
    · intro h hx
      have hlt := h.2 hx.ge
      linarith
    · intro h
      constructor
      · intro hlt
        linarith
      · intro hle
        rcases hle.lt_or_eq with h1 | h1
        · linarith
        · exact absurd (h h1.symm) hn

/-- One tie, on the side of a number before and after the first rounding. -/
theorem tie_le_iff {scale n : Nat} (hk : low - e = k) (hlow : low ≤ -(scale : Int)) :
    (tie scale n ≤ (divHalfEven c k : ℚ) * (10 : ℚ) ^ low ↔ tie scale n ≤ (c : ℚ) * (10 : ℚ) ^ e) ↔
      (low < -scale → (c : ℚ) * (10 : ℚ) ^ e < tie scale n →
        (10 : ℚ) ^ low / 2 < tie scale n - (c : ℚ) * (10 : ℚ) ^ e ∨
        (tie scale n - (c : ℚ) * (10 : ℚ) ^ e = (10 : ℚ) ^ low / 2 ∧ low = -scale - 1)) ∧
      (low = -scale → (c : ℚ) * (10 : ℚ) ^ e = tie scale n → n % 2 = 1) := by
  rcases hlow.lt_or_eq with hlt | rfl
  · rw [tie_le_iff_above hk hlt]
    exact ⟨fun h => ⟨fun _ => h, fun heq => absurd heq hlt.ne⟩, fun h => h.1 hlt⟩
  · rw [tie_le_iff_place hk]
    exact ⟨fun h => ⟨fun hlt => absurd hlt (lt_irrefl _), fun _ => h⟩, fun h => h.2 rfl⟩

/-- What fits into the context is a coefficient with the digits below the unit rounded away, if only
digits that are zeros. -/
theorem fix_rounds (ctx : Context) (neg : Bool) {c' : Nat} {e' : Int} (hc : c ≠ 0)
    (hfix : fix ctx neg c e = .ok (.finite neg c' e')) :
    ∃ (d k : Nat) (e₀ : Int), ctx.low c e - e₀ = k ∧ (d : ℚ) * (10 : ℚ) ^ e₀ = (c : ℚ) * (10 : ℚ) ^ e ∧
      (c' : ℚ) * (10 : ℚ) ^ e' = (divHalfEven d k : ℚ) * (10 : ℚ) ^ ctx.low c e := by
  rcases fix_spec ctx neg (e := e) hc with ⟨herr, -⟩ | ⟨c'', e'', hok, hval⟩
  · cases hfix.symm.trans herr
  obtain ⟨-, rfl, rfl⟩ := Decimal.finite.inj (Except.ok.inj (hfix.symm.trans hok))
  by_cases hlt : e < ctx.low c e
  · rw [if_pos hlt] at hval
    exact ⟨c, (ctx.low c e - e).toNat, e, by omega, rfl, hval⟩
  · rw [if_neg hlt] at hval
    refine ⟨c * 10 ^ (e - ctx.low c e).toNat, 0, ctx.low c e, by simp, ?_, ?_⟩
    · rw [zpow_split (not_lt.1 hlt)]
      push_cast
      ring
    · rw [hval, divHalfEven_of_dvd (one_dvd _), pow_zero, Nat.div_one, zpow_split (not_lt.1 hlt)]
      push_cast
      ring

/-- Fitting a product into the context and then rounding it to `scale` places rounds it once exactly
if the product is such a number. -/
theorem roundHalfAway_fix_iff (ctx : Context) (neg : Bool) {scale c' : Nat} {e' : Int} (hc : c ≠ 0)
    (hlo : ctx.etiny ≤ (digits c : Int) + e - ctx.prec) (hhi : (digits c : Int) + e - ctx.prec ≤ -(scale : Int))
    (hfix : fix ctx neg c e = .ok (.finite neg c' e')) :
    roundHalfAway scale ((c' : ℚ) * (10 : ℚ) ^ e') = roundHalfAway scale ((c : ℚ) * (10 : ℚ) ^ e) ↔
      RoundsOnce ctx.prec scale ((c : ℚ) * (10 : ℚ) ^ e) := by
  have hlow : ctx.low c e = (digits c : Int) + e - ctx.prec := max_eq_left hlo
  obtain ⟨d, k, e₀, hk, hd, hval⟩ := fix_rounds ctx neg hc hfix
  rw [hlow] at hk hval
  have hbelow := zpow_le_val hc e
  have habove := val_lt_zpow c e
  rw [roundHalfAway_eq_iff (by positivity) (by positivity), hval]
  rw [← hd] at hbelow habove ⊢
  constructor
  · intro h E hE hE' n
    obtain rfl := exponent_unique hbelow habove hE hE'
    exact (tie_le_iff hk hhi).1 (h n)
  · intro h n
    exact (tie_le_iff hk hhi).2 (h _ hbelow habove n)

/-- A number of as many digits as the first rounding keeps is rounded once. -/
theorem RoundsOnce.of_fewDigits {prec scale : Nat} {x : ℚ} (h : FewDigits prec x) : RoundsOnce prec scale x := by
  intro E hE hE' n
  have hx : 0 < x := lt_of_lt_of_le (by positivity) hE
  obtain ⟨m, j, hm, hval⟩ := h
  rw [abs_of_pos hx] at hval
  -- its last digit is not below the unit, so it is a multiple of the unit
  have hj : E - prec ≤ j := by
    have hlt : (10 : ℚ) ^ (E - 1) < (10 : ℚ) ^ ((prec : Int) + j) := by
      rw [zpow_add₀ (by norm_num), zpow_natCast]
      refine lt_of_le_of_lt hE (hval ▸ mul_lt_mul_of_pos_right ?_ (by positivity))
      exact_mod_cast hm
    have := (zpow_lt_zpow_iff_right₀ (by norm_num : (1 : ℚ) < 10)).1 hlt
    omega
  have hunits : x = ((m * 10 ^ (j - (E - prec)).toNat : ℕ) : ℚ) * (10 : ℚ) ^ (E - prec) := by
    rw [hval, zpow_split hj]
    push_cast
    ring
  rcases le_or_gt (E - prec) (-(scale : Int)) with hle | hgt
  · have hkept := (tie_le_iff (n := n) (c := m * 10 ^ (j - (E - prec)).toNat) (k := 0) (e := E - prec) (by simp) hle).1
      (by rw [divHalfEven_of_dvd (one_dvd _), pow_zero, Nat.div_one])
    rwa [← hunits] at hkept
  · exact ⟨fun h => absurd h (by omega), fun h => absurd h (by omega)⟩

end Decimal
