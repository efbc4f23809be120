/-
Numbers with few decimal places and numbers with few digits. Rounding to a scale leaves the numbers
with that many places alone and yields nothing else; a product has as many places as its factors
together, and its digits can be counted from its last place.
-/
import EventService.Decimal.Rounding

namespace Decimal

/-! ## Decimal places -/

/-- A number with at most `scale` decimal places. -/
def HasPlaces (scale : Nat) (x : ℚ) : Prop := ∃ n : ℤ, x * 10 ^ scale = n

theorem HasPlaces.mono {p q : Nat} {x : ℚ} (h : HasPlaces p x) (hpq : p ≤ q) : HasPlaces q x := by
  obtain ⟨n, hn⟩ := h
  refine ⟨n * 10 ^ (q - p), ?_⟩
  push_cast
  rw [← hn, mul_assoc, ← pow_add, Nat.add_sub_cancel' hpq]

theorem HasPlaces.mul {p q : Nat} {x y : ℚ} (hx : HasPlaces p x) (hy : HasPlaces q y) :
    HasPlaces (p + q) (x * y) := by
  obtain ⟨m, hm⟩ := hx
  obtain ⟨n, hn⟩ := hy
  refine ⟨m * n, ?_⟩
  push_cast
  rw [← hm, ← hn, pow_add]
  ring

/-- Nothing but zero lies below the last place. -/
theorem HasPlaces.le_abs {p : Nat} {x : ℚ} (h : HasPlaces p x) (hx : x ≠ 0) : (10 : ℚ) ^ (-(p : Int)) ≤ |x| := by
  obtain ⟨n, hn⟩ := h
  have hp : (0 : ℚ) < 10 ^ p := by positivity
  have hne : n ≠ 0 := by
    rintro rfl
    rw [Int.cast_zero, mul_eq_zero] at hn
    exact hn.elim hx hp.ne'
  have hone : (1 : ℚ) ≤ |x| * 10 ^ p := by
    have habs : |x| * 10 ^ p = ((|n| : ℤ) : ℚ) := by
      rw [Int.cast_abs, ← hn, abs_mul, abs_of_pos hp]
    rw [habs]
    exact_mod_cast Int.one_le_abs hne
  rw [zpow_neg, zpow_natCast]
  exact (inv_le_iff_one_le_mul₀ hp).2 hone

theorem hasPlaces_of_abs {p : Nat} {x : ℚ} {m : Nat} (h : |x| * 10 ^ p = m) : HasPlaces p x := by
  rcases abs_choice x with hx | hx
  · exact ⟨m, by rw [← hx]; exact_mod_cast h⟩
  · refine ⟨-m, ?_⟩
    push_cast
    rw [← h, hx]
    ring

theorem roundHalfAway_of_hasPlaces {scale : Nat} {x : ℚ} (h : HasPlaces scale x) :
    roundHalfAway scale x = x := by
  obtain ⟨n, hn⟩ := h
  have hp : (0 : ℚ) < 10 ^ scale := by positivity
  unfold roundHalfAway
  have habs : |x| * 10 ^ scale = ((|n| : ℤ) : ℚ) := by
    rw [Int.cast_abs, ← hn, abs_mul, abs_of_pos hp]
  have hfloor : ⌊((|n| : ℤ) : ℚ) + 1 / 2⌋ = |n| := by
    rw [Int.floor_eq_iff]
    constructor
    · linarith
    · linarith
  rw [habs, hfloor, ← habs, mul_div_assoc, div_self hp.ne', mul_one]
  split
  · rename_i hx
    rw [abs_of_neg hx]
    ring
  · rename_i hx
    rw [abs_of_nonneg (not_lt.1 hx), one_mul]

theorem hasPlaces_roundHalfAway (scale : Nat) (x : ℚ) : HasPlaces scale (roundHalfAway scale x) := by
  have hp : (10 : ℚ) ^ scale ≠ 0 := by positivity
  unfold HasPlaces roundHalfAway
  split
  · exact ⟨-⌊|x| * 10 ^ scale + 1 / 2⌋, by field_simp; push_cast; ring⟩
  · exact ⟨⌊|x| * 10 ^ scale + 1 / 2⌋, by field_simp⟩

/-- A number as a decimal with so many places. -/
def ofPlaces (p : Nat) (x : ℚ) : Decimal := .finite (x < 0) ⌊|x| * 10 ^ p⌋.natAbs (-p)

theorem toRat_ofPlaces {p : Nat} {x : ℚ} (h : HasPlaces p x) : (ofPlaces p x).toRat = x := by
  obtain ⟨n, hn⟩ := h
  have hp : (0 : ℚ) < 10 ^ p := by positivity
  have habs : |x| * 10 ^ p = ((|n| : ℤ) : ℚ) := by
    rw [Int.cast_abs, ← hn, abs_mul, abs_of_pos hp]
  have hcoeff : ((⌊|x| * 10 ^ p⌋.natAbs : ℕ) : ℚ) = |x| * 10 ^ p := by
    rw [habs, Int.floor_intCast, Int.natAbs_abs, Nat.cast_natAbs]
  unfold ofPlaces toRat
  simp only
  rw [hcoeff, zpow_neg, zpow_natCast, mul_assoc, mul_inv_cancel₀ hp.ne', mul_one]
  by_cases hx : x < 0
  · simp [hx, abs_of_neg]
  · simp [hx, abs_of_nonneg (not_lt.1 hx)]

/-! ## Digits -/

/-- A number with at most `n` significant digits. -/
def FewDigits (n : Nat) (x : ℚ) : Prop :=
  ∃ (m : Nat) (k : Int), m < 10 ^ n ∧ |x| = (m : ℚ) * (10 : ℚ) ^ k

theorem FewDigits.mono {n n' : Nat} {x : ℚ} (h : FewDigits n x) (hn : n ≤ n') : FewDigits n' x := by
  obtain ⟨m, k, hm, hx⟩ := h
  exact ⟨m, k, hm.trans_le (Nat.pow_le_pow_right (by decide) hn), hx⟩

/-- The digits of a number with `p` decimal places, counted from its last place. -/
theorem FewDigits.from_places {n p : Nat} {x : ℚ} (h : FewDigits n x) (hp : HasPlaces p x) :
    ∃ (m : Nat) (k : Int), m < 10 ^ n ∧ -(p : Int) ≤ k ∧ |x| = (m : ℚ) * (10 : ℚ) ^ k := by
  obtain ⟨m, k, hm, hx⟩ := h
  by_cases hk : -(p : Int) ≤ k
  · exact ⟨m, k, hm, hk, hx⟩
  -- the digits below the last place are zeros
  obtain ⟨z, hz⟩ := hp
  have hpos : (0 : ℚ) < 10 ^ p := by positivity
  have habs : |x| * 10 ^ p = (z.natAbs : ℚ) := by
    rw [Nat.cast_natAbs, Int.cast_abs, ← hz, abs_mul, abs_of_pos hpos]
  have hle : (z.natAbs : ℚ) ≤ m := by
    rw [← habs, hx, mul_assoc, ← zpow_natCast, ← zpow_add₀ (by norm_num)]
    exact mul_le_of_le_one_right (Nat.cast_nonneg m) (zpow_le_one_of_nonpos₀ (by norm_num) (by omega))
  refine ⟨z.natAbs, -(p : Int), lt_of_le_of_lt (by exact_mod_cast hle) hm, le_rfl, ?_⟩
  rw [← habs, zpow_neg, zpow_natCast, mul_assoc, mul_inv_cancel₀ hpos.ne', mul_one]

end Decimal
