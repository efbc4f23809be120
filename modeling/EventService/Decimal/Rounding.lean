/-
What the context's roundings do to values: a product that the context's digits can write is exact,
values are rounded to nearest within half a step of the last kept digit, and quantizing rounds
half away from zero and fails exactly on the values that need more digits than the context has.
-/
import EventService.Decimal.Basic
import Mathlib.Tactic.Linarith
import Mathlib.Tactic.Positivity
import Mathlib.Tactic.Ring
import Mathlib.Tactic.FieldSimp
import Mathlib.Tactic.NormNum
import Mathlib.Tactic.Push

namespace Decimal

theorem lt_pow_digits (c : Nat) : c < 10 ^ digits c := Nat.lt_pow_succ_log_self (by decide) c

theorem pow_digits_le {c : Nat} (hc : c ≠ 0) : 10 ^ (digits c - 1) ≤ c := Nat.pow_log_le_self 10 hc

theorem digits_le_iff {c n : Nat} (hc : c ≠ 0) : digits c ≤ n ↔ c < 10 ^ n := by
  unfold digits
  rw [Nat.add_one_le_iff]
  exact Nat.log_lt_iff_lt_pow (by decide) hc

theorem pow_le_of_lt_digits {c n : Nat} (h : n < digits c) (hc : c ≠ 0) : 10 ^ n ≤ c := by
  by_contra hlt
  push Not at hlt
  have := (digits_le_iff hc).2 hlt
  omega

theorem divHalfEven_of_dvd {c k : Nat} (h : 10 ^ k ∣ c) : divHalfEven c k = c / 10 ^ k := by
  have hr : c % 10 ^ k = 0 := Nat.mod_eq_zero_of_dvd h
  have hp : 0 < 10 ^ k := by positivity
  unfold divHalfEven
  simp only [hr]
  rw [if_neg]
  omega

/-- rounding half up is the floor of the value plus one half -/
theorem divHalfUp_eq (c k : Nat) : divHalfUp c k = (2 * c + 10 ^ k) / (2 * 10 ^ k) := by
  have hp : 0 < 10 ^ k := by positivity
  unfold divHalfUp
  simp only
  generalize 10 ^ k = t at hp
  have hd := Nat.div_add_mod c t
  have hm := Nat.mod_lt c hp
  generalize c / t = q at hd ⊢
  generalize c % t = r at hd hm ⊢
  symm
  split
  · exact Nat.div_eq_of_lt_le (by subst hd; nlinarith) (by subst hd; nlinarith)
  · exact Nat.div_eq_of_lt_le (by subst hd; nlinarith) (by subst hd; nlinarith)

/-- reaches a number from above the half below it, and an even number from the half on -/
theorem le_divHalfEven_iff {c k n : Nat} :
    n ≤ divHalfEven c k ↔ 2 * n * 10 ^ k < 2 * c + 10 ^ k ∨ (2 * n * 10 ^ k = 2 * c + 10 ^ k ∧ n % 2 = 0) := by
  have hp : 0 < 10 ^ k := by positivity
  unfold divHalfEven
  simp only
  generalize 10 ^ k = t at hp
  have hd := Nat.div_add_mod c t
  have hm := Nat.mod_lt c hp
  generalize c / t = q at hd ⊢
  generalize c % t = r at hd hm ⊢
  subst hd
  rcases Nat.lt_trichotomy n (q + 1) with hn | rfl | hn
  · -- the quotient is that large already
    have hle : n ≤ q := Nat.lt_succ_iff.1 hn
    refine iff_of_true ?_ (Or.inl (by nlinarith))
    split
    · omega
    · exact hle
  · -- the remainder decides
    have hunit : 2 * (q + 1) * t = 2 * (t * q) + 2 * t := by ring
    rw [hunit]
    constructor
    · intro h
      split at h
      · rename_i hr
        rcases hr with hr | ⟨hr, hodd⟩
        · exact Or.inl (by omega)
        · exact Or.inr ⟨by omega, by omega⟩
      · omega
    · rintro (h | ⟨h, heven⟩)
      · rw [if_pos (Or.inl (by omega))]
      · rw [if_pos (Or.inr ⟨by omega, by omega⟩)]
  · -- it is more than one too much
    have hle : q + 2 ≤ n := hn
    refine iff_of_false ?_ ?_
    · split <;> omega
    · rintro (h | ⟨h, -⟩)
      · nlinarith
      · nlinarith

theorem le_divHalfEven_iff_even {c k n : Nat} (hn : n % 2 = 0) :
    n ≤ divHalfEven c k ↔ 2 * n * 10 ^ k ≤ 2 * c + 10 ^ k := by
  rw [le_divHalfEven_iff, le_iff_lt_or_eq, and_iff_left hn]

theorem le_divHalfEven_iff_odd {c k n : Nat} (hn : n % 2 = 1) :
    n ≤ divHalfEven c k ↔ 2 * n * 10 ^ k < 2 * c + 10 ^ k := by
  rw [le_divHalfEven_iff, or_iff_left]
  rintro ⟨-, heven⟩
  omega

theorem divHalfEven_le {c k m : Nat} (h : c ≤ m * 10 ^ k) : divHalfEven c k ≤ m := by
  have hp : 0 < 10 ^ k := by positivity
  by_contra hlt
  rcases le_divHalfEven_iff.1 (not_le.1 hlt) with hless | ⟨heq, -⟩
  · nlinarith
  · nlinarith

theorem le_divHalfEven {c k m : Nat} (h : m * 10 ^ k ≤ c) : m ≤ divHalfEven c k := by
  have hp : 0 < 10 ^ k := by positivity
  refine le_divHalfEven_iff.2 (Or.inl ?_)
  rw [mul_assoc]
  omega

/-! ## Fitting into the context -/

/-- Where `fix` rounds: the exponent of the last digit kept. -/
def Context.low (ctx : Context) (c : Nat) (e : Int) : Int := max ((digits c : Int) + e - ctx.prec) ctx.etiny

/-- `fix` overflows, or yields the value with the digits below `low` rounded away. -/
theorem fix_spec (ctx : Context) (neg : Bool) {c : Nat} {e : Int} (hc : c ≠ 0) :
    (fix ctx neg c e = .error .overflow ∧ ctx.emax < digits c + e) ∨
    ∃ c' e', fix ctx neg c e = .ok (.finite neg c' e') ∧ (c' : ℚ) * (10 : ℚ) ^ e' =
      if e < ctx.low c e then (divHalfEven c (ctx.low c e - e).toNat : ℚ) * (10 : ℚ) ^ (ctx.low c e)
      else (c : ℚ) * (10 : ℚ) ^ e := by
  have hem := ctx.emin_lt
  have hpp := ctx.prec_pos
  unfold fix
  rw [if_neg hc]
  split
  · rename_i h
    exact Or.inl ⟨rfl, by unfold Context.etop at h; omega⟩
  rename_i hover
  simp only
  rw [show max ((digits c : Int) + e - ctx.prec) ctx.etiny = ctx.low c e from rfl]
  by_cases hlow : e < ctx.low c e
  swap
  · rw [if_neg hlow, if_neg hlow]
    exact Or.inr ⟨c, e, rfl, rfl⟩
  rw [if_pos hlow, if_pos hlow]
  have hlow_le : ctx.low c e ≤ ctx.etop := by
    unfold Context.low
    exact max_le (by omega) (by unfold Context.etop Context.etiny; omega)
  generalize hk : (ctx.low c e - e).toNat = k
  -- at most one more digit, and then the coefficient is the power itself
  have hle : divHalfEven c k ≤ 10 ^ ctx.prec := by
    apply divHalfEven_le
    rw [← pow_add]
    refine le_trans (lt_pow_digits c).le (Nat.pow_le_pow_right (by decide) ?_)
    have : (digits c : Int) + e - ctx.prec ≤ ctx.low c e := le_max_left _ _
    omega
  split
  · rename_i hdig
    have hne : divHalfEven c k ≠ 0 := by
      intro h0; rw [h0] at hdig; unfold digits at hdig; simp at hdig; omega
    have heq : divHalfEven c k = 10 ^ ctx.prec :=
      le_antisymm hle (pow_le_of_lt_digits hdig hne)
    split
    · rename_i htop
      refine Or.inl ⟨rfl, ?_⟩
      unfold Context.etop at htop hover hlow_le
      have : ctx.low c e = digits c + e - ctx.prec ∨ ctx.low c e = ctx.etiny := max_choice _ _
      rcases this with h | h
      · omega
      · unfold Context.etiny at h; omega
    · refine Or.inr ⟨_, _, rfl, ?_⟩
      obtain ⟨p, hp⟩ : ∃ p, ctx.prec = p + 1 := ⟨ctx.prec - 1, by omega⟩
      rw [heq, hp, pow_succ, Nat.mul_div_cancel _ (by decide), zpow_add₀ (by norm_num)]
      push_cast
      ring
  · rw [if_neg (by omega)]
    exact Or.inr ⟨_, _, rfl, rfl⟩

/-! ### Values as powers of ten -/

theorem zpow_le_val {c : Nat} (hc : c ≠ 0) (e : Int) :
    (10 : ℚ) ^ ((digits c : Int) + e - 1) ≤ (c : ℚ) * (10 : ℚ) ^ e := by
  have h1 : 1 ≤ digits c := by unfold digits; omega
  calc (10 : ℚ) ^ ((digits c : Int) + e - 1) = ((10 ^ (digits c - 1) : ℕ) : ℚ) * (10 : ℚ) ^ e := by
        rw [show (digits c : Int) + e - 1 = ((digits c - 1 : ℕ) : Int) + e by omega,
          zpow_add₀ (by norm_num), zpow_natCast]
        push_cast; rfl
    _ ≤ (c : ℚ) * (10 : ℚ) ^ e := by
        have := pow_digits_le hc
        gcongr

theorem val_lt_zpow (c : Nat) (e : Int) : (c : ℚ) * (10 : ℚ) ^ e < (10 : ℚ) ^ ((digits c : Int) + e) := by
  rw [zpow_add₀ (by norm_num), zpow_natCast]
  have := lt_pow_digits c
  gcongr
  exact_mod_cast this

theorem digits_add_le_of_val_lt {c : Nat} (hc : c ≠ 0) {e n : Int}
    (h : (c : ℚ) * (10 : ℚ) ^ e < (10 : ℚ) ^ n) : (digits c : Int) + e ≤ n := by
  have := (zpow_lt_zpow_iff_right₀ (by norm_num : (1 : ℚ) < 10)).1 (lt_of_le_of_lt (zpow_le_val hc e) h)
  omega

theorem le_digits_add_of_le_val {c : Nat} {e n : Int}
    (h : (10 : ℚ) ^ n ≤ (c : ℚ) * (10 : ℚ) ^ e) : n < (digits c : Int) + e :=
  (zpow_lt_zpow_iff_right₀ (by norm_num : (1 : ℚ) < 10)).1 (lt_of_le_of_lt h (val_lt_zpow c e))

/-- Powers of ten at two exponents, as an integer multiple. -/
theorem zpow_split {a b : Int} (h : a ≤ b) : (10 : ℚ) ^ b = ((10 ^ (b - a).toNat : ℕ) : ℚ) * (10 : ℚ) ^ a := by
  push_cast
  rw [← zpow_natCast, ← zpow_add₀ (by norm_num)]
  congr 1; omega

/-! ### Half a unit -/

section Unit

variable {c k m : Nat} {e low : Int}

/-- A multiple of the unit against half a unit above a number, in terms of the coefficients. -/
theorem unit_sub (hk : low - e = k) : (c : ℚ) * (10 : ℚ) ^ e + (10 : ℚ) ^ low / 2 - (m : ℚ) * (10 : ℚ) ^ low =
    (((2 * c + 10 ^ k : ℕ) : ℚ) - ((2 * m * 10 ^ k : ℕ) : ℚ)) * ((10 : ℚ) ^ e / 2) := by
  have hlow : (10 : ℚ) ^ low = (10 : ℚ) ^ k * (10 : ℚ) ^ e := by
    rw [zpow_split (show e ≤ low by omega), show (low - e).toNat = k by omega]
    push_cast
    rfl
  rw [hlow]
  push_cast
  ring

theorem unit_le_iff (hk : low - e = k) :
    (m : ℚ) * (10 : ℚ) ^ low ≤ (c : ℚ) * (10 : ℚ) ^ e + (10 : ℚ) ^ low / 2 ↔ 2 * m * 10 ^ k ≤ 2 * c + 10 ^ k := by
  rw [← sub_nonneg, unit_sub hk, mul_nonneg_iff_of_pos_right (by positivity), sub_nonneg, Nat.cast_le]

theorem unit_lt_iff (hk : low - e = k) :
    (m : ℚ) * (10 : ℚ) ^ low < (c : ℚ) * (10 : ℚ) ^ e + (10 : ℚ) ^ low / 2 ↔ 2 * m * 10 ^ k < 2 * c + 10 ^ k := by
  rw [← sub_pos, unit_sub hk, mul_pos_iff_of_pos_right (by positivity), sub_pos, Nat.cast_lt]

/-- A rounded number reaches an even multiple of the unit from half a unit below it on. -/
theorem even_unit_le_iff (hk : low - e = k) (hm : m % 2 = 0) :
    (m : ℚ) * (10 : ℚ) ^ low ≤ (divHalfEven c k : ℚ) * (10 : ℚ) ^ low ↔
      (m : ℚ) * (10 : ℚ) ^ low ≤ (c : ℚ) * (10 : ℚ) ^ e + (10 : ℚ) ^ low / 2 := by
  rw [unit_le_iff hk, ← le_divHalfEven_iff_even hm, mul_le_mul_iff_of_pos_right (by positivity), Nat.cast_le]

/-- It reaches an odd one only from above that. -/
theorem odd_unit_le_iff (hk : low - e = k) (hm : m % 2 = 1) :
    (m : ℚ) * (10 : ℚ) ^ low ≤ (divHalfEven c k : ℚ) * (10 : ℚ) ^ low ↔
      (m : ℚ) * (10 : ℚ) ^ low < (c : ℚ) * (10 : ℚ) ^ e + (10 : ℚ) ^ low / 2 := by
  rw [unit_lt_iff hk, ← le_divHalfEven_iff_odd hm, mul_le_mul_iff_of_pos_right (by positivity), Nat.cast_le]

/-- A multiple of the unit that comes within half a unit of another reaches it. -/
theorem le_of_half_unit {g : ℚ} (hg : 0 < g) (h : (m : ℚ) * g ≤ (k : ℚ) * g + g / 2) : m ≤ k := by
  by_contra hlt
  have hle : ((k + 1 : ℕ) : ℚ) ≤ m := by exact_mod_cast not_le.1 hlt
  have hmul := mul_le_mul_of_nonneg_right hle hg.le
  push_cast at hmul
  linarith

/-- Rounding does not fall below the power of ten of the first digit. -/
theorem pow_le_rounded (hc : c ≠ 0) (hk : low - e = k) (hlow : low ≤ digits c + e - 1) :
    (10 : ℚ) ^ ((digits c : Int) + e - 1) ≤ (divHalfEven c k : ℚ) * (10 : ℚ) ^ low := by
  have hle : 10 ^ ((digits c : Int) + e - 1 - low).toNat ≤ divHalfEven c k := by
    apply le_divHalfEven
    rw [← pow_add]
    exact le_trans (Nat.pow_le_pow_right (by decide) (by omega)) (pow_digits_le hc)
  rw [zpow_split hlow]
  gcongr

/-- Rounding does not get above a power of ten that the digits stay below. -/
theorem rounded_le_pow {n : Int} (hk : low - e = k) (hlow : low ≤ n) (hn : (digits c : Int) + e ≤ n) :
    (divHalfEven c k : ℚ) * (10 : ℚ) ^ low ≤ (10 : ℚ) ^ n := by
  have hle : divHalfEven c k ≤ 10 ^ (n - low).toNat := by
    apply divHalfEven_le
    rw [← pow_add]
    exact le_trans (lt_pow_digits c).le (Nat.pow_le_pow_right (by decide) (by omega))
  rw [zpow_split hlow]
  gcongr

end Unit

/-- As many units as the context has digits make up the power of ten above them. -/
theorem Context.prec_units (ctx : Context) (n : Int) :
    ((10 ^ ctx.prec : ℕ) : ℚ) * (10 : ℚ) ^ (n - ctx.prec) = (10 : ℚ) ^ n := by
  rw [zpow_split (show n - (ctx.prec : Int) ≤ n by omega)]
  congr 3
  omega

theorem Context.even_pow_prec (ctx : Context) : 10 ^ ctx.prec % 2 = 0 := by
  have hpp := ctx.prec_pos
  obtain ⟨m, hm⟩ : ∃ m, ctx.prec = m + 1 := ⟨ctx.prec - 1, by omega⟩
  rw [hm, pow_succ]
  omega

/-! ### Exact results and bounds -/

/-- A value that the context's digits can write is not changed by `fix`. -/
theorem fix_exact (ctx : Context) (neg : Bool) {c : Nat} {e : Int} {M : Nat} {K : Int}
    (hv : (c : ℚ) * (10 : ℚ) ^ e = (M : ℚ) * (10 : ℚ) ^ K) (hM : M < 10 ^ ctx.prec)
    (hK : ctx.etiny ≤ K) (hhi : (c : ℚ) * (10 : ℚ) ^ e < (10 : ℚ) ^ ctx.emax) :
    ∃ c' e', fix ctx neg c e = .ok (.finite neg c' e') ∧
      (c' : ℚ) * (10 : ℚ) ^ e' = (c : ℚ) * (10 : ℚ) ^ e := by
  rcases eq_or_ne c 0 with rfl | hc
  · exact ⟨0, _, by unfold fix; rw [if_pos rfl], by simp⟩
  have hdig := digits_add_le_of_val_lt hc hhi
  rcases fix_spec ctx neg (e := e) hc with ⟨-, h⟩ | ⟨c', e', h, hval⟩
  · omega
  refine ⟨c', e', h, hval.trans ?_⟩
  split
  swap
  · rfl
  rename_i hlow
  -- the rounded digits are zeros: the last kept digit is not above the last digit of `M`
  have hKlow : ctx.low c e ≤ K := by
    refine max_le ?_ hK
    by_contra hlt
    push Not at hlt
    have h1 : (M : ℚ) * (10 : ℚ) ^ K < (10 : ℚ) ^ (K + ctx.prec) := by
      rw [zpow_add₀ (by norm_num), zpow_natCast, mul_comm]
      gcongr
      exact_mod_cast hM
    rw [← hv] at h1
    have := digits_add_le_of_val_lt hc h1
    omega
  have hcM : c = M * 10 ^ (K - e).toNat := by
    rw [zpow_split (show e ≤ K by omega), ← mul_assoc] at hv
    have := mul_right_cancel₀ (zpow_ne_zero e (by norm_num : (10 : ℚ) ≠ 0)) hv
    exact_mod_cast this
  have hdvd : 10 ^ (ctx.low c e - e).toNat ∣ c := by
    rw [hcM]
    exact dvd_mul_of_dvd_right (pow_dvd_pow 10 (by rw [← hcM]; omega)) M
  rw [divHalfEven_of_dvd hdvd, zpow_split hlow.le, ← mul_assoc, ← Nat.cast_mul, Nat.div_mul_cancel hdvd]

/-- Below the last half step under `10^n`, `fix` succeeds and stays below `10^n`. -/
theorem fix_lt (ctx : Context) (neg : Bool) {c : Nat} {e n : Int} (hlo : ctx.etiny + ctx.prec ≤ n)
    (hhi : n ≤ ctx.emax) (h : (c : ℚ) * (10 : ℚ) ^ e + (10 : ℚ) ^ (n - ctx.prec) / 2 < (10 : ℚ) ^ n) :
    ∃ c' e', fix ctx neg c e = .ok (.finite neg c' e') ∧
      (c' : ℚ) * (10 : ℚ) ^ e' + (10 : ℚ) ^ (n - ctx.prec) / 2 < (10 : ℚ) ^ n := by
  rcases eq_or_ne c 0 with rfl | hc
  · exact ⟨0, _, by unfold fix; rw [if_pos rfl], by simpa using h⟩
  have hpp := ctx.prec_pos
  have hpos : (0 : ℚ) < (10 : ℚ) ^ (n - ctx.prec) := by positivity
  have hval : (c : ℚ) * (10 : ℚ) ^ e < (10 : ℚ) ^ n := by linarith
  have hdig := digits_add_le_of_val_lt hc hval
  rcases fix_spec ctx neg (e := e) hc with ⟨-, hover⟩ | ⟨c', e', hf, hv⟩
  · omega
  refine ⟨c', e', hf, ?_⟩
  rw [hv]
  split
  swap
  · exact h
  rename_i hlow
  have hlow_le : ctx.low c e ≤ n - ctx.prec := max_le (by omega) (by omega)
  have hk : ctx.low c e - e = (ctx.low c e - e).toNat := by omega
  rcases eq_or_lt_of_le hlow_le with hl | hl
  · -- the step is the one below `10^n`: the even power of ten is not reached
    have hunits := ctx.prec_units n
    rw [← hl] at h hpos hunits ⊢
    have hlt : divHalfEven c (ctx.low c e - e).toNat < 10 ^ ctx.prec := by
      by_contra hge
      have hreach : ((10 ^ ctx.prec : ℕ) : ℚ) * (10 : ℚ) ^ ctx.low c e ≤
          divHalfEven c (ctx.low c e - e).toNat * (10 : ℚ) ^ ctx.low c e := by
        gcongr
        exact not_lt.1 hge
      rw [even_unit_le_iff hk ctx.even_pow_prec, hunits] at hreach
      linarith
    have hle : ((divHalfEven c (ctx.low c e - e).toNat + 1 : ℕ) : ℚ) ≤ ((10 ^ ctx.prec : ℕ) : ℚ) := by
      exact_mod_cast hlt
    have hmul := mul_le_mul_of_nonneg_right hle hpos.le
    rw [hunits] at hmul
    push_cast at hmul
    linarith
  · -- a finer step: the value has fewer digits than `10^n`
    have hd1 : (digits c : Int) + e ≤ n - 1 := by
      have : (digits c : Int) + e - ctx.prec ≤ ctx.low c e := le_max_left _ _
      omega
    have hle := rounded_le_pow hk (show ctx.low c e ≤ n - 1 by omega) hd1
    have h10 : (10 : ℚ) ^ n = 10 * (10 : ℚ) ^ (n - 1) := by
      rw [← zpow_one_add₀ (by norm_num)]; congr 1; omega
    have hstep : (10 : ℚ) ^ (n - ctx.prec) ≤ (10 : ℚ) ^ (n - 1) :=
      zpow_le_zpow_right₀ (by norm_num) (by omega)
    have : (0 : ℚ) < (10 : ℚ) ^ (n - 1) := by positivity
    rw [h10]
    linarith

/-- From the last half step under `10^n` on, `fix` overflows or reaches `10^n`. -/
theorem fix_ge (ctx : Context) (neg : Bool) {c : Nat} {e n : Int} (hlo : ctx.etiny + ctx.prec ≤ n)
    (h : (10 : ℚ) ^ n ≤ (c : ℚ) * (10 : ℚ) ^ e + (10 : ℚ) ^ (n - ctx.prec) / 2) :
    fix ctx neg c e = .error .overflow ∨
    ∃ c' e', fix ctx neg c e = .ok (.finite neg c' e') ∧ (10 : ℚ) ^ n ≤ (c' : ℚ) * (10 : ℚ) ^ e' := by
  have hpp := ctx.prec_pos
  have hpos : (0 : ℚ) < (10 : ℚ) ^ (n - 1) := by positivity
  have h10 : (10 : ℚ) ^ n = 10 * (10 : ℚ) ^ (n - 1) := by
    rw [← zpow_one_add₀ (by norm_num)]; congr 1; omega
  have hstep : (10 : ℚ) ^ (n - ctx.prec) ≤ (10 : ℚ) ^ (n - 1) :=
    zpow_le_zpow_right₀ (by norm_num) (by omega)
  have hval : (10 : ℚ) ^ (n - 1) ≤ (c : ℚ) * (10 : ℚ) ^ e := by linarith
  have hc : c ≠ 0 := by
    rintro rfl
    simp at hval
    linarith
  have hdig := le_digits_add_of_le_val hval
  rcases fix_spec ctx neg (e := e) hc with ⟨hover, -⟩ | ⟨c', e', hf, hv⟩
  · exact Or.inl hover
  refine Or.inr ⟨c', e', hf, ?_⟩
  rw [hv]
  have hlow : ctx.low c e = digits c + e - ctx.prec := max_eq_left (by omega)
  -- either the value is at least `10^n`, or its leading digit is the one below
  rcases eq_or_lt_of_le (show n ≤ digits c + e by omega) with hD | hD
  swap
  · -- more digits than `10^n` has below it
    have hge : (10 : ℚ) ^ ((digits c : Int) + e - 1) ≤ (c : ℚ) * (10 : ℚ) ^ e := zpow_le_val hc e
    have hn : (10 : ℚ) ^ n ≤ (10 : ℚ) ^ ((digits c : Int) + e - 1) :=
      zpow_le_zpow_right₀ (by norm_num) (by omega)
    split
    · rename_i hl
      exact hn.trans (pow_le_rounded hc (by omega) (by omega))
    · linarith
  rw [show ctx.low c e = n - ctx.prec by omega]
  split
  · rename_i hl
    have hk : n - ctx.prec - e = (n - ctx.prec - e).toNat := by omega
    rw [← ctx.prec_units n] at h ⊢
    exact (even_unit_le_iff hk ctx.even_pow_prec).2 h
  · -- no digit below the step: the value is a multiple of it
    rename_i hl
    have hmul : (c : ℚ) * (10 : ℚ) ^ e =
        ((c * 10 ^ (e - (n - ctx.prec)).toNat : ℕ) : ℚ) * (10 : ℚ) ^ (n - ctx.prec) := by
      rw [zpow_split (show n - ctx.prec ≤ e by omega)]
      push_cast
      ring
    have hunit : (0 : ℚ) < (10 : ℚ) ^ (n - ctx.prec) := by positivity
    rw [hmul, ← ctx.prec_units n] at h ⊢
    have hle := le_of_half_unit hunit h
    gcongr

/-! ## Quantizing -/

theorem roundHalfAway_nonneg (scale : Nat) {x : ℚ} (hx : 0 ≤ x) :
    roundHalfAway scale x = (⌊x * 10 ^ scale + 1 / 2⌋ : ℤ) / 10 ^ scale := by
  unfold roundHalfAway
  rw [if_neg (not_lt.2 hx), one_mul, abs_of_nonneg hx]

/-- Rounding does not depend on the sign. -/
theorem roundHalfAway_signed (scale : Nat) (neg : Bool) {x : ℚ} (hx : 0 ≤ x) :
    roundHalfAway scale ((if neg then -1 else 1) * x) = (if neg then -1 else 1) * roundHalfAway scale x := by
  cases neg
  · simp
  · rcases eq_or_lt_of_le hx with rfl | h
    · simp [roundHalfAway]
      norm_num
    · rw [roundHalfAway_nonneg scale hx]
      unfold roundHalfAway
      simp [h, abs_of_pos h]

/-- The coefficient `quantize` computes is the value in steps of `10^(-scale)`, rounded half up. -/
theorem quantize_coeff (c : Nat) (e : Int) (scale : Nat) :
    (((if -(scale : Int) ≤ e then c * 10 ^ (e - -(scale : Int)).toNat
      else divHalfUp c (-(scale : Int) - e).toNat) : ℕ) : ℤ) =
      ⌊(c : ℚ) * (10 : ℚ) ^ e * 10 ^ scale + 1 / 2⌋ := by
  symm
  rw [Int.floor_eq_iff]
  have hs : (10 : ℚ) ^ scale * (10 : ℚ) ^ (-(scale : Int)) = 1 := by
    rw [← zpow_natCast, ← zpow_add₀ (by norm_num)]; simp
  split
  · rename_i h
    have : (c : ℚ) * (10 : ℚ) ^ e * 10 ^ scale = ((c * 10 ^ (e - -(scale : Int)).toNat : ℕ) : ℚ) := by
      rw [zpow_split h]; push_cast
      rw [mul_assoc, mul_assoc, mul_comm ((10 : ℚ) ^ (-(scale : Int))), hs, mul_one]
    rw [this]
    constructor <;> push_cast <;> linarith
  · rename_i h
    push Not at h
    generalize hk : (-(scale : Int) - e).toNat = k
    have hval : (c : ℚ) * (10 : ℚ) ^ e * 10 ^ scale * (10 ^ k : ℕ) = c := by
      have h1 : (10 : ℚ) ^ (-(scale : Int)) = ((10 ^ k : ℕ) : ℚ) * (10 : ℚ) ^ e := by
        rw [← hk]; exact zpow_split h.le
      calc (c : ℚ) * (10 : ℚ) ^ e * 10 ^ scale * (10 ^ k : ℕ)
          = c * (10 ^ scale * (((10 ^ k : ℕ) : ℚ) * (10 : ℚ) ^ e)) := by ring
        _ = c := by rw [← h1, hs, mul_one]
    rw [divHalfUp_eq]
    generalize (c : ℚ) * (10 : ℚ) ^ e * 10 ^ scale = v at hval
    have ht : 0 < 10 ^ k := by positivity
    generalize 10 ^ k = t at hval ht
    have ht' : (0 : ℚ) < t := by exact_mod_cast ht
    have h1 : (2 * c + t) / (2 * t) * (2 * t) ≤ 2 * c + t := Nat.div_mul_le_self _ _
    have h2 : 2 * c + t < ((2 * c + t) / (2 * t) + 1) * (2 * t) := by
      rw [Nat.mul_comm _ (2 * t)]; exact Nat.lt_mul_div_succ _ (by omega)
    generalize (2 * c + t) / (2 * t) = q at h1 h2
    have h1' : (q : ℚ) * (2 * t) ≤ 2 * c + t := by exact_mod_cast h1
    have h2' : 2 * (c : ℚ) + t < (q + 1) * (2 * t) := by exact_mod_cast h2
    rw [← hval] at h1' h2'
    constructor
    · have : (q : ℚ) * (2 * t) ≤ (v + 1 / 2) * (2 * t) := by linarith
      exact_mod_cast le_of_mul_le_mul_right this (by linarith)
    · have : (v + 1 / 2) * (2 * t) < ((q : ℚ) + 1) * (2 * t) := by linarith
      exact_mod_cast lt_of_mul_lt_mul_right this (by linarith)

/-- Quantizing rounds the value half away from zero, when the result fits the context. -/
theorem quantize_ok (ctx : Context) (neg : Bool) (c : Nat) (e : Int) (scale : Nat)
    (hlo : ctx.etiny ≤ -(scale : Int)) (hhi : (ctx.prec : Int) - scale ≤ ctx.emax)
    (h : (c : ℚ) * (10 : ℚ) ^ e + (10 : ℚ) ^ (-(scale : Int)) / 2 < (10 : ℚ) ^ ((ctx.prec : Int) - scale)) :
    ∃ d, quantize ctx (-(scale : Int)) (.finite neg c e) = .ok d ∧ d.isFinite = true ∧
      d.toRat = roundHalfAway scale (Decimal.finite neg c e).toRat := by
  have hpp := ctx.prec_pos
  have hcoeff := quantize_coeff c e scale
  generalize hR : (if -(scale : Int) ≤ e then c * 10 ^ (e - -(scale : Int)).toNat
    else divHalfUp c (-(scale : Int) - e).toNat) = R at hcoeff
  have hv0 : 0 ≤ (c : ℚ) * (10 : ℚ) ^ e := by positivity
  have hval : (Decimal.finite neg R (-(scale : Int))).toRat =
      roundHalfAway scale (Decimal.finite neg c e).toRat := by
    show (if neg then (-1 : ℚ) else 1) * ((R : ℚ) * (10 : ℚ) ^ (-(scale : Int))) =
      roundHalfAway scale ((if neg then -1 else 1) * ((c : ℚ) * (10 : ℚ) ^ e))
    rw [roundHalfAway_signed scale neg hv0, roundHalfAway_nonneg scale hv0, ← hcoeff]
    simp [zpow_neg, div_eq_mul_inv]
  have hRlt : R < 10 ^ ctx.prec := by
    have h1 : ((R : ℤ) : ℚ) ≤ (c : ℚ) * (10 : ℚ) ^ e * 10 ^ scale + 1 / 2 := by
      rw [hcoeff]; exact Int.floor_le _
    have h2 := mul_lt_mul_of_pos_right h (by positivity : (0 : ℚ) < 10 ^ scale)
    have e1 : (10 : ℚ) ^ ((ctx.prec : Int) - scale) * 10 ^ scale = 10 ^ ctx.prec := by
      rw [← zpow_natCast, ← zpow_natCast, ← zpow_add₀ (by norm_num)]; congr 1; omega
    have e2 : (10 : ℚ) ^ (-(scale : Int)) * 10 ^ scale = 1 := by
      rw [← zpow_natCast, ← zpow_add₀ (by norm_num)]; simp
    have h3 : ((R : ℕ) : ℚ) < ((10 ^ ctx.prec : ℕ) : ℚ) := by
      push_cast at h1 ⊢
      calc (R : ℚ) ≤ (c : ℚ) * (10 : ℚ) ^ e * 10 ^ scale + 1 / 2 := h1
        _ = ((c : ℚ) * (10 : ℚ) ^ e + (10 : ℚ) ^ (-(scale : Int)) / 2) * 10 ^ scale := by
          rw [add_mul, div_mul_eq_mul_div, e2]
        _ < 10 ^ ctx.prec := by rw [← e1]; exact h2
    exact_mod_cast h3
  refine ⟨.finite neg R (-(scale : Int)), ?_, rfl, hval⟩
  unfold quantize
  simp only
  rw [if_neg (by omega)]
  rcases eq_or_ne c 0 with rfl | hc
  · rw [if_pos rfl]
    have hR0 : R = 0 := by rw [← hR]; split <;> simp [divHalfUp]
    subst hR0
    unfold fix
    rw [if_pos rfl, max_eq_left hlo, min_eq_left (by omega)]
  rw [if_neg hc]
  have hdig : (digits c : Int) + e ≤ ctx.prec - scale := by
    apply digits_add_le_of_val_lt hc
    have : (0 : ℚ) < (10 : ℚ) ^ (-(scale : Int)) := by positivity
    linarith
  rw [if_neg (by omega), if_neg (by omega), hR]
  have hdR : digits R ≤ ctx.prec := by
    rcases eq_or_ne R 0 with rfl | hR0
    · simpa [digits] using hpp
    · exact (digits_le_iff hR0).2 hRlt
  rw [if_neg (by omega), if_neg (by omega)]
  unfold fix
  split
  · rename_i hR0
    subst hR0
    rw [max_eq_left hlo, min_eq_left (by omega)]
  · rw [if_neg (by unfold Context.etop; omega)]
    simp only
    rw [if_neg]
    exact not_lt.2 (max_le (by omega) hlo)

/-- A coefficient that the context's digits hold keeps its exponent. -/
theorem fix_exponent {ctx : Context} {neg : Bool} {c : Nat} {e : Int} {d : Decimal} (hlo : ctx.etiny ≤ e)
    (hhi : e ≤ ctx.emax) (hdig : digits c ≤ ctx.prec) (h : fix ctx neg c e = .ok d) : d = .finite neg c e := by
  unfold fix at h
  split at h
  · rename_i hc
    rw [← Except.ok.inj h, hc, max_eq_left hlo, min_eq_left hhi]
  · split at h
    · cases h
    · simp only at h
      rw [if_neg (not_lt.2 (max_le (by omega) hlo))] at h
      exact (Except.ok.inj h).symm

/-- What was quantized has the exponent it was quantized to. -/
theorem quantize_exponent {ctx : Context} {neg : Bool} {c : Nat} {e q : Int} {d : Decimal}
    (h : quantize ctx q (.finite neg c e) = .ok d) : ∃ c', d = .finite neg c' q := by
  have hpp := ctx.prec_pos
  unfold quantize at h
  simp only at h
  generalize (if q ≤ e then c * 10 ^ (e - q).toNat else divHalfUp c (q - e).toNat) = c' at h
  split at h
  · cases h
  rename_i hrange
  split at h
  · exact ⟨0, fix_exponent (by omega) (by omega) (by simpa [digits] using hpp) h⟩
  split at h
  · cases h
  split at h
  · cases h
  split at h
  · cases h
  split at h
  · cases h
  · exact ⟨_, fix_exponent (by omega) (by omega) (by omega) h⟩

/-- Quantizing fails on values with more digits than the context has. -/
theorem quantize_error (ctx : Context) (neg : Bool) {c : Nat} {e : Int} (scale : Nat)
    (h : (10 : ℚ) ^ ((ctx.prec : Int) - scale) ≤ (c : ℚ) * (10 : ℚ) ^ e) :
    quantize ctx (-(scale : Int)) (.finite neg c e) = .error .invalidOperation := by
  have hdig := le_digits_add_of_le_val h
  have hc : c ≠ 0 := by
    rintro rfl
    have : (0 : ℚ) < (10 : ℚ) ^ ((ctx.prec : Int) - scale) := by positivity
    simp at h
    linarith
  unfold quantize
  simp only
  split
  · rfl
  split
  · rfl
  rw [if_pos (by omega)]

/-! ## Products -/

theorem abs_toRat (neg : Bool) (c : Nat) (e : Int) :
    |(Decimal.finite neg c e).toRat| = (c : ℚ) * (10 : ℚ) ^ e := by
  have h0 : 0 ≤ (c : ℚ) * (10 : ℚ) ^ e := by positivity
  show |(if neg then (-1 : ℚ) else 1) * ((c : ℚ) * (10 : ℚ) ^ e)| = _
  cases neg
  · simp [abs_of_nonneg h0]
  · simp [abs_of_nonneg h0]

theorem toRat_mul (n₁ n₂ : Bool) (c₁ c₂ : Nat) (e₁ e₂ : Int) :
    (Decimal.finite n₁ c₁ e₁).toRat * (Decimal.finite n₂ c₂ e₂).toRat =
      (Decimal.finite (n₁ != n₂) (c₁ * c₂) (e₁ + e₂)).toRat := by
  show (if n₁ then (-1 : ℚ) else 1) * ((c₁ : ℚ) * (10 : ℚ) ^ e₁) *
      ((if n₂ then (-1 : ℚ) else 1) * ((c₂ : ℚ) * (10 : ℚ) ^ e₂)) =
    (if n₁ != n₂ then (-1 : ℚ) else 1) * (((c₁ * c₂ : ℕ) : ℚ) * (10 : ℚ) ^ (e₁ + e₂))
  rw [zpow_add₀ (by norm_num), Nat.cast_mul]
  cases n₁ <;> cases n₂ <;> simp <;> ring

theorem exists_finite {d : Decimal} (h : d.isFinite = true) : ∃ neg c e, d = .finite neg c e := by
  cases d with
  | finite neg c e => exact ⟨neg, c, e, rfl⟩
  | infinity => exact absurd h (by simp [isFinite])
  | nan => exact absurd h (by simp [isFinite])

/-- The exact product, before it is fitted into the context. -/
theorem mul_finite (ctx : Context) (n₁ n₂ : Bool) (c₁ c₂ : Nat) (e₁ e₂ : Int) :
    mul ctx (.finite n₁ c₁ e₁) (.finite n₂ c₂ e₂) = fix ctx (n₁ != n₂) (c₁ * c₂) (e₁ + e₂) := rfl

/-- A product that the context's digits can write is exact. -/
theorem mul_exact (ctx : Context) {a b : Decimal} (ha : a.isFinite = true) (hb : b.isFinite = true)
    {M : Nat} {K : Int} (hv : |a.toRat * b.toRat| = (M : ℚ) * (10 : ℚ) ^ K) (hM : M < 10 ^ ctx.prec)
    (hK : ctx.etiny ≤ K) (hhi : |a.toRat * b.toRat| < (10 : ℚ) ^ ctx.emax) :
    ∃ neg c e, mul ctx a b = .ok (.finite neg c e) ∧
      (Decimal.finite neg c e).toRat = a.toRat * b.toRat := by
  obtain ⟨n₁, c₁, e₁, rfl⟩ := exists_finite ha
  obtain ⟨n₂, c₂, e₂, rfl⟩ := exists_finite hb
  rw [toRat_mul, abs_toRat] at hv hhi
  obtain ⟨c', e', hfix, hval⟩ := fix_exact ctx (n₁ != n₂) hv hM hK hhi
  refine ⟨n₁ != n₂, c', e', hfix, ?_⟩
  rw [toRat_mul]
  show (if n₁ != n₂ then (-1 : ℚ) else 1) * _ = (if n₁ != n₂ then (-1 : ℚ) else 1) * _
  rw [hval]

end Decimal
