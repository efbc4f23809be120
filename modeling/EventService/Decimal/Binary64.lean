/-
Binary floating point of 64 bits as a function on the nonnegative rationals: a number is rounded to
the nearest one with 53 bits, half to even, and never finer than the last subnormal bit. Rounding is
monotone and leaves the numbers of the format alone, so the numbers that are read as one of them lie
next to each other; how far they reach to either side is what the digits of a decimal are held against.
-/
import Mathlib.Data.Int.Log
import Mathlib.Data.Rat.Floor
import Mathlib.Algebra.Order.Field.Power
import Mathlib.Tactic.Linarith
import Mathlib.Tactic.Positivity
import Mathlib.Tactic.Ring

namespace Binary64

/-! ## Rounding to an integer -/

/-- Round to the nearest integer, halves to the even one. -/
def roundEven (x : ℚ) : ℤ :=
  if x - ⌊x⌋ < 1 / 2 ∨ (x - ⌊x⌋ = 1 / 2 ∧ ⌊x⌋ % 2 = 0) then ⌊x⌋ else ⌊x⌋ + 1

/-- A number is rounded to `n` or below exactly from half a unit above `n` on, the half itself only if
`n` is even. -/
theorem roundEven_le_iff {x : ℚ} {n : ℤ} :
    roundEven x ≤ n ↔ x < n + 1 / 2 ∨ (x = n + 1 / 2 ∧ n % 2 = 0) := by
  have hlo := Int.floor_le x
  have hhi := Int.lt_floor_add_one x
  unfold roundEven
  rcases lt_trichotomy ⌊x⌋ n with hlt | rfl | hlt
  · -- the whole unit above `⌊x⌋` lies below `n`
    have hle : ((⌊x⌋ + 1 : ℤ) : ℚ) ≤ n := by exact_mod_cast hlt
    push_cast at hle
    refine iff_of_true ?_ (Or.inl (by linarith))
    split <;> omega
  · constructor
    · intro h
      split at h
      · rename_i hdown
        rcases hdown with hdown | ⟨hhalf, heven⟩
        · exact Or.inl (by linarith)
        · exact Or.inr ⟨by linarith, heven⟩
      · omega
    · rintro (h | ⟨h, heven⟩)
      · rw [if_pos (Or.inl (by linarith))]
      · rw [if_pos (Or.inr ⟨by linarith, heven⟩)]
  · have hle : ((n + 1 : ℤ) : ℚ) ≤ ⌊x⌋ := by exact_mod_cast hlt
    push_cast at hle
    refine iff_of_false ?_ ?_
    · split <;> omega
    · rintro (h | ⟨h, -⟩) <;> linarith

theorem roundEven_mono {x y : ℚ} (h : x ≤ y) : roundEven x ≤ roundEven y := by
  rw [roundEven_le_iff]
  rcases roundEven_le_iff.1 (le_refl (roundEven y)) with hy | ⟨hy, heven⟩
  · exact Or.inl (h.trans_lt hy)
  · rcases h.lt_or_eq with hlt | rfl
    · exact Or.inl (hy ▸ hlt)
    · exact Or.inr ⟨hy, heven⟩

theorem roundEven_intCast (n : ℤ) : roundEven n = n := by
  unfold roundEven
  rw [Int.floor_intCast, sub_self, if_pos (Or.inl (by norm_num))]

/-- What lies strictly within half a unit of an integer is rounded to it. -/
theorem roundEven_eq {x : ℚ} {n : ℤ} (hlo : (n : ℚ) - 1 / 2 < x) (hhi : x < n + 1 / 2) : roundEven x = n := by
  have hle : roundEven x ≤ n := roundEven_le_iff.2 (Or.inl hhi)
  have hge : ¬roundEven x ≤ n - 1 := by
    rw [roundEven_le_iff]
    push_cast
    rintro (h | ⟨h, -⟩) <;> linarith
  omega

/-- Rounding moves a number by half a unit at most. -/
theorem abs_sub_roundEven (x : ℚ) : |roundEven x - x| ≤ 1 / 2 := by
  have hlo := Int.floor_le x
  have hhi := Int.lt_floor_add_one x
  unfold roundEven
  rw [abs_le]
  split
  · rename_i hdown
    rcases hdown with hdown | ⟨hhalf, -⟩ <;> constructor <;> linarith
  · rename_i hup
    have hge : 1 / 2 ≤ x - ⌊x⌋ := not_lt.1 fun h => hup (Or.inl h)
    push_cast
    constructor <;> linarith

/-! ## Rounding to 53 bits -/

/-- The exponent of the last bit a number of this size has. -/
def lastBit (x : ℚ) : ℤ := max (Int.log 2 x - 52) (-1074)

/-- The nearest number of the format, if its exponent were not bounded above. -/
def nearest (x : ℚ) : ℚ := roundEven (x / 2 ^ lastBit x) * 2 ^ lastBit x

/-- The numbers of the format: up to 53 bits in front of a last one. -/
def Representable (d : ℚ) : Prop := ∃ (m : ℕ) (e : ℤ), d = (m : ℚ) * 2 ^ e ∧ m ≤ 2 ^ 53 ∧ -1074 ≤ e

theorem nearest_zero : nearest 0 = 0 := by
  unfold nearest
  rw [zero_div, ← Int.cast_zero, roundEven_intCast, Int.cast_zero, zero_mul]

theorem two_zpow_pos (e : ℤ) : (0 : ℚ) < 2 ^ e := zpow_pos (by norm_num) e

theorem two_zpow_add (e : ℤ) (k : ℕ) : (2 : ℚ) ^ (e + k) = 2 ^ k * 2 ^ e := by
  rw [add_comm, zpow_add₀ (by norm_num), zpow_natCast]

variable {x y d : ℚ}

theorem lastBit_mono (hx : 0 < x) (h : x ≤ y) : lastBit x ≤ lastBit y :=
  max_le_max_right _ (sub_le_sub_right (Int.log_mono_right hx h) _)

/-- A number has at most 53 bits from its last one up, and, unless it is subnormal, no fewer. -/
theorem lt_pow_lastBit (x : ℚ) : x < 2 ^ (lastBit x + 53) := by
  have hlog := Int.lt_zpow_succ_log_self (b := 2) (by norm_num) x
  push_cast at hlog
  refine hlog.trans_le (zpow_le_zpow_right₀ (by norm_num) ?_)
  unfold lastBit
  omega

theorem pow_lastBit_le (hx : 0 < x) (h : -1074 < lastBit x) : (2 : ℚ) ^ (lastBit x + 52) ≤ x := by
  have hlog := Int.zpow_log_le_self (b := 2) (by norm_num) hx
  push_cast at hlog
  have heq : lastBit x + 52 = Int.log 2 x := by
    unfold lastBit at h ⊢
    omega
  rw [heq]
  exact hlog

theorem le_lastBit (x : ℚ) : -1074 ≤ lastBit x := le_max_right _ _

/-- The last bit of a number between two powers of two. -/
theorem lastBit_eq {e : ℤ} (he : -1074 ≤ e) (hlo : (2 : ℚ) ^ (e + 52) ≤ x) (hhi : x < 2 ^ (e + 53)) :
    lastBit x = e := by
  have hx : 0 < x := (two_zpow_pos _).trans_le hlo
  have hlog : Int.log 2 x = e + 52 := by
    refine le_antisymm ?_ ?_
    · refine Int.lt_add_one_iff.1 ((Int.lt_zpow_iff_log_lt (by norm_num) hx).1 ?_)
      push_cast
      rw [add_assoc]
      exact hhi
    · refine (Int.zpow_le_iff_le_log (by norm_num) hx).1 ?_
      push_cast
      exact hlo
  unfold lastBit
  omega

/-- In units of its last bit a number is rounded to 53 bits at most, the next power of two included. -/
theorem roundEven_lastBit (hx : 0 ≤ x) :
    0 ≤ roundEven (x / 2 ^ lastBit x) ∧ roundEven (x / 2 ^ lastBit x) ≤ 2 ^ 53 := by
  have hpos := two_zpow_pos (lastBit x)
  constructor
  · rw [← roundEven_intCast 0]
    exact roundEven_mono (by push_cast; positivity)
  · rw [← roundEven_intCast (2 ^ 53)]
    refine roundEven_mono ?_
    have hlt : x < 2 ^ 53 * 2 ^ lastBit x := (lt_pow_lastBit x).trans_eq (two_zpow_add _ 53)
    rw [div_le_iff₀ hpos]
    push_cast
    exact_mod_cast hlt.le

theorem representable_nearest (hx : 0 ≤ x) : Representable (nearest x) := by
  obtain ⟨hnonneg, hle⟩ := roundEven_lastBit hx
  refine ⟨(roundEven (x / 2 ^ lastBit x)).toNat, lastBit x, ?_, by omega, le_lastBit x⟩
  have hcast : (((roundEven (x / 2 ^ lastBit x)).toNat : ℤ) : ℚ) = roundEven (x / 2 ^ lastBit x) := by
    rw [Int.toNat_of_nonneg hnonneg]
  unfold nearest
  rw [← hcast, Int.cast_natCast]

theorem nearest_nonneg (hx : 0 ≤ x) : 0 ≤ nearest x :=
  mul_nonneg (by exact_mod_cast (roundEven_lastBit hx).1) (two_zpow_pos _).le

/-- A number of the format is a multiple of its last bit. -/
theorem Representable.units (h : Representable d) (hd : 0 < d) : ∃ n : ℤ, d = n * 2 ^ lastBit d := by
  obtain ⟨m, e, hme, hm, he⟩ := h
  generalize hb : lastBit d = b
  by_cases hle : b ≤ e
  · refine ⟨m * 2 ^ (e - b).toNat, ?_⟩
    have hsplit : (2 : ℚ) ^ e = 2 ^ (e - b).toNat * 2 ^ b := by
      rw [← zpow_natCast, Int.toNat_of_nonneg (by omega), ← zpow_add₀ (by norm_num)]
      congr 1
      omega
    push_cast
    rw [hme, hsplit, mul_assoc]
  · -- only the next power of two lies beyond 53 bits
    have hlow := pow_lastBit_le hd (by omega)
    rw [hb] at hlow
    have hup : d ≤ 2 ^ (e + 53) := by
      rw [hme]
      refine le_trans ?_ (two_zpow_add e 53).ge
      exact mul_le_mul_of_nonneg_right (by exact_mod_cast hm) (two_zpow_pos e).le
    have hexp : b + 52 ≤ e + 53 := (zpow_le_zpow_iff_right₀ (by norm_num)).1 (hlow.trans hup)
    obtain rfl : b = e + 1 := by omega
    refine ⟨2 ^ 52, (le_antisymm hup ?_).trans ?_⟩
    · rw [show e + 53 = e + 1 + 52 by ring]
      exact hlow
    · rw [show e + 53 = e + 1 + 52 by ring]
      exact (two_zpow_add (e + 1) 52).trans (by norm_num)

/-- The numbers of the format are left alone. -/
theorem nearest_eq_self (hd : 0 < d) (h : Representable d) : nearest d = d := by
  obtain ⟨n, hn⟩ := h.units hd
  unfold nearest
  nth_rewrite 1 [hn]
  rw [mul_div_assoc, div_self (two_zpow_pos _).ne', mul_one, roundEven_intCast, ← hn]

/-- A number with all its bits keeps its power of two. -/
theorem pow_le_nearest (hx : 0 < x) (h : -1074 < lastBit x) : (2 : ℚ) ^ (lastBit x + 52) ≤ nearest x := by
  have hpos := two_zpow_pos (lastBit x)
  have hle := pow_lastBit_le hx h
  have hsplit : (2 : ℚ) ^ (lastBit x + 52) = 2 ^ 52 * 2 ^ lastBit x := two_zpow_add _ 52
  rw [hsplit] at hle ⊢
  apply mul_le_mul_of_nonneg_right ?_ hpos.le
  have hround : roundEven ((2 ^ 52 : ℤ) : ℚ) ≤ roundEven (x / 2 ^ lastBit x) := by
    refine roundEven_mono ?_
    rw [le_div_iff₀ hpos]
    push_cast
    exact_mod_cast hle
  rw [roundEven_intCast] at hround
  exact_mod_cast hround

/-- Rounding is monotone. -/
theorem nearest_mono (hx : 0 < x) (h : x ≤ y) : nearest x ≤ nearest y := by
  have hpos := two_zpow_pos (lastBit x)
  rcases (lastBit_mono hx h).eq_or_lt with heq | hlt
  · unfold nearest
    rw [← heq]
    refine mul_le_mul_of_nonneg_right ?_ hpos.le
    exact_mod_cast roundEven_mono (div_le_div_of_nonneg_right h hpos.le)
  · -- a power of two lies in between
    have hlow : nearest x ≤ 2 ^ (lastBit x + 53) := by
      refine le_trans ?_ (two_zpow_add _ 53).ge
      exact mul_le_mul_of_nonneg_right (by exact_mod_cast (roundEven_lastBit hx.le).2) hpos.le
    have hup := pow_le_nearest (hx.trans_le h) ((le_lastBit x).trans_lt hlt)
    exact (hlow.trans (zpow_le_zpow_right₀ (by norm_num) (by omega))).trans hup

/-- A number is read as one that is half its last bit away at most. -/
theorem abs_nearest_sub (x : ℚ) : |nearest x - x| ≤ 2 ^ lastBit x / 2 := by
  have hpos := two_zpow_pos (lastBit x)
  have hmul : nearest x - x = (roundEven (x / 2 ^ lastBit x) - x / 2 ^ lastBit x) * 2 ^ lastBit x := by
    unfold nearest
    rw [sub_mul, div_mul_cancel₀ x hpos.ne']
  rw [hmul, abs_mul, abs_of_pos hpos]
  have hround := mul_le_mul_of_nonneg_right (abs_sub_roundEven (x / 2 ^ lastBit x)) hpos.le
  linarith

/-- It has no coarser bits than the number it is read as. -/
theorem lastBit_le_nearest (hx : 0 < x) : lastBit x ≤ lastBit (nearest x) := by
  by_contra hlt
  have hless := not_le.1 hlt
  have hup := pow_le_nearest hx ((le_lastBit _).trans_lt hless)
  have hlow := lt_pow_lastBit (nearest x)
  have hexp : lastBit x + 52 < lastBit (nearest x) + 53 :=
    (zpow_lt_zpow_iff_right₀ (by norm_num)).1 (hup.trans_lt hlow)
  omega

/-- Whatever lies between a number of the format and a number that is read as it is read as it, too. -/
theorem nearest_of_between (hd : nearest d = d) (hx : 0 < x) (hxd : nearest x = d)
    (h : (x ≤ y ∧ y ≤ d) ∨ (d ≤ y ∧ y ≤ x)) (hd0 : 0 < d) : nearest y = d := by
  rcases h with ⟨hlo, hhi⟩ | ⟨hlo, hhi⟩
  · refine le_antisymm ?_ ?_
    · exact (nearest_mono (hx.trans_le hlo) hhi).trans_eq hd
    · exact hxd.symm.trans_le (nearest_mono hx hlo)
  · refine le_antisymm ?_ ?_
    · exact (nearest_mono (hd0.trans_le hlo) hhi).trans_eq hxd
    · exact hd.symm.trans_le (nearest_mono hd0 hlo)

/-- In the units of some bit a number that lies within half of it is rounded to the multiple. -/
theorem nearest_of_units {e n : ℤ} (he : lastBit x = e) (hlo : n - 1 / 2 < x / 2 ^ e) (hhi : x / 2 ^ e < n + 1 / 2) :
    nearest x = n * 2 ^ e := by
  unfold nearest
  rw [he, roundEven_eq hlo hhi]

/-- The next power of two is a last bit away at least, so half of it more leaves the bits as coarse. -/
theorem lastBit_le_of_close (hd : Representable d) (hd0 : 0 < d) (hx : 0 < x)
    (hclose : x < d + 2 ^ lastBit d / 2) : lastBit x ≤ lastBit d := by
  obtain ⟨n, hn⟩ := hd.units hd0
  have hlt := lt_pow_lastBit d
  have hge := le_lastBit d
  generalize lastBit d = e at *
  have hpos := two_zpow_pos e
  have h53 : (2 : ℚ) ^ (e + 53) = 2 ^ 53 * 2 ^ e := two_zpow_add e 53
  by_contra hnot
  have hmore := not_le.1 hnot
  have hxge : 2 ^ 53 * 2 ^ e ≤ x := by
    rw [← h53]
    exact (zpow_le_zpow_right₀ (by norm_num) (by omega)).trans (pow_lastBit_le hx (by omega))
  have hnlt : n + 1 ≤ 2 ^ 53 := by
    rw [hn, h53] at hlt
    exact Int.add_one_le_iff.2 (by exact_mod_cast lt_of_mul_lt_mul_right hlt hpos.le)
  have hnlt' : ((n + 1 : ℤ) : ℚ) ≤ (2 ^ 53 : ℤ) := by exact_mod_cast hnlt
  push_cast at hnlt'
  have hmul := mul_le_mul_of_nonneg_right hnlt' hpos.le
  rw [add_mul, ← hn, one_mul] at hmul
  linarith

/-- Only just below a power of two a number so close has finer bits. -/
theorem eq_pow_of_finer (hd : Representable d) (hd0 : 0 < d) (hclose : d < x + 2 ^ lastBit d / 2)
    (hless : lastBit x < lastBit d) : d = 2 ^ (lastBit d + 52) ∧ x < 2 ^ (lastBit d + 52) := by
  obtain ⟨n, hn⟩ := hd.units hd0
  have hlow := pow_lastBit_le hd0 ((le_lastBit x).trans_lt hless)
  generalize lastBit d = e at *
  have hpos := two_zpow_pos e
  have h52 : (2 : ℚ) ^ (e + 52) = 2 ^ 52 * 2 ^ e := two_zpow_add e 52
  have hxlt : x < 2 ^ (e + 52) :=
    (lt_pow_lastBit x).trans_le (zpow_le_zpow_right₀ (by norm_num) (by omega))
  refine ⟨?_, hxlt⟩
  rw [h52] at hxlt hlow ⊢
  have hn52 : n = 2 ^ 52 := by
    refine le_antisymm (not_lt.1 fun hmore => ?_) ?_
    · have hmore' : ((2 ^ 52 + 1 : ℤ) : ℚ) ≤ n := by exact_mod_cast hmore
      push_cast at hmore'
      have hmul := mul_le_mul_of_nonneg_right hmore' hpos.le
      rw [← hn] at hmul
      linarith
    · rw [hn] at hlow
      exact_mod_cast le_of_mul_le_mul_right hlow hpos
  rw [hn, hn52]
  norm_num

/-- Below a power of two the bits are half as coarse, and half of such a bit is a quarter. -/
theorem nearest_below_pow {e : ℤ} (he : -1074 < e) (hhi : x < 2 ^ (e + 52))
    (hclose : 2 ^ (e + 52) - x < 2 ^ e / 4) : nearest x = 2 ^ (e + 52) := by
  have h52 : (2 : ℚ) ^ (e + 52) = 2 ^ 52 * 2 ^ e := two_zpow_add e 52
  have hexp : (2 : ℚ) ^ (e - 1 + 52) = 2 ^ 52 * 2 ^ (e - 1) := two_zpow_add (e - 1) 52
  have hhalf : (2 : ℚ) ^ e = 2 * 2 ^ (e - 1) := by
    rw [zpow_sub_one₀ (by norm_num)]
    ring
  have hpos := two_zpow_pos (e - 1)
  have hbelow : lastBit x = e - 1 := by
    apply lastBit_eq (by omega)
    · rw [hexp]
      linarith
    · rw [show e - 1 + 53 = e + 52 by ring]
      exact hhi
  rw [@nearest_of_units x (e - 1) (2 ^ 53) hbelow, h52, hhalf]
  · norm_num
    ring
  · rw [lt_div_iff₀ hpos]
    push_cast
    linarith
  · rw [div_lt_iff₀ hpos]
    push_cast
    linarith

/-- What is close enough to a number of the format is read as it: within half its last bit, and within
a quarter below a power of two, where the bits get finer. -/
theorem nearest_of_close (hd : Representable d) (hd0 : 0 < d) (hx : 0 < x)
    (hclose : |x - d| < 2 ^ lastBit d / 2) (hfine : d = 2 ^ (lastBit d + 52) → d - x < 2 ^ lastBit d / 4) :
    nearest x = d := by
  obtain ⟨hlo, hhi⟩ := abs_lt.1 hclose
  have hle : lastBit x ≤ lastBit d := by
    apply lastBit_le_of_close hd hd0 hx
    linarith
  rcases hle.lt_or_eq with hless | heq
  · obtain ⟨hpow, hxlt⟩ := eq_pow_of_finer hd hd0 (by linarith) hless
    have hquarter := hfine hpow
    generalize lastBit d = e at *
    subst hpow
    exact nearest_below_pow ((le_lastBit x).trans_lt hless) hxlt hquarter
  · obtain ⟨n, hn⟩ := hd.units hd0
    have hpos := two_zpow_pos (lastBit d)
    rw [nearest_of_units heq, ← hn]
    · rw [lt_div_iff₀ hpos]
      linarith
    · rw [div_lt_iff₀ hpos]
      linarith

end Binary64
