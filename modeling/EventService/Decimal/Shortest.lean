/-
The shortest decimal that is read as a given binary number, the closest one if there are several, and
the one with the even last digit between two that are equally close. For each number of digits only the
decimals on either side of the number can be read as it, and with seventeen digits one of them is.
-/
import EventService.Decimal.Binary64
import EventService.Decimal.Places

namespace Binary64

open Decimal

/-! ## Looking for it -/

/-- The exponent of the last of `n` digits. -/
def quantum (d : ℚ) (n : ℕ) : ℤ := Int.log 10 d - n + 1

/-- The decimal of `n` digits that is read as `d`, in units of its last digit. -/
def pick (d : ℚ) (n : ℕ) : Option ℤ :=
  let unit : ℚ := 10 ^ quantum d n
  let c := ⌊d / unit⌋
  if nearest (c * unit) = d then
    if nearest ((c + 1) * unit) = d then some (roundEven (d / unit)) else some c
  else if nearest ((c + 1) * unit) = d then some (c + 1)
  else none

/-- The first number of digits, from `n` on, with which there is one. -/
def shortestFrom (d : ℚ) (n : ℕ) : ℕ → ℤ × ℤ
  | 0 => (0, 0)
  | fuel + 1 =>
    match pick d n with
    | some c => (c, quantum d n)
    | none => shortestFrom d (n + 1) fuel

/-- The digits and the exponent of the shortest decimal that is read as `d`. -/
def shortest (d : ℚ) : ℤ × ℤ := shortestFrom d 1 17

/-! ## What it is -/

/-- `x` is closer to `d` than every other decimal of `n` digits that is read as `d`, or it has the even last
digit of the two that are closest. -/
def Closest (n : ℕ) (d x : ℚ) : Prop := ∀ y, 0 < y → nearest y = d → FewDigits n y →
  y = x ∨ |x - d| < |y - d| ∨ (|x - d| = |y - d| ∧ ∃ k : ℤ, x = 2 * k * 10 ^ quantum d n)

/-- Of all decimals that are read as `d`, none has fewer than `n` digits, and `x` is picked from those with
`n`. -/
structure ShortestWith (n : ℕ) (d x : ℚ) : Prop where
  pos : 0 < x
  reads : nearest x = d
  digits : FewDigits n x
  fewest : ∀ y, 0 < y → nearest y = d → ∀ m < n, ¬FewDigits m y
  closest : Closest n d x

/-- `x` is the shortest decimal that is read as `d`. -/
def IsShortest (d x : ℚ) : Prop := ∃ n, ShortestWith n d x

/-! ## The decimals on either side -/

theorem ten_zpow_pos (q : ℤ) : (0 : ℚ) < 10 ^ q := zpow_pos (by norm_num) q

/-- The decimal of `n` digits below `d`. -/
def lower (d : ℚ) (n : ℕ) : ℚ := ⌊d / 10 ^ quantum d n⌋ * 10 ^ quantum d n

/-- The decimal of `n` digits above `d`. -/
def upper (d : ℚ) (n : ℕ) : ℚ := (⌊d / 10 ^ quantum d n⌋ + 1) * 10 ^ quantum d n

section Sides

variable {d y : ℚ} {n : ℕ}

theorem lower_le (d : ℚ) (n : ℕ) : lower d n ≤ d :=
  (le_div_iff₀ (ten_zpow_pos _)).1 (Int.floor_le _)

theorem lt_upper (d : ℚ) (n : ℕ) : d < upper d n :=
  (div_lt_iff₀ (ten_zpow_pos _)).1 (Int.lt_floor_add_one _)

theorem upper_eq (d : ℚ) (n : ℕ) : upper d n = lower d n + 10 ^ quantum d n := by
  unfold upper lower
  ring

theorem pow_log_le (hd : 0 < d) : (10 : ℚ) ^ Int.log 10 d ≤ d := by
  have hlog := Int.zpow_log_le_self (b := 10) (by norm_num) hd
  exact_mod_cast hlog

theorem lt_pow_log (d : ℚ) : d < (10 : ℚ) ^ (Int.log 10 d + 1) := by
  have hlog := Int.lt_zpow_succ_log_self (b := 10) (by norm_num) d
  exact_mod_cast hlog

/-- The power of ten of the first digit, in units of the last. -/
theorem pow_log_eq (d : ℚ) (hn : 1 ≤ n) :
    (10 : ℚ) ^ Int.log 10 d = ((10 ^ (n - 1) : ℕ) : ℚ) * 10 ^ quantum d n := by
  push_cast
  rw [← zpow_natCast, ← zpow_add₀ (by norm_num)]
  congr 1
  unfold quantum
  push_cast [hn]
  ring

/-- A decimal of `n` digits that reaches the first digit of `d` is a multiple of the unit. -/
theorem exists_units (hy : FewDigits n y) (hy0 : 0 < y) (hle : (10 : ℚ) ^ Int.log 10 d ≤ y) :
    ∃ m : ℤ, y = m * 10 ^ quantum d n := by
  obtain ⟨m, k, hm, heq⟩ := hy
  rw [abs_of_pos hy0] at heq
  have hlt : (10 : ℚ) ^ Int.log 10 d < 10 ^ (n + k) := by
    refine hle.trans_lt ?_
    rw [heq, zpow_add₀ (by norm_num), zpow_natCast]
    exact mul_lt_mul_of_pos_right (by exact_mod_cast hm) (ten_zpow_pos k)
  have hexp : Int.log 10 d < n + k := (zpow_lt_zpow_iff_right₀ (by norm_num)).1 hlt
  refine ⟨m * 10 ^ (k - quantum d n).toNat, ?_⟩
  have hsplit : (10 : ℚ) ^ k = 10 ^ (k - quantum d n).toNat * 10 ^ quantum d n := by
    rw [← zpow_natCast, Int.toNat_of_nonneg (by unfold quantum; omega), ← zpow_add₀ (by norm_num)]
    congr 1
    omega
  push_cast
  rw [heq, hsplit, mul_assoc]

/-- The first digit of `d` lies below it, too. -/
theorem pow_log_le_lower (hd : 0 < d) (hn : 1 ≤ n) : (10 : ℚ) ^ Int.log 10 d ≤ lower d n := by
  have hle := pow_log_le hd
  rw [pow_log_eq d hn] at hle ⊢
  refine mul_le_mul_of_nonneg_right ?_ (ten_zpow_pos _).le
  have hfloor : ((10 ^ (n - 1) : ℕ) : ℤ) ≤ ⌊d / 10 ^ quantum d n⌋ := by
    rw [Int.le_floor, le_div_iff₀ (ten_zpow_pos _)]
    exact_mod_cast hle
  exact_mod_cast hfloor

theorem lower_pos (hd : 0 < d) (hn : 1 ≤ n) : 0 < lower d n := (ten_zpow_pos _).trans_le (pow_log_le_lower hd hn)

/-- No decimal of `n` digits lies between `lower` and `d`. -/
theorem le_lower (hd : 0 < d) (hn : 1 ≤ n) (hy : FewDigits n y) (hy0 : 0 < y) (hle : y ≤ d) : y ≤ lower d n := by
  by_cases hlow : (10 : ℚ) ^ Int.log 10 d ≤ y
  · obtain ⟨m, rfl⟩ := exists_units hy hy0 hlow
    refine mul_le_mul_of_nonneg_right ?_ (ten_zpow_pos _).le
    have hfloor : m ≤ ⌊d / 10 ^ quantum d n⌋ := by
      rw [Int.le_floor, le_div_iff₀ (ten_zpow_pos _)]
      exact hle
    exact_mod_cast hfloor
  · exact (not_le.1 hlow).le.trans (pow_log_le_lower hd hn)

/-- Nor between `d` and `upper`. -/
theorem upper_le (hd : 0 < d) (hy : FewDigits n y) (hlt : d < y) : upper d n ≤ y := by
  obtain ⟨m, rfl⟩ := exists_units hy (hd.trans hlt) ((pow_log_le hd).trans hlt.le)
  refine mul_le_mul_of_nonneg_right ?_ (ten_zpow_pos _).le
  have hfloor : ⌊d / 10 ^ quantum d n⌋ < m := by
    rw [Int.floor_lt, div_lt_iff₀ (ten_zpow_pos _)]
    exact hlt
  exact_mod_cast hfloor

/-- So many units are `n` digits, or a power of ten. -/
theorem fewDigits_units (hn : 1 ≤ n) {c : ℤ} (hc : 0 ≤ c) (hle : c ≤ 10 ^ n) (q : ℤ) :
    FewDigits n ((c : ℚ) * 10 ^ q) := by
  have hpos := ten_zpow_pos q
  have hc' : (0 : ℚ) ≤ c := by exact_mod_cast hc
  rw [FewDigits, abs_of_nonneg (mul_nonneg hc' hpos.le)]
  rcases hle.lt_or_eq with hlt | rfl
  · refine ⟨c.toNat, q, (Int.toNat_lt hc).2 (by exact_mod_cast hlt), ?_⟩
    have hcast : ((c.toNat : ℤ) : ℚ) = c := by rw [Int.toNat_of_nonneg hc]
    rw [← hcast, Int.cast_natCast]
  · refine ⟨1, n + q, Nat.one_lt_pow (by omega) (by norm_num), ?_⟩
    rw [zpow_add₀ (by norm_num), zpow_natCast]
    push_cast
    ring

theorem floor_units (hd : 0 < d) (n : ℕ) :
    0 ≤ ⌊d / 10 ^ quantum d n⌋ ∧ ⌊d / 10 ^ quantum d n⌋ < 10 ^ n := by
  have hpos := ten_zpow_pos (quantum d n)
  constructor
  · exact Int.floor_nonneg.2 (div_pos hd hpos).le
  · rw [Int.floor_lt, div_lt_iff₀ hpos]
    push_cast
    rw [← zpow_natCast, ← zpow_add₀ (by norm_num)]
    have hexp : (n : ℤ) + quantum d n = Int.log 10 d + 1 := by
      unfold quantum
      ring
    rw [hexp]
    exact lt_pow_log d

theorem fewDigits_lower (hd : 0 < d) (hn : 1 ≤ n) : FewDigits n (lower d n) := by
  obtain ⟨hnonneg, hlt⟩ := floor_units hd n
  exact fewDigits_units hn hnonneg hlt.le _

theorem fewDigits_upper (hd : 0 < d) (hn : 1 ≤ n) : FewDigits n (upper d n) := by
  obtain ⟨hnonneg, hlt⟩ := floor_units hd n
  have hupper : upper d n = ((⌊d / 10 ^ quantum d n⌋ + 1 : ℤ) : ℚ) * 10 ^ quantum d n := by
    unfold upper
    push_cast
    rfl
  rw [hupper]
  exact fewDigits_units hn (by omega) (by omega) _

end Sides

/-! ## The search -/

section Search

variable {d x y : ℚ} {n : ℕ}

/-- Every decimal of `n` digits that is read as `d` lies beyond one of the two on either side, which is
then read as `d`, too. -/
theorem side_of_reads (hd : 0 < d) (hself : nearest d = d) (hn : 1 ≤ n) (hy0 : 0 < y) (hy : nearest y = d)
    (hdigits : FewDigits n y) :
    (y ≤ lower d n ∧ nearest (lower d n) = d) ∨ (upper d n ≤ y ∧ nearest (upper d n) = d) := by
  rcases le_or_gt y d with hle | hlt
  · have hlow := le_lower hd hn hdigits hy0 hle
    exact Or.inl ⟨hlow, nearest_of_between hself hy0 hy (Or.inl ⟨hlow, lower_le d n⟩) hd⟩
  · have hup := upper_le hd hdigits hlt
    exact Or.inr ⟨hup, nearest_of_between hself hy0 hy (Or.inr ⟨(lt_upper d n).le, hup⟩) hd⟩

/-- Where there is no decimal of `n` digits that is read as `d`, none is picked. -/
theorem pick_eq_none (hd : 0 < d) (hself : nearest d = d) (hn : 1 ≤ n) (h : pick d n = none) (hy0 : 0 < y)
    (hy : nearest y = d) : ¬FewDigits n y := by
  intro hdigits
  unfold pick at h
  dsimp only at h
  split at h
  · split at h <;> cases h
  · rename_i hlower
    split at h
    · cases h
    · rename_i hupper
      rcases side_of_reads hd hself hn hy0 hy hdigits with ⟨-, hreads⟩ | ⟨-, hreads⟩
      · exact hlower hreads
      · exact hupper hreads

/-- The lower side is picked if the upper one is not read as `d` or is no closer. -/
theorem closest_lower (hd : 0 < d) (hself : nearest d = d) (hn : 1 ≤ n)
    (h : nearest (upper d n) = d → d - lower d n < upper d n - d ∨
      (d - lower d n = upper d n - d ∧ ⌊d / 10 ^ quantum d n⌋ % 2 = 0)) : Closest n d (lower d n) := by
  intro y hy0 hy hdigits
  have hle := lower_le d n
  have hlt := lt_upper d n
  rw [abs_of_nonpos (sub_nonpos.2 hle)]
  rcases side_of_reads hd hself hn hy0 hy hdigits with ⟨hside, -⟩ | ⟨hside, hreads⟩
  · rcases hside.eq_or_lt with heq | hless
    · exact Or.inl heq
    · refine Or.inr (Or.inl ?_)
      rw [abs_of_nonpos (by linarith)]
      linarith
  · rw [abs_of_nonneg (by linarith)]
    rcases h hreads with hcloser | ⟨htie, heven⟩
    · exact Or.inr (Or.inl (by linarith))
    · rcases hside.eq_or_lt with heq | hless
      · refine Or.inr (Or.inr ⟨by linarith, ⌊d / 10 ^ quantum d n⌋ / 2, ?_⟩)
        unfold lower
        congr 1
        exact_mod_cast (Int.mul_ediv_cancel' (Int.dvd_of_emod_eq_zero heven)).symm
      · exact Or.inr (Or.inl (by linarith))

/-- The upper side is picked if the lower one is not read as `d` or is no closer. -/
theorem closest_upper (hd : 0 < d) (hself : nearest d = d) (hn : 1 ≤ n)
    (h : nearest (lower d n) = d → upper d n - d < d - lower d n ∨
      (upper d n - d = d - lower d n ∧ ⌊d / 10 ^ quantum d n⌋ % 2 = 1)) : Closest n d (upper d n) := by
  intro y hy0 hy hdigits
  have hle := lower_le d n
  have hlt := lt_upper d n
  rw [abs_of_pos (sub_pos.2 hlt)]
  rcases side_of_reads hd hself hn hy0 hy hdigits with ⟨hside, hreads⟩ | ⟨hside, -⟩
  · rw [abs_of_nonpos (by linarith)]
    rcases h hreads with hcloser | ⟨htie, hodd⟩
    · exact Or.inr (Or.inl (by linarith))
    · rcases hside.eq_or_lt with heq | hless
      · refine Or.inr (Or.inr ⟨by linarith, (⌊d / 10 ^ quantum d n⌋ + 1) / 2, ?_⟩)
        unfold upper
        congr 1
        have heven : (⌊d / 10 ^ quantum d n⌋ + 1) % 2 = 0 := by omega
        exact_mod_cast (Int.mul_ediv_cancel' (Int.dvd_of_emod_eq_zero heven)).symm
      · exact Or.inr (Or.inl (by linarith))
  · rcases hside.eq_or_lt with heq | hless
    · exact Or.inl heq.symm
    · refine Or.inr (Or.inl ?_)
      rw [abs_of_nonneg (by linarith)]
      linarith

/-- How far the two sides are from `d`, in units. -/
theorem sides_sub (d : ℚ) (n : ℕ) :
    d - lower d n = (d / 10 ^ quantum d n - ⌊d / 10 ^ quantum d n⌋) * 10 ^ quantum d n ∧
      upper d n - d = (⌊d / 10 ^ quantum d n⌋ + 1 - d / 10 ^ quantum d n) * 10 ^ quantum d n := by
  have hunit : d / 10 ^ quantum d n * 10 ^ quantum d n = d := div_mul_cancel₀ d (ten_zpow_pos _).ne'
  unfold lower upper
  rw [sub_mul, sub_mul, hunit]
  exact ⟨rfl, rfl⟩

/-- What is picked is one of the two sides, and the closest decimal of `n` digits. -/
theorem pick_eq_some (hd : 0 < d) (hself : nearest d = d) (hn : 1 ≤ n) {c : ℤ} (h : pick d n = some c) :
    ((c : ℚ) * 10 ^ quantum d n = lower d n ∧ nearest (lower d n) = d ∧ Closest n d (lower d n)) ∨
      ((c : ℚ) * 10 ^ quantum d n = upper d n ∧ nearest (upper d n) = d ∧ Closest n d (upper d n)) := by
  have hpos := ten_zpow_pos (quantum d n)
  obtain ⟨hlower, hupper⟩ := sides_sub d n
  unfold pick at h
  dsimp only at h
  split at h
  · rename_i hreads
    split at h
    · rename_i hreads'
      obtain rfl := Option.some.inj h
      unfold roundEven
      split
      · rename_i hdown
        refine Or.inl ⟨rfl, hreads, closest_lower hd hself hn fun _ => ?_⟩
        rw [hlower, hupper]
        rcases hdown with hless | ⟨hhalf, heven⟩
        · exact Or.inl (mul_lt_mul_of_pos_right (by linarith) hpos)
        · exact Or.inr ⟨congrArg (· * _) (by linarith), heven⟩
      · rename_i hup
        rw [not_or, not_lt, not_and] at hup
        refine Or.inr ⟨by push_cast; rfl, hreads', closest_upper hd hself hn fun _ => ?_⟩
        rw [hlower, hupper]
        rcases hup.1.lt_or_eq with hmore | hhalf
        · exact Or.inl (mul_lt_mul_of_pos_right (by linarith) hpos)
        · exact Or.inr ⟨congrArg (· * _) (by linarith), by have := hup.2 hhalf.symm; omega⟩
    · rename_i hnot
      obtain rfl := Option.some.inj h
      exact Or.inl ⟨rfl, hreads, closest_lower hd hself hn fun hreads' => absurd hreads' hnot⟩
  · rename_i hnot
    split at h
    · rename_i hreads'
      obtain rfl := Option.some.inj h
      exact Or.inr ⟨by push_cast; rfl, hreads', closest_upper hd hself hn fun hreads => absurd hreads hnot⟩
    · cases h

/-- Seventeen digits suffice: their unit is less than the last bit, and less than half of it just above a
power of two. -/
theorem nearest_of_seventeen (hd : 0 < d) (hrep : Representable d) (hx : 0 < x)
    (hclose : |x - d| ≤ 10 ^ quantum d 17 / 2) : nearest x = d := by
  have hpos := two_zpow_pos (lastBit d)
  have hunit : 10 ^ 16 * (10 : ℚ) ^ quantum d 17 ≤ d := by
    refine le_trans (le_of_eq ?_) (pow_log_le hd)
    rw [pow_log_eq d (show 1 ≤ 17 by norm_num)]
    norm_num
  have hlt := lt_pow_lastBit d
  rw [add_comm, zpow_add₀ (by norm_num)] at hlt
  norm_num at hlt hunit
  refine nearest_of_close hrep hd hx (hclose.trans_lt ?_) fun hpow => ?_
  · linarith
  · rw [add_comm, zpow_add₀ (by norm_num)] at hpow
    norm_num at hpow
    have hsub : d - x ≤ |x - d| := by
      rw [abs_sub_comm]
      exact le_abs_self _
    linarith

theorem pick_seventeen (hd : 0 < d) (hrep : Representable d) : ∃ c, pick d 17 = some c := by
  cases h : pick d 17 with
  | some c => exact ⟨c, rfl⟩
  | none =>
    have hself := nearest_eq_self hd hrep
    have hnone := fun y => @pick_eq_none d y 17 hd hself (by norm_num) h
    have hle := lower_le d 17
    have hlt := lt_upper d 17
    have hgap := upper_eq d 17
    -- the closer side is half a unit away at most
    rcases le_or_gt (d - lower d 17) (10 ^ quantum d 17 / 2) with hclose | hfar
    · have hpos := lower_pos hd (show 1 ≤ 17 by norm_num)
      refine absurd (fewDigits_lower hd (by norm_num)) (hnone _ hpos (nearest_of_seventeen hd hrep hpos ?_))
      rw [abs_of_nonpos (by linarith)]
      linarith
    · have hpos := hd.trans hlt
      refine absurd (fewDigits_upper hd (by norm_num)) (hnone _ hpos (nearest_of_seventeen hd hrep hpos ?_))
      rw [abs_of_pos (by linarith)]
      linarith

/-- The search ends with the first number of digits that has a decimal. -/
theorem shortestFrom_spec {k fuel : ℕ} (hk : ∃ c, pick d k = some c) (hkn : n ≤ k) (hfuel : k < n + fuel)
    (hbefore : ∀ m, 1 ≤ m → m < n → pick d m = none) :
    ∃ n' c, n ≤ n' ∧ shortestFrom d n fuel = (c, quantum d n') ∧ pick d n' = some c ∧
      ∀ m, 1 ≤ m → m < n' → pick d m = none := by
  induction fuel generalizing n with
  | zero => omega
  | succ fuel ih =>
    unfold shortestFrom
    cases hpick : pick d n with
    | some c => exact ⟨n, c, le_rfl, rfl, hpick, hbefore⟩
    | none =>
      have hne : n ≠ k := by
        rintro rfl
        obtain ⟨c, hc⟩ := hk
        cases hpick.symm.trans hc
      have hnext : ∀ m, 1 ≤ m → m < n + 1 → pick d m = none := by
        intro m hm hlt
        rcases Nat.lt_succ_iff_lt_or_eq.1 hlt with hless | rfl
        · exact hbefore m hm hless
        · exact hpick
      have hle : n + 1 ≤ k := by omega
      obtain ⟨n', c, hle', hfound, hrest⟩ := ih hle (by omega) hnext
      exact ⟨n', c, by omega, hfound, hrest⟩

/-- No digits are no number but zero. -/
theorem not_fewDigits_zero (hx : 0 < x) : ¬FewDigits 0 x := by
  rintro ⟨m, k, hm, habs⟩
  obtain rfl : m = 0 := by omega
  rw [Nat.cast_zero, zero_mul, abs_eq_zero] at habs
  exact hx.ne' habs

/-- The value that is found. -/
def value (p : ℤ × ℤ) : ℚ := p.1 * 10 ^ p.2

theorem isShortest_shortest (hd : 0 < d) (hrep : Representable d) : IsShortest d (value (shortest d)) := by
  have hself := nearest_eq_self hd hrep
  obtain ⟨n, c, hn, heq, hpick, hbefore⟩ := shortestFrom_spec (pick_seventeen hd hrep) (show 1 ≤ 17 by norm_num)
    (show 17 < 1 + 17 by norm_num) fun m hm hlt => absurd hm (by omega)
  have hfewest : ∀ y, 0 < y → nearest y = d → ∀ m < n, ¬FewDigits m y := by
    intro y hy0 hy m hm hdigits
    rcases Nat.eq_zero_or_pos m with rfl | hpos
    · exact not_fewDigits_zero hy0 hdigits
    · exact pick_eq_none hd hself hpos (hbefore m hpos hm) hy0 hy hdigits
  have hvalue : value (shortest d) = (c : ℚ) * 10 ^ quantum d n := by
    unfold shortest
    rw [heq]
    rfl
  rw [hvalue]
  rcases pick_eq_some hd hself hn hpick with ⟨hside, hreads, hclosest⟩ | ⟨hside, hreads, hclosest⟩
  · rw [hside]
    exact ⟨n, lower_pos hd hn, hreads, fewDigits_lower hd hn, hfewest, hclosest⟩
  · rw [hside]
    exact ⟨n, hd.trans (lt_upper d n), hreads, fewDigits_upper hd hn, hfewest, hclosest⟩

theorem shortest_nonneg (hd : 0 < d) (hrep : Representable d) : 0 ≤ (shortest d).1 := by
  obtain ⟨n, h⟩ := isShortest_shortest hd hrep
  have hpos : (0 : ℚ) < (shortest d).1 := (mul_pos_iff_of_pos_right (ten_zpow_pos _)).1 h.pos
  exact_mod_cast hpos.le

theorem ShortestWith.one_le (h : ShortestWith n d x) : 1 ≤ n := by
  by_contra hn
  obtain rfl : n = 0 := by omega
  exact not_fewDigits_zero h.pos h.digits

/-- It is one of the two sides. -/
theorem ShortestWith.side (h : ShortestWith n d x) (hd : 0 < d) (hself : nearest d = d) :
    x = lower d n ∨ x = upper d n := by
  have hn := h.one_le
  have hle := lower_le d n
  have hlt := lt_upper d n
  rcases side_of_reads hd hself hn h.pos h.reads h.digits with ⟨hside, hreads⟩ | ⟨hside, hreads⟩
  · refine Or.inl (le_antisymm hside (not_lt.1 fun hless => ?_))
    -- the side itself would be closer
    have hcloser : |lower d n - d| < |x - d| := by
      rw [abs_of_nonpos (by linarith), abs_of_nonpos (by linarith)]
      linarith
    rcases h.closest _ (lower_pos hd hn) hreads (fewDigits_lower hd hn) with heq | hmore | ⟨heq, -⟩ <;> linarith
  · refine Or.inr (le_antisymm (not_lt.1 fun hless => ?_) hside)
    have hcloser : |upper d n - d| < |x - d| := by
      rw [abs_of_nonneg (by linarith), abs_of_nonneg (by linarith)]
      linarith
    rcases h.closest _ (hd.trans hlt) hreads (fewDigits_upper hd hn) with heq | hmore | ⟨heq, -⟩ <;> linarith

/-- Not both sides are shortest: of two that are equally close only one has an even last digit. -/
theorem not_both_sides (h : ShortestWith n d (lower d n)) (h' : ShortestWith n d (upper d n)) : False := by
  have hle := lower_le d n
  have hlt := lt_upper d n
  have hpos := ten_zpow_pos (quantum d n)
  have hgap := upper_eq d n
  rcases h.closest _ h'.pos h'.reads h'.digits with heq | hless | ⟨htie, k, hk⟩
  · linarith
  · rcases h'.closest _ h.pos h.reads h.digits with heq | hless' | ⟨htie', -⟩ <;> linarith
  · rcases h'.closest _ h.pos h.reads h.digits with heq | hless' | ⟨-, k', hk'⟩
    · linarith
    · linarith
    · rw [hk, hk'] at hgap
      have hodd : (2 * k' : ℚ) = 2 * k + 1 := by
        refine mul_right_cancel₀ hpos.ne' ?_
        rw [hgap]
        ring
      have hodd' : 2 * k' = 2 * k + 1 := by exact_mod_cast hodd
      omega

theorem IsShortest.unique (hd : 0 < d) (hself : nearest d = d) (h : IsShortest d x) (h' : IsShortest d y) :
    x = y := by
  obtain ⟨n, hx⟩ := h
  obtain ⟨n', hy⟩ := h'
  obtain rfl : n = n' := by
    rcases lt_trichotomy n n' with hlt | heq | hlt
    · exact absurd hx.digits (hy.fewest x hx.pos hx.reads n hlt)
    · exact heq
    · exact absurd hy.digits (hx.fewest y hy.pos hy.reads n' hlt)
  rcases hx.side hd hself with rfl | rfl
  · rcases hy.side hd hself with rfl | rfl
    · rfl
    · exact (not_both_sides hx hy).elim
  · rcases hy.side hd hself with rfl | rfl
    · exact (not_both_sides hy hx).elim
    · rfl

/-- What is found is the shortest decimal, and nothing else is. -/
theorem value_shortest_eq_iff (hd : 0 < d) (hrep : Representable d) :
    value (shortest d) = x ↔ IsShortest d x := by
  have hshortest := isShortest_shortest hd hrep
  constructor
  · rintro rfl
    exact hshortest
  · exact hshortest.unique hd (nearest_eq_self hd hrep)

/-- There is none for zero: a tenth of it would be read as zero, too, and be closer. -/
theorem not_isShortest_zero : ¬IsShortest 0 x := by
  rintro ⟨n, h⟩
  have hpos := h.pos
  have hreads : nearest (x / 10) = 0 := by
    refine le_antisymm ?_ (nearest_nonneg (by linarith))
    rw [← h.reads]
    exact nearest_mono (by linarith) (by linarith)
  obtain ⟨m, k, hm, hx⟩ := h.digits
  have hdigits : FewDigits n (x / 10) := by
    refine ⟨m, k - 1, hm, ?_⟩
    rw [abs_div, hx, zpow_sub_one₀ (by norm_num), abs_of_pos (by norm_num : (0 : ℚ) < 10)]
    ring
  have hcloser : |x / 10 - 0| < |x - 0| := by
    rw [sub_zero, sub_zero, abs_of_pos (by linarith), abs_of_pos hpos]
    linarith
  rcases h.closest _ (by linarith) hreads hdigits with heq | hmore | ⟨heq, -⟩ <;> linarith

/-- It has at most seventeen digits. -/
theorem IsShortest.fewDigits (hd : 0 < d) (hrep : Representable d) (h : IsShortest d x) : FewDigits 17 x := by
  obtain ⟨n, hx⟩ := h
  rcases le_or_gt n 17 with hle | hlt
  · exact hx.digits.mono hle
  · obtain ⟨c, hc⟩ := pick_seventeen hd hrep
    rcases pick_eq_some hd (nearest_eq_self hd hrep) (by norm_num) hc with ⟨-, hreads, -⟩ | ⟨-, hreads, -⟩
    · exact absurd (fewDigits_lower hd (by norm_num)) (hx.fewest _ (lower_pos hd (by norm_num)) hreads 17 hlt)
    · exact absurd (fewDigits_upper hd (by norm_num)) (hx.fewest _ (hd.trans (lt_upper d 17)) hreads 17 hlt)

/-- It is not much less than the number, of which the least is `2 ^ (-1074)`. -/
theorem IsShortest.ten_zpow_le (h : IsShortest d x) (hd : 0 < d) (hrep : Representable d) :
    (10 : ℚ) ^ (-324 : ℤ) ≤ x := by
  have hleast : (10 : ℚ) ^ (-324 : ℤ) ≤ d := by
    obtain ⟨m, e, rfl, -, he⟩ := hrep
    have hm : (1 : ℚ) ≤ m := by
      have hpos : (0 : ℚ) < m := (mul_pos_iff_of_pos_right (two_zpow_pos e)).1 hd
      exact_mod_cast hpos
    have hstep : (2 : ℚ) ^ (-1074 : ℤ) ≤ m * 2 ^ e := by
      refine (zpow_le_zpow_right₀ (by norm_num) he).trans ?_
      exact le_mul_of_one_le_left (two_zpow_pos e).le hm
    refine le_trans ?_ hstep
    rw [zpow_neg, zpow_neg]
    refine inv_anti₀ (two_zpow_pos _) ?_
    rw [show (1074 : ℤ) = ((179 * 6 : ℕ) : ℤ) from rfl, show (324 : ℤ) = ((54 * 6 : ℕ) : ℤ) from rfl,
      zpow_natCast, zpow_natCast, pow_mul, pow_mul]
    exact pow_le_pow_left₀ (by norm_num) (by norm_num) 6
  have hlog : (10 : ℚ) ^ (-324 : ℤ) ≤ 10 ^ Int.log 10 d :=
    zpow_le_zpow_right₀ (by norm_num) ((Int.zpow_le_iff_le_log (by norm_num) hd).1 hleast)
  obtain ⟨n, hx⟩ := h
  rcases hx.side hd (nearest_eq_self hd hrep) with rfl | rfl
  · exact hlog.trans (pow_log_le_lower hd hx.one_le)
  · exact hlog.trans ((pow_log_le hd).trans (lt_upper d n).le)

/-! ## Fifteen digits -/

theorem pow_lastBit_le_nearest (hx : 0 < x) : (2 : ℚ) ^ lastBit x ≤ 2 ^ lastBit (nearest x) :=
  zpow_le_zpow_right₀ (by norm_num) (lastBit_le_nearest hx)

/-- Two decimals of fifteen digits are further apart than the numbers that are read as one. -/
theorem eq_of_fifteen (hx0 : 0 < x) (hxy : x ≤ y) (hx : FewDigits 15 x) (hy : FewDigits 15 y)
    (h : nearest x = nearest y) (hd : 0 < nearest x) (hnormal : -1074 < lastBit (nearest x)) : x = y := by
  by_contra hne
  have hlt : x < y := lt_of_le_of_ne hxy hne
  have hlower : lower x 15 = x := le_antisymm (lower_le x 15) (le_lower hx0 (by norm_num) hx hx0 le_rfl)
  have hupper := upper_le hx0 hy hlt
  rw [upper_eq, hlower] at hupper
  have hunit : x < 10 ^ 15 * 10 ^ quantum x 15 := by
    refine (lt_pow_log x).trans_le (le_of_eq ?_)
    rw [zpow_add_one₀ (by norm_num), pow_log_eq x (show 1 ≤ 15 by norm_num)]
    norm_num
    ring
  -- both are within half a unit of the last bit, of which the number has at least 2 ^ 52
  have hxd := (abs_le.1 (abs_nearest_sub x)).2
  have hyd := (abs_le.1 (abs_nearest_sub y)).1
  have hxe := pow_lastBit_le_nearest hx0
  have hye := pow_lastBit_le_nearest (hx0.trans hlt)
  rw [← h] at hyd hye
  have hlarge := pow_lastBit_le hd hnormal
  rw [zpow_add₀ (by norm_num)] at hlarge
  have hbits : (2 : ℚ) ^ (52 : ℤ) = 4503599627370496 := by norm_num
  rw [hbits] at hlarge
  linarith

/-- A decimal of fifteen digits is the shortest that is read as what it is read as, unless that is subnormal. -/
theorem isShortest_of_fifteen (hx0 : 0 < x) (hx : FewDigits 15 x) (h : -1074 < lastBit x) :
    IsShortest (nearest x) x := by
  have hd := (two_zpow_pos _).trans_le (pow_le_nearest hx0 h)
  have hnormal := h.trans_le (lastBit_le_nearest hx0)
  have hsame : ∀ y, 0 < y → nearest y = nearest x → FewDigits 15 y → y = x := by
    intro y hy0 hy hdigits
    rcases le_total x y with hle | hle
    · exact (eq_of_fifteen hx0 hle hx hdigits hy.symm hd hnormal).symm
    · exact eq_of_fifteen hy0 hle hdigits hx hy (hy ▸ hd) (hy ▸ hnormal)
  have hex : ∃ n, FewDigits n x := ⟨15, hx⟩
  obtain ⟨n, hn, hmin⟩ : ∃ n, FewDigits n x ∧ ∀ m < n, ¬FewDigits m x := by
    classical exact ⟨Nat.find hex, Nat.find_spec hex, fun m => Nat.find_min hex⟩
  have hle : n ≤ 15 := not_lt.1 fun hlt => hmin 15 hlt hx
  refine ⟨n, hx0, rfl, hn, fun y hy0 hy m hm hdigits => ?_, fun y hy0 hy hdigits => ?_⟩
  · rw [hsame y hy0 hy (hdigits.mono (by omega))] at hdigits
    exact hmin m hm hdigits
  · exact Or.inl (hsame y hy0 hy (hdigits.mono hle))

end Search

end Binary64
