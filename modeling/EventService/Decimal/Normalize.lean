/-
What normalizing a decimal does to its value. The zeros at the end are worth nothing, so a decimal that the
context can write keeps its value, and another is rounded to the digits of the context, which carries it over a
power of ten only if it was within half a step of it.
-/
import EventService.Decimal.Rounding

namespace Decimal

/-- Moving zeros does not change the value. -/
theorem stripZeros_value (n c : Nat) (e : Int) :
    ((stripZeros n c e).1 : ℚ) * (10 : ℚ) ^ (stripZeros n c e).2 = (c : ℚ) * (10 : ℚ) ^ e := by
  induction n generalizing c e with
  | zero => rfl
  | succ n ih =>
    unfold stripZeros
    split
    · rename_i h
      have hc : c = 10 * (c / 10) := by omega
      rw [ih, zpow_add_one₀ (by norm_num)]
      conv_rhs => rw [hc]
      push_cast
      ring
    · rfl

/-- Normalizing fails where fitting into the context does, and has the same value where it does not. -/
theorem normalize_value (ctx : Context) {neg : Bool} {c c' : Nat} {e e' : Int}
    (h : fix ctx neg c e = .ok (.finite neg c' e')) :
    ∃ m k, normalize ctx neg c e = .ok (.finite neg m k) ∧ (m : ℚ) * (10 : ℚ) ^ k = (c' : ℚ) * (10 : ℚ) ^ e' := by
  unfold normalize
  rw [h]
  dsimp only
  split
  · rename_i hzero
    exact ⟨0, 0, rfl, by simp [hzero]⟩
  · exact ⟨_, _, rfl, stripZeros_value ..⟩

/-- A value that the context's digits can write is kept. -/
theorem normalize_exact (ctx : Context) (neg : Bool) {c M : Nat} {e K : Int}
    (hv : (c : ℚ) * (10 : ℚ) ^ e = (M : ℚ) * (10 : ℚ) ^ K) (hM : M < 10 ^ ctx.prec) (hK : ctx.etiny ≤ K)
    (hhi : (c : ℚ) * (10 : ℚ) ^ e < (10 : ℚ) ^ ctx.emax) :
    ∃ m k, normalize ctx neg c e = .ok (.finite neg m k) ∧ (m : ℚ) * (10 : ℚ) ^ k = (c : ℚ) * (10 : ℚ) ^ e := by
  obtain ⟨c', e', hfix, hval⟩ := fix_exact ctx neg hv hM hK hhi
  obtain ⟨m, k, hnorm, hmk⟩ := normalize_value ctx hfix
  exact ⟨m, k, hnorm, hmk.trans hval⟩

/-- What reaches a power of ten, up to half a step, is normalized to at least that power, or overflows. -/
theorem normalize_ge (ctx : Context) (neg : Bool) {c : Nat} {e n : Int} (hlo : ctx.etiny + ctx.prec ≤ n)
    (h : (10 : ℚ) ^ n ≤ (c : ℚ) * (10 : ℚ) ^ e + (10 : ℚ) ^ (n - ctx.prec) / 2) :
    (∃ s, normalize ctx neg c e = .error s) ∨
      ∃ m k, normalize ctx neg c e = .ok (.finite neg m k) ∧ (10 : ℚ) ^ n ≤ (m : ℚ) * (10 : ℚ) ^ k := by
  rcases fix_ge ctx neg hlo h with hover | ⟨c', e', hfix, hval⟩
  · exact Or.inl ⟨.overflow, by unfold normalize; rw [hover]⟩
  · obtain ⟨m, k, hnorm, hmk⟩ := normalize_value ctx hfix
    exact Or.inr ⟨m, k, hnorm, hmk ▸ hval⟩

end Decimal
