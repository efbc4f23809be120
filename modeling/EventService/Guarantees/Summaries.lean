/-
Whether a summary is the exact sum of a user's rows. The database sums without a bound, and the sum
is quantized in a context of 28 digits: up to `10^24` the summary is exact at four places, and from
there on the quantization fails.
-/
import EventService.Model.Summary

namespace App

open Prog

/-! ## Rows that fit their columns -/

/-- The columns of `Transaction` hold the row. -/
structure Transaction.Fits (t : Transaction) : Prop where
  id : fitsString 128 t.id = true
  userId : fitsString 128 t.userId = true
  amount : HoldsNumeric 4 t.amount
  currency : fitsString 3 t.currency = true
  amountUsd : HoldsNumeric 4 t.amountUsd
  rate : HoldsNumeric 10 t.rate

theorem hasPlaces_sum {p : Nat} {xs : List ℚ} (h : ∀ x ∈ xs, Decimal.HasPlaces p x) :
    Decimal.HasPlaces p xs.sum := by
  induction xs with
  | nil => exact ⟨0, by simp⟩
  | cons x xs ih =>
    obtain ⟨m, hm⟩ := h x (List.mem_cons_self ..)
    obtain ⟨n, hn⟩ := ih fun y hy => h y (List.mem_cons_of_mem _ hy)
    refine ⟨m + n, ?_⟩
    rw [List.sum_cons, add_mul, hm, hn]
    push_cast
    rfl

theorem hasPlaces_aggregates {rows : List Transaction} (hfit : ∀ t ∈ rows, t.Fits) (userId : PyStr) :
    Decimal.HasPlaces 4 (aggregates userId rows).1 := by
  refine hasPlaces_sum fun x hx => ?_
  obtain ⟨t, ht, rfl⟩ := List.mem_map.1 hx
  exact (hfit t (List.mem_filter.1 ht).1).amountUsd.1

/-! ## Quantizing a sum -/

/-- A number of four places below `10^24` keeps half a step to it. -/
theorem add_half_lt {x : ℚ} (hplaces : Decimal.HasPlaces 4 x) (hx : |x| < 10 ^ 24) :
    |x| + (10 : ℚ) ^ (-4 : Int) / 2 < (10 : ℚ) ^ (24 : Int) := by
  obtain ⟨n, hn⟩ := hplaces
  have hpos : (0 : ℚ) < 10 ^ 4 := by positivity
  have habs : |x| * 10 ^ 4 = ((|n| : ℤ) : ℚ) := by
    rw [Int.cast_abs, ← hn, abs_mul, abs_of_pos hpos]
  have hlt : ((|n| : ℤ) : ℚ) < ((10 ^ 28 : ℤ) : ℚ) := by
    rw [← habs]
    push_cast
    linarith
  -- as a number of last places it is a whole one
  have hle : |n| + 1 ≤ 10 ^ 28 := Int.cast_lt.1 hlt
  have hle' : ((|n| : ℤ) : ℚ) + 1 ≤ 10 ^ 28 := by exact_mod_cast hle
  norm_num at hle' habs ⊢
  linarith

/-- Quantizing a sum at its own scale changes nothing, as long as 28 digits hold it. -/
theorem quantizeUsd_exact {total : Decimal} (hfin : total.isFinite = true)
    (hplaces : Decimal.HasPlaces 4 total.toRat) (hlt : |total.toRat| < 10 ^ 24) :
    ∃ neg c, quantizeUsd total = .ok (.finite neg c usdQuantum) ∧
      (Decimal.finite neg c usdQuantum).toRat = total.toRat := by
  obtain ⟨neg, c, e, rfl⟩ := Decimal.exists_finite hfin
  have hroom := add_half_lt hplaces hlt
  rw [Decimal.abs_toRat] at hroom
  obtain ⟨d, hd, -, hval⟩ := Decimal.quantize_ok .default neg c e 4 (by decide) (by decide) hroom
  obtain ⟨c', rfl⟩ := Decimal.quantize_exponent hd
  refine ⟨neg, c', ?_, ?_⟩
  · unfold quantizeUsd usdQuantum
    rw [show (-4 : Int) = -((4 : Nat) : Int) from rfl, hd]
    rfl
  · rw [← Decimal.roundHalfAway_of_hasPlaces hplaces, ← hval]
    rfl

theorem quantizeUsd_fails {total : Decimal} (hfin : total.isFinite = true) (hge : 10 ^ 24 ≤ |total.toRat|) :
    quantizeUsd total = .error (.ofSignal .invalidOperation) := by
  obtain ⟨neg, c, e, rfl⟩ := Decimal.exists_finite hfin
  rw [Decimal.abs_toRat] at hge
  have herror := Decimal.quantize_error .default neg (c := c) (e := e) 4 hge
  unfold quantizeUsd usdQuantum
  rw [show (-4 : Int) = -((4 : Nat) : Int) from rfl, herror]
  rfl

/-! ## Summaries -/

variable {rows : List Transaction} {answer : (q : SummaryQuery) → q.Reply}

/-- What `get_summary` makes of the database's answer. -/
theorem getSummary_eval (userId : PyStr) : (getSummary userId).eval answer =
    match quantizeUsd (answer (.summary userId)).1 with
    | .ok totalUsd => .ok ⟨totalUsd, (answer (.summary userId)).2⟩
    | .error e => .error e := by
  unfold getSummary
  simp only [bind_eq, perform_bind, eval_op, eval_bind, eval_ofExcept]
  cases quantizeUsd (answer (.summary userId)).1 <;> rfl

/-- A summary is the exact sum of the user's rows at four places, with their number, if and only if
the sum stays below `10^24` in absolute value. -/
theorem getSummary_exact_iff (hfit : ∀ t ∈ rows, t.Fits) (hdb : SumsExactly rows answer) (userId : PyStr) :
    (∃ neg c, (getSummary userId).eval answer =
        .ok ⟨.finite neg c (-4), (rows.filter fun t => t.userId = userId).length⟩ ∧
      (Decimal.finite neg c (-4)).toRat =
        ((rows.filter fun t => t.userId = userId).map Transaction.amountUsd).sum) ↔
      |((rows.filter fun t => t.userId = userId).map Transaction.amountUsd).sum| < 10 ^ 24 := by
  obtain ⟨hfin, htotal, hcount⟩ := hdb userId
  have hplaces := hasPlaces_aggregates hfit userId
  rw [getSummary_eval]
  constructor
  · rintro ⟨neg, c, heval, -⟩
    by_contra hge
    rw [quantizeUsd_fails hfin (by rw [htotal]; exact not_lt.1 hge)] at heval
    cases heval
  · intro hlt
    obtain ⟨neg, c, hq, hval⟩ := quantizeUsd_exact hfin (by rwa [htotal]) (by rwa [htotal])
    refine ⟨neg, c, ?_, hval.trans htotal⟩
    rw [hq, hcount]
    rfl

/-! ## A large ledger -/

/-- A row of the greatest amount the schema admits, at 10000 dollars each. -/
def largeRow (i : Nat) : Transaction where
  id := [Char.ofNat (i + 256)]
  userId := "u1".toList
  amount := 9999999999999999 + 9999 / 10000
  currency := "XAU".toList
  amountUsd := 99999999999999999999
  rate := 10000
  timestamp := ⟨0, some 0, by decide, Datetime.offset_in_range (by decide)⟩
  processedAt := 0

def largeRows (n : Nat) : List Transaction := (List.range n).map largeRow

theorem char_toNat {i : Nat} (hi : i < 50000) : (Char.ofNat (i + 256)).toNat = i + 256 := by
  have hvalid : (i + 256).isValidChar := Or.inl (by omega)
  unfold Char.ofNat
  rw [dif_pos hvalid]
  rfl

theorem largeRow_fits {i : Nat} (hi : i < 50000) : (largeRow i).Fits where
  id := by
    have hne : Char.ofNat (i + 256) ≠ Char.ofNat 0 := by
      intro h
      have := congrArg Char.toNat h
      rw [char_toNat hi] at this
      simp at this
    simp [fitsString, largeRow, hne]
  userId := rfl
  amount := ⟨⟨99999999999999999999, by norm_num [largeRow]⟩, by norm_num [largeRow, abs_of_pos]⟩
  currency := rfl
  amountUsd := ⟨⟨999999999999999999990000, by norm_num [largeRow]⟩, by norm_num [largeRow, abs_of_pos]⟩
  rate := ⟨⟨100000000000000, by norm_num [largeRow]⟩, by norm_num [largeRow, abs_of_pos]⟩

theorem largeRows_sum (n : Nat) : (((largeRows n).filter fun t => t.userId = "u1".toList).map
    Transaction.amountUsd).sum = n * 99999999999999999999 := by
  have hown : (largeRows n).filter (fun t => t.userId = "u1".toList) = largeRows n :=
    List.filter_eq_self.2 fun t ht => by
      obtain ⟨i, -, rfl⟩ := List.mem_map.1 ht
      simp [largeRow]
  rw [hown]
  unfold largeRows
  rw [List.map_map]
  simp [Function.comp_def, largeRow]

theorem largeRows_ids {n : Nat} (hn : n ≤ 50000) : ((largeRows n).map Transaction.id).Nodup := by
  unfold largeRows
  rw [List.map_map]
  refine List.Nodup.map_on (fun i hi j hj heq => ?_) List.nodup_range
  have hchar : Char.ofNat (i + 256) = Char.ofNat (j + 256) := (List.cons.inj heq).1
  have hnat := congrArg Char.toNat hchar
  rw [char_toNat ((List.mem_range.1 hi).trans_le hn), char_toNat ((List.mem_range.1 hj).trans_le hn)] at hnat
  omega

theorem largeRows_fit {n : Nat} (hn : n ≤ 50000) : ∀ t ∈ largeRows n, t.Fits := by
  intro t ht
  obtain ⟨i, hi, rfl⟩ := List.mem_map.1 ht
  exact largeRow_fits ((List.mem_range.1 hi).trans_le hn)

/-- The database that answers with the aggregates sums exactly. -/
theorem sumsExactly_answer (hfit : ∀ t ∈ rows, t.Fits) : SumsExactly rows (SummaryQuery.answer rows) :=
  fun userId => ⟨rfl, Decimal.toRat_ofPlaces (hasPlaces_aggregates hfit userId), rfl⟩

/-- Ten thousand large rows are summed. -/
theorem ten_thousand_are_summed :
    ∃ neg c, (getSummary "u1".toList).eval (SummaryQuery.answer (largeRows 10000)) =
        .ok ⟨.finite neg c (-4), ((largeRows 10000).filter fun t => t.userId = "u1".toList).length⟩ ∧
      (Decimal.finite neg c (-4)).toRat =
        (((largeRows 10000).filter fun t => t.userId = "u1".toList).map Transaction.amountUsd).sum := by
  have hfit := largeRows_fit (n := 10000) (by decide)
  refine (getSummary_exact_iff hfit (sumsExactly_answer hfit) _).2 ?_
  rw [largeRows_sum]
  norm_num [abs_of_pos]

/-- One more is too much: the sum has 29 digits at four places, and the summary fails. -/
theorem one_more_is_too_much :
    ((largeRows 10001).map Transaction.id).Nodup ∧ (∀ t ∈ largeRows 10001, t.Fits) ∧
      SumsExactly (largeRows 10001) (SummaryQuery.answer (largeRows 10001)) ∧
      (getSummary "u1".toList).eval (SummaryQuery.answer (largeRows 10001)) =
        .error (.ofSignal .invalidOperation) := by
  have hfit := largeRows_fit (n := 10001) (by decide)
  have hdb := sumsExactly_answer hfit
  obtain ⟨hfin, htotal, -⟩ := hdb "u1".toList
  refine ⟨largeRows_ids (by decide), hfit, hdb, ?_⟩
  rw [getSummary_eval, quantizeUsd_fails hfin]
  rw [htotal]
  unfold aggregates
  dsimp only
  rw [largeRows_sum]
  norm_num [abs_of_pos]

end App
