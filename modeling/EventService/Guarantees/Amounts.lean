/-
Whether the amount of an accepted event is the number the client wrote. Strings and integers are taken as
they are. Another JSON number has become a `float` before the schema sees it, so it is kept if and only if it is
the shortest decimal that is read as its `float`. The queue rounds nothing; the amount's column does if the
amount has digits behind the last place, as only a string can have whose digits the schema counted rounded.
-/
import EventService.Model.Body
import EventService.Model.System
import EventService.Run.Attempts

namespace App

open Prog

variable {P : Type} {S : Service P}

/-! ## Numbers that are floats -/

/-- The number is an `int`, or zero, or the shortest decimal that is read as its `float`. -/
def JsonNumber.Kept (n : JsonNumber) : Prop :=
  n.isInt = true ∨ n.abs = 0 ∨ Binary64.IsShortest (Binary64.nearest n.abs) n.abs

/-- Numbers of up to fifteen digits are kept, down to one in the last of the four places. -/
theorem JsonNumber.kept_of_fifteen {n : JsonNumber} (hdigits : n.digits < 10 ^ 15)
    (hle : (10 : ℚ) ^ (-4 : ℤ) ≤ n.abs) : n.Kept := by
  have hpos : 0 < n.abs := (zpow_pos (by norm_num) _).trans_le hle
  have hfew : Decimal.FewDigits 15 n.abs := ⟨n.digits, _, hdigits, abs_of_pos hpos⟩
  refine Or.inr (Or.inr (Binary64.isShortest_of_fifteen hpos hfew ?_))
  have hlog : (-14 : ℤ) ≤ Int.log 2 n.abs := by
    rw [← Int.zpow_le_iff_le_log (by norm_num) hpos]
    refine le_trans ?_ hle
    norm_num
  unfold Binary64.lastBit
  omega

/-- Numbers of more than seventeen digits are not, unless they are integers. -/
theorem JsonNumber.Kept.fewDigits {n : JsonNumber} (h : n.Kept) (hint : n.isInt = false) :
    Decimal.FewDigits 17 n.abs := by
  rcases h with hint' | hzero | hshortest
  · cases hint.symm.trans hint'
  · exact ⟨0, 0, by norm_num, by simp [hzero]⟩
  · have hpos : 0 < Binary64.nearest n.abs := by
      refine lt_of_le_of_ne (Binary64.nearest_nonneg n.abs_nonneg) fun hzero => ?_
      rw [← hzero] at hshortest
      exact Binary64.not_isShortest_zero hshortest
    exact hshortest.fewDigits hpos (Binary64.representable_nearest n.abs_nonneg)

/-- What is made of a finite `float` is the number that was written, or it is another number. -/
theorem JsonNumber.toRat_toFloat_iff {n : JsonNumber} (hfinite : n.toFloat.toDecimal.isFinite = true) :
    n.toFloat.toDecimal.toRat = n.value ↔ n.abs = 0 ∨ Binary64.IsShortest (Binary64.nearest n.abs) n.abs := by
  have hsign : (if n.negative then -1 else 1 : ℚ) ≠ 0 := by
    cases n.negative <;> norm_num
  unfold toFloat at hfinite ⊢
  dsimp only at hfinite ⊢
  split at hfinite
  · cases hfinite
  · rename_i hlarge
    rw [if_neg hlarge]
    by_cases hzero : Binary64.nearest n.abs = 0
    · have hdecimal : (PyFloat.finite n.negative (Binary64.nearest n.abs)).toDecimal.toRat = 0 := by
        simp [PyFloat.toDecimal, Decimal.toRat, hzero]
      rw [hdecimal, hzero]
      constructor
      · intro h
        exact Or.inl ((mul_eq_zero.1 h.symm).resolve_left hsign)
      · rintro (h | h)
        · rw [value, h, mul_zero]
        · exact (Binary64.not_isShortest_zero h).elim
    · have hpos : 0 < Binary64.nearest n.abs :=
        lt_of_le_of_ne (Binary64.nearest_nonneg n.abs_nonneg) (Ne.symm hzero)
      have hrep := Binary64.representable_nearest n.abs_nonneg
      rw [PyFloat.toRat_toDecimal hzero (Binary64.shortest_nonneg hpos hrep), value, mul_right_inj' hsign,
        Binary64.value_shortest_eq_iff hpos hrep]
      refine ⟨Or.inr, fun h => h.resolve_left fun habs => hzero ?_⟩
      rw [habs, Binary64.nearest_zero]

/-- A string is taken as the number that is written, exactly. -/
theorem JsonValue.toRat_string {text : PyStr} {d : Decimal} (h : (JsonValue.string text).toDecimal = some d) :
    d.toRat = (JsonValue.string text).written := by
  have hparse : Decimal.parse text = some d := h
  rw [written, hparse]
  rfl

/-- The decimal that is made of a number is the one that was written exactly if that is kept. -/
theorem JsonValue.toRat_number_iff {n : JsonNumber} {d : Decimal} (h : (JsonValue.number n).toDecimal = some d)
    (hfinite : d.isFinite = true) : d.toRat = (JsonValue.number n).written ↔ n.Kept := by
  unfold toDecimal at h
  dsimp only at h
  split at h
  · rename_i hint
    refine iff_of_true ?_ (Or.inl hint)
    rw [← Option.some.inj h, toRat_int, written, JsonNumber.value_of_isInt hint]
  · rename_i hint
    rw [← Option.some.inj h] at hfinite ⊢
    rw [written, JsonNumber.toRat_toFloat_iff hfinite, JsonNumber.Kept]
    exact (or_iff_right hint).symm

/-- What is written for a `float` has so few digits that the schema counts them as they are. -/
theorem hasPlaces_of_float {neg : Bool} {d : ℚ} (hd : 0 < d) (hrep : Binary64.Representable d)
    (h : moneyAmount (PyFloat.finite neg d).toDecimal = []) :
    Decimal.HasPlaces 4 (PyFloat.finite neg d).toDecimal.toRat := by
  have hshortest := Binary64.isShortest_shortest hd hrep
  have hle := hshortest.ten_zpow_le hd hrep
  have hpos : 0 < Binary64.value (Binary64.shortest d) := (zpow_pos (by norm_num) _).trans_le hle
  obtain ⟨m, k, hm, habs⟩ := hshortest.fewDigits hd hrep
  rw [abs_of_pos hpos] at habs
  refine places_of_short h (M := m) (K := k) ?_ (hm.trans (by norm_num)) ?_
  · rw [PyFloat.toRat_toDecimal hd.ne' (Binary64.shortest_nonneg hd hrep), abs_mul, habs,
      abs_of_nonneg (by positivity : (0 : ℚ) ≤ m * 10 ^ k)]
    cases neg <;> simp
  · -- otherwise it would be less than the least `float`
    have hlt : (10 : ℚ) ^ (-324 : ℤ) < (10 : ℚ) ^ (17 + k : ℤ) := by
      refine hle.trans_lt ?_
      rw [habs, zpow_add₀ (by norm_num)]
      exact mul_lt_mul_of_pos_right (by exact_mod_cast hm) (zpow_pos (by norm_num) _)
    have := (zpow_lt_zpow_iff_right₀ (by norm_num : (1 : ℚ) < 10)).1 hlt
    omega

/-- The decimal that is made of a number and accepted is a multiple of the last place. -/
theorem hasPlaces_of_number {n : JsonNumber} {d : Decimal} (h : (JsonValue.number n).toDecimal = some d)
    (haccepted : moneyAmount d = []) : Decimal.HasPlaces 4 d.toRat := by
  unfold JsonValue.toDecimal at h
  dsimp only at h
  split at h
  · rw [← Option.some.inj h, toRat_int]
    exact ⟨n.toInt * 10 ^ 4, by push_cast; ring⟩
  · rw [← Option.some.inj h] at haccepted ⊢
    unfold JsonNumber.toFloat at haccepted ⊢
    dsimp only at haccepted ⊢
    split at haccepted
    · cases haccepted
    · rename_i hlarge
      rw [if_neg hlarge]
      by_cases hzero : Binary64.nearest n.abs = 0
      · refine ⟨0, ?_⟩
        simp [PyFloat.toDecimal, Decimal.toRat, hzero]
      · have hpos : 0 < Binary64.nearest n.abs :=
          lt_of_le_of_ne (Binary64.nearest_nonneg n.abs_nonneg) (Ne.symm hzero)
        exact hasPlaces_of_float hpos (Binary64.representable_nearest n.abs_nonneg) haccepted

/-! ## From the endpoint to the row -/

/-- The endpoint answers 202 when the body could be decoded, a decimal could be made of the amount, the event
is valid, and it was appended to the queue. -/
theorem runs_postEvent_iff {body : EventBody} {τ : List (Call Op.Reply)} {id : PyStr} {messageId : Nat} :
    Runs (postEvent S body) τ (.ok (.accepted id messageId)) ↔
      ∃ amount event, body.amount.unreadable = false ∧ body.amount.toDecimal = some amount ∧
        validate (body.toIn amount) = .ok event ∧ id = event.id ∧
        τ = [⟨.xadd (S.json.modelDumpJson event), .ok messageId⟩] := by
  have hreceive : ∀ d, Runs (receiveEvent S d) τ (.ok (.accepted id messageId)) ↔
      ∃ event, validate d = .ok event ∧ id = event.id ∧
        τ = [⟨.xadd (S.json.modelDumpJson event), .ok messageId⟩] := by
    intro d
    unfold receiveEvent
    constructor
    · intro h
      split at h
      · obtain ⟨status, detail, heq⟩ := complained_failed d.renders
        rw [heq] at h
        cases (runs_ret_iff.1 h).2
      · cases (runs_ret_iff.1 h).2
      · rename_i event hvalid
        obtain ⟨x, τ₁, τ₂, rfl, hpublish, hanswer⟩ := runs_attempt_bind_iff.1 h
        obtain ⟨r, rfl, rfl⟩ := runs_ask_lift_iff.1 hpublish
        rcases r with e | mid
        · dsimp only [raised] at hanswer
          split at hanswer
          · cases (runs_ret_iff.1 hanswer).2
          · cases (runs_ret_iff.1 hanswer).2
        · obtain ⟨rfl, heq⟩ := runs_ret_iff.1 hanswer
          obtain ⟨rfl, rfl⟩ := Response.accepted.inj (Except.ok.inj heq)
          exact ⟨event, hvalid, rfl, rfl⟩
    · rintro ⟨event, hvalid, rfl, rfl⟩
      rw [hvalid]
      exact .op (.ret _)
  unfold postEvent
  constructor
  · intro h
    split at h
    · cases (runs_ret_iff.1 h).2
    · rename_i hreadable
      split at h
      · rename_i amount hamount
        obtain ⟨event, hvalid, hid, hτ⟩ := (hreceive _).1 h
        exact ⟨amount, event, Bool.eq_false_of_not_eq_true hreadable, hamount, hvalid, hid, hτ⟩
      · obtain ⟨status, detail, heq⟩ := complained_failed body.amount.renders
        rw [heq] at h
        cases (runs_ret_iff.1 h).2
      · cases (runs_ret_iff.1 h).2
  · rintro ⟨amount, event, hreadable, hamount, hvalid, hid, hτ⟩
    rw [hreadable, hamount]
    exact (hreceive _).2 ⟨event, hvalid, hid, hτ⟩

/-- These calls append one event with the amount `x` to the queue. A worker that can read its payload reads that
amount and stores it in the row, whatever else it writes; and no worker writes a row that stores another. -/
def AmountKept (S : Service P) (x : ℚ) (τ : List (Call (@Op.Reply P))) : Prop :=
  ∃ event messageId, τ = [⟨.xadd (S.json.modelDumpJson event), .ok messageId⟩] ∧ event.amount.toRat = x ∧
    ∀ m : QueuedMessage P, m.payload = S.json.modelDumpJson event →
      (∀ parsed, parse S m = .ok parsed →
        parsed.amount.toRat = x ∧ ∀ usd rate now, (parsed.values usd rate now).stored.amount = x) ∧
      ∀ σ y, Runs (handleOne S m) σ y → ∀ session stmt reply,
        ⟨.execute session stmt, reply⟩ ∈ σ → stmt.values.stored.amount = x

/-- The column stores an amount as it is if it is a multiple of the last place. -/
theorem stored_amount_iff (event : TransactionEvent) (usd rate : Decimal) (now : Nat) :
    (event.values usd rate now).stored.amount = event.amount.toRat ↔ Decimal.HasPlaces 4 event.amount.toRat := by
  constructor
  · intro h
    rw [← h]
    exact Decimal.hasPlaces_roundHalfAway 4 _
  · exact Decimal.roundHalfAway_of_hasPlaces

theorem parse_dump_iff {m : QueuedMessage P} {event parsed : TransactionEvent}
    (hm : m.payload = S.json.modelDumpJson event) :
    parse S m = .ok parsed ↔ parsed = event ∧ event.currency.length = 3 := by
  unfold parse
  rw [hm, S.json.modelValidateJson_dump]
  by_cases hlen : event.currency.length = 3
  · rw [if_pos hlen]
    exact ⟨fun h => ⟨(Except.ok.inj h).symm, hlen⟩, fun h => by rw [h.1]⟩
  · rw [if_neg hlen]
    exact iff_of_false (by rintro ⟨⟩) fun h => hlen h.2

/-- Behind the endpoint nothing is rounded but by the column. -/
theorem amountKept_iff {event : TransactionEvent} {messageId : Nat} {x : ℚ} :
    AmountKept S x [⟨.xadd (S.json.modelDumpJson event), .ok messageId⟩] ↔
      event.amount.toRat = x ∧ (event.currency.length = 3 → Decimal.HasPlaces 4 x) := by
  constructor
  · rintro ⟨event', messageId', hτ, hamount, hkept⟩
    obtain ⟨hop, -⟩ := Call.mk.inj (List.cons.inj hτ).1
    obtain rfl := S.json.modelDumpJson_inj (Op.xadd.inj hop)
    refine ⟨hamount, fun hlen => ?_⟩
    obtain ⟨hread, -⟩ := hkept ⟨messageId, S.json.modelDumpJson event, 1, 1⟩ rfl
    obtain ⟨-, hstored⟩ := hread event ((parse_dump_iff rfl).2 ⟨rfl, hlen⟩)
    rw [← hamount] at hstored ⊢
    exact (stored_amount_iff event event.amount event.amount 0).1 (hstored event.amount event.amount 0)
  · rintro ⟨rfl, hplaces⟩
    have hstored : ∀ {m : QueuedMessage P} {parsed}, m.payload = S.json.modelDumpJson event →
        parse S m = .ok parsed →
        parsed.amount.toRat = event.amount.toRat ∧
          ∀ usd rate now, (parsed.values usd rate now).stored.amount = event.amount.toRat := by
      intro m parsed hm hparsed
      obtain ⟨rfl, hlen⟩ := (parse_dump_iff hm).1 hparsed
      exact ⟨rfl, fun usd rate now => (stored_amount_iff parsed usd rate now).2 (hplaces hlen)⟩
    refine ⟨event, messageId, rfl, rfl, fun m hm => ⟨fun parsed => hstored hm, ?_⟩⟩
    intro σ y hruns session stmt reply hmem
    rcases hruns.only (handleOne_only m) _ hmem with ⟨event', hparsed, hworks⟩ | ⟨reason, hdead⟩
    · obtain ⟨usd, rate, now, hvalues⟩ := hworks.2 session stmt rfl
      rw [hvalues]
      exact (hstored hm hparsed).2 usd rate now
    · cases hdead

/-- The amount as it is written reaches the row. A string must not have digits behind the last place of the
column, unless the currency keeps every worker from reading the payload. -/
def EventBody.Kept (body : EventBody) : Prop :=
  match body.amount with
  | .string text => Decimal.HasPlaces 4 (JsonValue.string text).written ∨
      (PyStr.upper (PyStr.strip body.currency)).length ≠ 3
  | .number n => n.Kept
  | .nan | .infinity _ | .other _ => True

/-- For every body that is accepted: the amount of the event, of what the workers read and of the row that
is stored is the number that was written, if and only if that is kept. -/
theorem accepted_amount_is_kept_iff {body : EventBody} {τ : List (Call Op.Reply)} {id : PyStr}
    {messageId : Nat} (h : Runs (postEvent S body) τ (.ok (.accepted id messageId))) :
    AmountKept S body.amount.written τ ↔ body.Kept := by
  obtain ⟨amount, event, -, hdecimal, hvalid, -, rfl⟩ := runs_postEvent_iff.1 h
  obtain ⟨-, -, -, hamount, hcurrency, -⟩ := validate_ok hvalid
  have haccepted := event.amount_digits
  rw [amountKept_iff, hcurrency]
  rw [hamount] at haccepted ⊢
  have hfinite := isFinite_of_moneyAmount haccepted
  unfold EventBody.Kept EventBody.toIn
  dsimp only
  cases hbody : body.amount with
  | string text =>
    rw [hbody] at hdecimal
    rw [and_iff_right (JsonValue.toRat_string hdecimal), imp_iff_or_not]
  | number n =>
    rw [hbody] at hdecimal
    have hplaces := hasPlaces_of_number hdecimal haccepted
    have hkept := JsonValue.toRat_number_iff hdecimal hfinite
    exact ⟨fun h => hkept.1 h.1, fun h => ⟨hkept.2 h, fun _ => hkept.2 h ▸ hplaces⟩⟩
  | nan =>
    rw [hbody] at hdecimal
    cases hdecimal
    cases hfinite
  | infinity neg =>
    rw [hbody] at hdecimal
    cases hdecimal
    cases hfinite
  | other renders =>
    rw [hbody] at hdecimal
    cases hdecimal

/-! ## Three bodies -/

/-- A body with this amount. -/
def bodyOf (amount : JsonValue) : EventBody :=
  ⟨"a".toList, Trace.user, amount, "USD".toList, Trace.clock 0 Trace.zero_lt_span⟩

/-- `12.5` -/
def shortNumber : JsonNumber := ⟨false, 12, [5], none⟩

/-- `1234567890123456.7891`: twenty digits, four of them behind the point. -/
def longNumber : JsonNumber := ⟨false, 1234567890123456, [7, 8, 9, 1], none⟩

/-- `"0.99999999999999999999999999999"`: 29 digits behind the point, of which the schema counts one. -/
def longString : JsonValue := .string "0.99999999999999999999999999999".toList

/-- The body is accepted with the decimal that is made of its amount. -/
theorem exists_accepted (written : JsonValue) (amount : Decimal) (hreadable : written.unreadable = false)
    (hamount : written.toDecimal = some amount)
    (hvalid : (validate ((bodyOf written).toIn amount)).toBool = true) :
    ∃ event : TransactionEvent, event.amount = amount ∧ event.currency = "USD".toList ∧
      Runs (postEvent (documentService {}) (bodyOf written))
        [⟨.xadd ((documentService {}).json.modelDumpJson event), .ok 1⟩] (.ok (.accepted "a".toList 1)) := by
  obtain ⟨event, hevent⟩ : ∃ event, validate ((bodyOf written).toIn amount) = .ok event := by
    cases hv : validate ((bodyOf written).toIn amount) with
    | ok event => exact ⟨event, rfl⟩
    | error r =>
      rw [hv] at hvalid
      cases hvalid
  obtain ⟨-, hid, -, heq, hcurrency, -⟩ := validate_ok hevent
  have husd : PyStr.upper (PyStr.strip "USD".toList) = "USD".toList := by decide +kernel
  exact ⟨event, heq, hcurrency.trans husd,
    runs_postEvent_iff.2 ⟨amount, event, hreadable, hamount, hevent, hid.symm, rfl⟩⟩

/-- A short number is accepted and kept. -/
theorem short_number_is_kept : ∃ τ, Runs (postEvent (documentService {}) (bodyOf (.number shortNumber))) τ
    (.ok (.accepted "a".toList 1)) ∧ AmountKept (documentService {}) (25 / 2) τ := by
  obtain ⟨event, -, -, hruns⟩ := exists_accepted (.number shortNumber) (.finite false 125 (-1))
    (by decide +kernel) (by decide +kernel) (by decide +kernel)
  have hkept : shortNumber.Kept :=
    JsonNumber.kept_of_fifteen (by decide) (by norm_num [JsonNumber.abs, JsonNumber.digits, shortNumber])
  have hwritten : (bodyOf (.number shortNumber)).amount.written = 25 / 2 := by
    norm_num [JsonValue.written, JsonNumber.value, JsonNumber.abs, JsonNumber.digits, shortNumber, bodyOf]
  rw [← hwritten]
  exact ⟨_, hruns, (accepted_amount_is_kept_iff hruns).2 hkept⟩

/-- A number of twenty digits is accepted, and the event has the amount `1234567890123456.8`; a string of 29
digits is accepted, and the row has the amount `1`. -/
theorem written_amounts_are_rounded :
    (∃ τ, Runs (postEvent (documentService {}) (bodyOf (.number longNumber))) τ (.ok (.accepted "a".toList 1)) ∧
      ¬AmountKept (documentService {}) (bodyOf (.number longNumber)).amount.written τ) ∧
    ∃ τ, Runs (postEvent (documentService {}) (bodyOf longString)) τ (.ok (.accepted "a".toList 1)) ∧
      ¬AmountKept (documentService {}) longString.written τ := by
  constructor
  · obtain ⟨event, hamount, -, hruns⟩ := exists_accepted (.number longNumber)
      (.finite false 12345678901234568 (-1)) (by decide +kernel) (by decide +kernel) (by decide +kernel)
    refine ⟨_, hruns, fun hkept => ?_⟩
    have heq := (amountKept_iff.1 hkept).1
    rw [hamount] at heq
    norm_num [Decimal.toRat, JsonValue.written, JsonNumber.value, JsonNumber.abs, JsonNumber.digits, longNumber,
      bodyOf] at heq
  · obtain ⟨event, hamount, hcurrency, hruns⟩ := exists_accepted longString
      (.finite false 99999999999999999999999999999 (-29)) (by decide +kernel) (by decide +kernel)
      (by decide +kernel)
    refine ⟨_, hruns, fun hkept => ?_⟩
    obtain ⟨heq, hplaces⟩ := amountKept_iff.1 hkept
    obtain ⟨k, hk⟩ := heq ▸ hplaces (by rw [hcurrency]; rfl)
    rw [hamount] at hk
    have hlt : (9999 : ℚ) < k ∧ (k : ℚ) < 10000 := by
      rw [← hk]
      norm_num [Decimal.toRat]
    have hlo : 9999 < k := by exact_mod_cast hlt.1
    have hhi : k < 10000 := by exact_mod_cast hlt.2
    omega

end App
