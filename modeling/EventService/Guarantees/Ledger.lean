/-
The reference ledger. With the static rates, nothing trimmed, no id used for two events and nothing
dead-lettered for its delivery count, a pipeline in which every entry has been read and acknowledged
holds one row for each published event whose currency has a rate, and no other. So two such pipelines with
the same events agree on everything but the times of processing. The rows are those of the reference, with
the events' own amounts converted exactly, as long as these amounts are multiples of the last decimal place;
the schema also accepts others, whose digits it only counts behind a rounding.
-/
import EventService.Model.Users
import EventService.Run.Conversions

namespace App

open Store

variable {P : Type} {S : Service P} {w : World P}

/-! ## The reference -/

/-- The line of an event: its own fields, the static rate of its currency, and their exact product
rounded half away from zero; none if there is no rate. -/
def ledgerLine (event : TransactionEvent) : Option TransactionOut :=
  (staticRates.lookup event.currency).map fun rate =>
    { id := event.id
      userId := event.userId
      amount := event.amount.toRat
      currency := event.currency
      amountUsd := Decimal.roundHalfAway 4 (event.amount.toRat * rate.toRat)
      rate := rate.toRat
      timestamp := event.timestamp }

/-- The line the columns hold of an event: its amount at their scale, and what `convert_to_usd` makes of the
amount at the static rate. -/
def storedLine (event : TransactionEvent) : Option TransactionOut :=
  (staticRates.lookup event.currency).bind fun rate =>
    match convertToUsd event.amount rate with
    | .ok usd => some (event.values usd rate 0).stored.out
    | .error _ => none

/-- The table as it is stored, without `processed_at`. -/
def ledger (w : World P) : List TransactionOut := w.table.rows.map fun v => v.stored.out

/-- The table is the reference ledger: one line for each published event that has one, and no other. -/
def HoldsReference (S : Service P) (w : World P) : Prop :=
  ((ledger w).map TransactionOut.id).Nodup ∧
    ∀ line, line ∈ ledger w ↔ ∃ event, Published S w event ∧ ledgerLine event = some line

/-- Every published amount that is converted is a multiple of the last of the four decimal places. -/
def RatedAmountsFit (S : Service P) (w : World P) : Prop :=
  ∀ event, Published S w event → (staticRates.lookup event.currency).isSome = true →
    Decimal.HasPlaces 4 event.amount.toRat

/-- The rates are those of the static source, nothing was trimmed, published events with one id are
equal, and no entry was dead-lettered because it was delivered too often. -/
structure Undisturbed (S : Service P) (w : World P) : Prop where
  static : ∀ f ∈ w.fetched, StaticRateSource.answers f.1 f.2
  untrimmed : w.stream.dropped = []
  same : ∀ event event', Published S w event → Published S w event' → event.id = event'.id → event = event'
  notExceeded : ∀ q ∈ w.dlq, ∀ f ∈ q.added,
    ¬(f.payload.reason = exceededReason S ∧ S.settings.maxDeliveries < f.payload.deliveryCount)

/-- Nothing is unread or pending. -/
def Drained (w : World P) : Prop :=
  ∀ e ∈ w.stream.added, ¬w.stream.Unread e.id ∧ ¬w.stream.IsPending e.id

/-! ## The static rates -/

/-- Positive, with at most five digits and four of them after the point. -/
def isShort : Decimal → Bool
  | .finite false c e => c < 10 ^ 5 ∧ -4 ≤ e ∧ e ≤ 0
  | .finite true _ _ | .infinity _ | .nan _ _ _ => false

theorem isShort_spec {d : Decimal} (h : isShort d = true) :
    d.isFinite = true ∧ Decimal.HasPlaces 4 d.toRat ∧ Decimal.FewDigits 5 d.toRat := by
  cases d with
  | infinity => cases h
  | nan => cases h
  | finite neg c e =>
    cases neg
    · obtain ⟨hc, hlo, hhi⟩ := of_decide_eq_true h
      have hvalue : (Decimal.finite false c e).toRat = (c : ℚ) * (10 : ℚ) ^ e := by simp [Decimal.toRat]
      refine ⟨rfl, ⟨c * 10 ^ (e + 4).toNat, ?_⟩, c, e, hc, ?_⟩
      · rw [hvalue, mul_assoc, ← zpow_natCast (10 : ℚ) 4, ← zpow_add₀ (by norm_num)]
        push_cast
        rw [← zpow_natCast, Int.toNat_of_nonneg (by omega)]
      · rw [hvalue, abs_of_nonneg (by positivity)]
    · cases h

/-- Every static rate has at most four places and five digits, and a currency of three letters. -/
theorem staticRates_spec {currency : PyStr} {rate : Decimal} (h : staticRates.lookup currency = some rate) :
    currency.length = 3 ∧ rate.isFinite = true ∧ Decimal.HasPlaces 4 rate.toRat ∧
      Decimal.FewDigits 5 rate.toRat := by
  have hall : (staticRates.all fun kv => kv.1.length == 3 && isShort kv.2) = true := by decide
  have hrate := List.all_eq_true.1 hall _ (List.mem_of_lookup_eq_some h)
  rw [Bool.and_eq_true, beq_iff_eq] at hrate
  exact ⟨hrate.1, isShort_spec hrate.2⟩

/-- It is positive, and less than ten. -/
theorem staticRates_bounds {currency : PyStr} {rate : Decimal} (h : staticRates.lookup currency = some rate) :
    rate.nonPositive = false ∧ |rate.toRat| < 10 := by
  have hall : ∀ kv ∈ staticRates, kv.2.nonPositive = false ∧ |kv.2.toRat| < 10 := by decide +kernel
  exact hall _ (List.mem_of_lookup_eq_some h)

/-- At a static rate an amount that fits is converted exactly. -/
theorem convertToUsd_static {amount rate : Decimal} {currency : PyStr} (ha : AmountFits amount)
    (h : staticRates.lookup currency = some rate) : ∃ usd, convertToUsd amount rate = .ok usd ∧
      usd.toRat = Decimal.roundHalfAway 4 (amount.toRat * rate.toRat) := by
  obtain ⟨-, hfinite, hplaces, hdigits⟩ := staticRates_spec h
  obtain ⟨hpos, hbound⟩ := staticRates_bounds h
  have hlt : |amount.toRat * rate.toRat| < 10 ^ 17 := by
    rw [abs_mul]
    calc |amount.toRat| * |rate.toRat| ≤ 10 ^ 16 * |rate.toRat| :=
          mul_le_mul_of_nonneg_right ha.bound.le (abs_nonneg _)
      _ < 10 ^ 16 * 10 := mul_lt_mul_of_pos_left hbound (by norm_num)
      _ = 10 ^ 17 := by norm_num
  have hsum : (10 : ℚ) ^ 17 + (10 : ℚ) ^ (-4 : Int) / 2 < (10 : ℚ) ^ (24 : Int) := by norm_num
  obtain ⟨usd, hok⟩ := convertToUsd_isOk ha.finite hfinite hpos (by linarith)
  exact ⟨usd, hok, convertToUsd_rounded hok (ha.places.mul hplaces) (by decide)
    ((fewDigits_product ha hdigits).mono (by decide))⟩

theorem lookup_of_answers {currency : PyStr} {rate : Decimal}
    (h : StaticRateSource.answers currency (.ok rate)) : staticRates.lookup currency = some rate := by
  rcases h with h | h
  · split at h
    · rename_i hlookup
      rw [hlookup, Except.ok.inj h]
    · cases h
  · cases h

/-- The static source refuses only what it has no rate for. -/
theorem lookup_of_refusal {currency : PyStr} {text : String}
    (h : StaticRateSource.answers currency (.error (.event .unknownCurrencyError text))) :
    staticRates.lookup currency = none := by
  rcases h with h | h
  · split at h
    · cases h
    · assumption
  · cases h

namespace Undisturbed

theorem finiteRates (hu : Undisturbed S w) : FiniteRates w :=
  fun _ _ hmem => (staticRates_spec (lookup_of_answers (hu.static _ hmem))).2.1

/-- An event is converted at the static rate of its currency, cached or not. -/
theorem lookup_of_rateFrom (hu : Undisturbed S w) (hi : Inv S w) {event : TransactionEvent}
    {rate : Decimal} (h : RateFrom w event.currency rate) : staticRates.lookup event.currency = some rate := by
  rcases h.answered hi hu.finiteRates with ⟨hbase, rfl⟩ | hanswer
  · rw [event.currency_upper] at hbase
    rw [hbase]
    decide
  · rw [event.currency_upper] at hanswer
    exact lookup_of_answers (hu.static _ hanswer)

/-! ## Rows and events -/

/-- A row holds the line of the event it was made from. -/
theorem line_of_made (hu : Undisturbed S w) (hi : Inv S w) {v : Values} (hv : Made S w v) :
    ∃ event, Published S w event ∧ event.id = v.id ∧ storedLine event = some v.stored.out := by
  obtain ⟨event, hpub, -, hrate, husd, hvalues⟩ := hv
  have hfrom : RateFrom w event.currency v.rate := hi.rated _ hrate
  have hlookup := hu.lookup_of_rateFrom hi hfrom
  refine ⟨event, hpub, by rw [hvalues]; rfl, ?_⟩
  unfold storedLine
  rw [hlookup, Option.bind_some, husd, hvalues]
  rfl

/-- An event whose currency has a rate was neither refused nor given up, so if its entry is done
with, a row carries its id. -/
theorem has_of_published (hu : Undisturbed S w) (hd : Drained w) (hi : Inv S w)
    {event : TransactionEvent} {rate : Decimal} (hpub : Published S w event)
    (hlookup : staticRates.lookup event.currency = some rate) : w.table.Has event.id := by
  obtain ⟨e, he, hpayload⟩ := hpub
  rcases hi.accounted e he with (hunread | hpending) | (⟨event', hp, hrow⟩ | ⟨q, hq, f, hf, hp⟩) | hdropped
  · exact absurd hunread (hd e he).1
  · exact absurd hpending (hd e he).2
  · rwa [S.json.modelDumpJson_inj (hpayload.symm.trans hp)]
  · obtain ⟨q', hq', hrecorded⟩ := hi.parked
    obtain rfl : q' = q := Option.some.inj (hq'.symm.trans hq)
    have hdump : f.payload.payload = S.json.modelDumpJson event := hp.trans hpayload
    rcases (hrecorded f hf).1 with hexceeded | ⟨text, hinvalid, -⟩ | ⟨event', hvalid, hrefused⟩
    · exact absurd hexceeded (hu.notExceeded _ hq f hf)
    · rw [hdump, S.json.modelValidateJson_dump, if_pos (staticRates_spec hlookup).1] at hinvalid
      cases hinvalid
    · rw [hdump] at hvalid
      rw [S.json.eq_of_modelValidateJson hvalid, event.currency_upper] at hrefused
      have hnone := lookup_of_refusal (hu.static _ hrefused)
      exact absurd (hlookup.symm.trans hnone) (by simp)
  · rw [hu.untrimmed] at hdropped
    cases hdropped

/-- The lines of a drained pipeline are those of its events. -/
theorem mem_ledger_iff (hu : Undisturbed S w) (hd : Drained w) (hi : Inv S w) (line : TransactionOut) :
    line ∈ ledger w ↔ ∃ event, Published S w event ∧ storedLine event = some line := by
  constructor
  · intro hline
    obtain ⟨v, hv, rfl⟩ := List.mem_map.1 hline
    obtain ⟨event, hpub, -, hevent⟩ := hu.line_of_made hi (hi.made v (Or.inl hv))
    exact ⟨event, hpub, hevent⟩
  · rintro ⟨event, hpub, hline⟩
    obtain ⟨rate, hlookup, -⟩ := Option.bind_eq_some_iff.1 hline
    obtain ⟨v, hv, hid⟩ := hu.has_of_published hd hi hpub hlookup
    obtain ⟨event', hpub', hid', hline'⟩ := hu.line_of_made hi (hi.made v (Or.inl hv))
    -- the row was made from an event with this id, which is this event
    obtain rfl : event' = event := hu.same _ _ hpub' hpub (hid'.trans hid)
    rw [Option.some.inj (hline.symm.trans hline')]
    exact List.mem_map_of_mem hv

end Undisturbed

/-- The columns hold an amount that fits as it is, and its exact conversion. -/
theorem storedLine_eq {event : TransactionEvent} (h : Decimal.HasPlaces 4 event.amount.toRat) :
    storedLine event = ledgerLine event := by
  unfold storedLine ledgerLine
  cases hlookup : staticRates.lookup event.currency with
  | none => rfl
  | some rate =>
    obtain ⟨usd, hok, hexact⟩ := convertToUsd_static (amountFits_of_places event.amount_digits h) hlookup
    have hstored : (event.values usd rate 0).stored.out = TransactionOut.mk event.id event.userId
        (Decimal.roundHalfAway 4 event.amount.toRat) event.currency
        (Decimal.roundHalfAway 4 usd.toRat) (Decimal.roundHalfAway 10 rate.toRat) event.timestamp := rfl
    rw [Option.bind_some, hok, Option.map_some]
    dsimp only
    rw [hstored, hexact, Decimal.roundHalfAway_of_hasPlaces h,
      Decimal.roundHalfAway_of_hasPlaces ((staticRates_spec hlookup).2.2.1.mono (by decide)),
      Decimal.roundHalfAway_of_hasPlaces (Decimal.hasPlaces_roundHalfAway ..)]

/-- The columns hold no amount but at their scale. -/
theorem hasPlaces_of_storedLine {event : TransactionEvent} {line : TransactionOut}
    (h : storedLine event = some line) : Decimal.HasPlaces 4 line.amount := by
  obtain ⟨rate, -, hline⟩ := Option.bind_eq_some_iff.1 h
  split at hline
  · rw [← Option.some.inj hline]
    exact Decimal.hasPlaces_roundHalfAway ..
  · cases hline

/-- No event has two lines. -/
theorem ledger_ids_nodup (w : World P) : ((ledger w).map TransactionOut.id).Nodup := by
  unfold ledger
  rw [List.map_map]
  exact ids_nodup w.table

/-- The aggregates of a user depend on the lines only. -/
theorem aggregates_stored (userId : PyStr) (rows : List Values) :
    aggregates userId (rows.map Values.stored) =
      ((((rows.map fun v => v.stored.out).filter fun t => t.userId = userId).map TransactionOut.amountUsd).sum,
        ((rows.map fun v => v.stored.out).filter fun t => t.userId = userId).length) := by
  unfold aggregates
  simp only [List.filter_map, List.map_map, List.length_map]
  rfl

/-- Two drained pipelines with the same events hold the same lines. -/
theorem ledger_perm {P' : Type} {S' : Service P'} {w' : World P'} (hu : Undisturbed S w) (hd : Drained w)
    (hi : Inv S w) (hu' : Undisturbed S' w') (hd' : Drained w') (hi' : Inv S' w')
    (hsame : ∀ event, Published S w event ↔ Published S' w' event) : (ledger w).Perm (ledger w') := by
  refine (List.perm_ext_iff_of_nodup (ledger_ids_nodup w).of_map (ledger_ids_nodup w').of_map).2 fun line => ?_
  rw [hu.mem_ledger_iff hd hi, hu'.mem_ledger_iff hd' hi']
  exact exists_congr fun event => and_congr_left fun _ => hsame event

/-- The lines that are stored are those of the reference if and only if all amounts fit. -/
theorem holdsReference_iff (hu : Undisturbed S w) (hd : Drained w) (hi : Inv S w) :
    HoldsReference S w ↔ RatedAmountsFit S w := by
  constructor
  · rintro ⟨-, hlines⟩ event hpub hrated
    obtain ⟨rate, hlookup⟩ := Option.isSome_iff_exists.1 hrated
    -- the reference has a line for the event, with its own amount
    obtain ⟨line, hline, hamount⟩ : ∃ line, ledgerLine event = some line ∧ line.amount = event.amount.toRat := by
      unfold ledgerLine
      rw [hlookup]
      exact ⟨_, rfl, rfl⟩
    obtain ⟨event', -, hstored⟩ := (hu.mem_ledger_iff hd hi line).1 ((hlines line).2 ⟨event, hpub, hline⟩)
    exact hamount ▸ hasPlaces_of_storedLine hstored
  · intro hfit
    refine ⟨ledger_ids_nodup w, fun line => ?_⟩
    rw [hu.mem_ledger_iff hd hi]
    refine exists_congr fun event => and_congr_right fun hpub => ?_
    cases hlookup : staticRates.lookup event.currency with
    | none => simp [storedLine, ledgerLine, hlookup]
    | some rate => rw [storedLine_eq (hfit event hpub (by rw [hlookup]; rfl))]

/-- The reference ledger: a drained pipeline that was left undisturbed holds exactly the lines of its published
events, one for each id, if and only if their amounts are multiples of the last decimal place. Whatever they are,
two of them with the same events hold the same lines, and the same total and count for each user. -/
theorem drained_pipeline_holds_reference_ledger_iff {s : System P} (h : System.Reachable S s)
    (hu : Undisturbed S s.world) (hd : Drained s.world) :
    (HoldsReference S s.world ↔ RatedAmountsFit S s.world) ∧
    ∀ {P' : Type} {S' : Service P'} {s' : System P'}, System.Reachable S' s' → Undisturbed S' s'.world →
      Drained s'.world → (∀ event, Published S s.world event ↔ Published S' s'.world event) →
      (ledger s.world).Perm (ledger s'.world) ∧ ∀ userId,
        aggregates userId (s.world.table.rows.map Values.stored) =
          aggregates userId (s'.world.table.rows.map Values.stored) := by
  have hi := (ok_of_reachable h).inv
  refine ⟨holdsReference_iff hu hd hi, ?_⟩
  intro P' S' s' h' hu' hd' hsame
  have hperm := ledger_perm hu hd hi hu' hd' (ok_of_reachable h').inv hsame
  refine ⟨hperm, fun userId => ?_⟩
  have hown := hperm.filter fun t => t.userId = userId
  rw [aggregates_stored, aggregates_stored]
  exact Prod.ext (hown.map TransactionOut.amountUsd).sum_eq hown.length_eq

/-! ## Two runs -/

namespace Trace

def euroAnswered : Choice := answered (.ok (.finite false 10850 (-4)))

def unknownAnswered : Choice :=
  answered (.error (.event .unknownCurrencyError "no exchange rate for XYZ"))

def outageAnswered : Choice :=
  answered (.error (.event .rateUnavailableError "simulated rate-provider outage for EUR"))

/-- Two events, the second in a currency without a rate, are published and drained. -/
def inOrder : List Action :=
  publish 0 (document "a" (.finite false 5 0) "eur") ++ publish 1 (document "b" (.finite false 7 0) "XYZ") ++
  boot 0 ++ calls 0 .consume 2 ++ [.move 0 .consume] ++
  handles 0 .consume 0 1 ++ [.handle 0 .consume 0 euroAnswered] ++ handles 0 .consume 0 7 ++
  handles 0 .consume 1 1 ++ [.handle 0 .consume 1 unknownAnswered] ++ handles 0 .consume 1 1 ++
  [.move 0 .consume] ++ calls 0 .consume 1

/-- The same events are published in the other order, the one with a rate twice, and drained
although the source has an outage at first. -/
def resent : List Action :=
  publish 0 (document "b" (.finite false 7 0) "XYZ") ++ publish 1 (document "a" (.finite false 5 0) "EUR") ++
  publish 2 (document "a" (.finite false 5 0) "EUR") ++
  boot 0 ++ calls 0 .consume 2 ++ [.move 0 .consume] ++
  handles 0 .consume 0 1 ++ [.handle 0 .consume 0 unknownAnswered] ++ handles 0 .consume 0 1 ++
  handles 0 .consume 1 1 ++ [.handle 0 .consume 1 outageAnswered] ++ handles 0 .consume 1 3 ++
  [.handle 0 .consume 1 euroAnswered] ++ handles 0 .consume 1 7 ++ handles 0 .consume 2 7 ++
  [.move 0 .consume] ++ calls 0 .consume 1

/-- The payload of a document. -/
def payload (id : String) (amount : Decimal) (currency : String) : EventIn :=
  { document id amount currency with timestamp := (clock 0 zero_lt_span).replaceUTC }

/-- The payloads of the two events. -/
def payloads : List EventIn := [payload "a" (.finite false 5 0) "EUR", payload "b" (.finite false 7 0) "XYZ"]

/-- The pipeline was left undisturbed, is drained, and its payloads are these. -/
def isDrained (payloads : List EventIn) (s : System EventIn) : Bool :=
  decide (∀ f ∈ s.world.fetched, StaticRateSource.answers f.1 f.2) && s.world.stream.dropped.isEmpty &&
  (s.world.dlq.all fun q => q.added.all fun f => f.payload.reason ≠ exceededReason (documentService {})) &&
  (s.world.stream.group.any fun g =>
    g.pending.isEmpty && s.world.stream.added.all fun e => e.id ≤ g.lastDelivered) &&
  (s.world.stream.added.all fun e => payloads.contains e.payload) &&
  payloads.all fun d => (s.world.stream.added.map Entry.payload).contains d

theorem isDrained_spec {payloads : List EventIn} {s : System EventIn} (h : isDrained payloads s = true)
    (hsame : ∀ d ∈ payloads, ∀ d' ∈ payloads, d.id = d'.id → d = d') :
    Undisturbed (documentService {}) s.world ∧ Drained s.world ∧
      ∀ event, Published (documentService {}) s.world event ↔ event.toIn ∈ payloads := by
  simp only [isDrained, Bool.and_eq_true, decide_eq_true_eq, List.isEmpty_iff, List.all_eq_true,
    Option.all_eq_true, Option.any_eq_true, List.contains_iff_mem] at h
  obtain ⟨⟨⟨⟨⟨hstatic, hdropped⟩, hdlq⟩, g, hg, hpending, hread⟩, honly⟩, hall⟩ := h
  have hpublished : ∀ event, Published (documentService {}) s.world event ↔ event.toIn ∈ payloads := by
    refine fun event => ⟨fun ⟨e, he, hp⟩ => ?_, fun hmem => List.mem_map.1 (hall _ hmem)⟩
    have hpayload : e.payload = event.toIn := hp
    exact hpayload ▸ honly e he
  refine ⟨⟨hstatic, hdropped, fun event event' he he' hid => ?_, fun q hq f hf hx => hdlq q hq f hf hx.1⟩,
    fun e he => ⟨fun hunread => ?_, fun ⟨g', hg', hpend⟩ => ?_⟩, hpublished⟩
  · exact TransactionEvent.toIn_inj (hsame _ ((hpublished event).1 he) _ ((hpublished event').1 he') hid)
  · exact absurd (hunread g hg) (not_lt.2 (hread e he))
  · obtain rfl : g' = g := Option.some.inj (hg'.symm.trans hg)
    simp [Group.isPending, hpending] at hpend

theorem payloads_differ : ∀ d ∈ payloads, ∀ d' ∈ payloads, d.id = d'.id → d = d' := by decide +kernel

/-- Whole euros. -/
theorem hasPlaces_of_payloads {d : EventIn} (h : d ∈ payloads) : Decimal.HasPlaces 4 d.amount.toRat := by
  have hwhole : ∀ d ∈ payloads, d.amount.toRat * 10 ^ 4 = 50000 ∨ d.amount.toRat * 10 ^ 4 = 70000 := by
    decide +kernel
  rcases hwhole d h with hfive | hseven
  · exact ⟨50000, hfive⟩
  · exact ⟨70000, hseven⟩

end Trace

theorem resent_holds_the_same_ledger :
    ∃ s s', System.Reachable (documentService {}) s ∧ System.Reachable (documentService {}) s' ∧
      s.world.stream.added.length = 2 ∧ s'.world.stream.added.length = 3 ∧
      (ledger s.world).length = 1 ∧ (ledger s.world).Perm (ledger s'.world) ∧
      HoldsReference (documentService {}) s.world := by
  obtain ⟨s, hs, hp⟩ := System.exists_reachable (documentService {}) Trace.inOrder
    (fun s => Trace.isDrained Trace.payloads s && s.world.stream.added.length = 2 && (ledger s.world).length = 1)
    (by decide +kernel)
  obtain ⟨s', hs', hp'⟩ := System.exists_reachable (documentService {}) Trace.resent
    (fun s => Trace.isDrained Trace.payloads s && s.world.stream.added.length = 3) (by decide +kernel)
  simp only [Bool.and_eq_true, decide_eq_true_eq] at hp hp'
  obtain ⟨hu, hd, hpublished⟩ := Trace.isDrained_spec hp.1.1 Trace.payloads_differ
  obtain ⟨hu', hd', hpublished'⟩ := Trace.isDrained_spec hp'.1 Trace.payloads_differ
  obtain ⟨hiff, hperm⟩ := drained_pipeline_holds_reference_ledger_iff hs hu hd
  refine ⟨s, s', hs, hs', hp.1.2, hp'.2, hp.2, ?_, hiff.2 fun event hpub _ => ?_⟩
  · exact (hperm hs' hu' hd' fun event => (hpublished event).trans (hpublished' event).symm).1
  · exact Trace.hasPlaces_of_payloads ((hpublished event).1 hpub)

/-! ## Amounts of more than 28 digits -/

namespace Trace

/-- `"0.00999999999999999999999999999999"` and `"0.10999999999999999999999999996"` -/
def wideEuros : Decimal := .finite false 999999999999999999999999999999 (-32)

def wideDollars : Decimal := .finite false 10999999999999999999999999996 (-29)

def canadianAnswered : Choice := answered (.ok (.finite false 7350 (-4)))

/-- Two events with such amounts are published and drained. -/
def wide : List Action :=
  publish 0 (document "a" wideEuros "EUR") ++ publish 1 (document "b" wideDollars "CAD") ++
  boot 0 ++ calls 0 .consume 2 ++ [.move 0 .consume] ++
  handles 0 .consume 0 1 ++ [.handle 0 .consume 0 euroAnswered] ++ handles 0 .consume 0 7 ++
  handles 0 .consume 1 1 ++ [.handle 0 .consume 1 canadianAnswered] ++ handles 0 .consume 1 7 ++
  [.move 0 .consume] ++ calls 0 .consume 1

def widePayloads : List EventIn := [payload "a" wideEuros "EUR", payload "b" wideDollars "CAD"]

/-- A hundredth of a euro is worth more than the event's amount, and eleven hundredths of a Canadian dollar are
worth more than what is stored for them. -/
def isMisconverted (s : System EventIn) : Bool :=
  (ledger s.world).map (fun line => (line.amount, line.rate, line.amountUsd)) =
    [(1 / 100, 217 / 200, 109 / 10000), (11 / 100, 147 / 200, 808 / 10000)] &&
  Decimal.roundHalfAway 4 (wideEuros.toRat * (217 / 200)) = 108 / 10000 &&
  Decimal.roundHalfAway 4 (11 / 100 * (147 / 200)) = 809 / 10000

end Trace

/-- The API accepts both amounts. One is stored with the worth of the amount in its column and not of the
event's, the other with the worth of the event's and not of the one in its column; the ledger is not the
reference. -/
theorem wide_amounts_are_misconverted : ∃ s, System.Reachable (documentService {}) s ∧
    Undisturbed (documentService {}) s.world ∧ Drained s.world ∧ Trace.isMisconverted s = true ∧
    ¬HoldsReference (documentService {}) s.world := by
  obtain ⟨s, hs, hp⟩ := System.exists_reachable (documentService {}) Trace.wide
    (fun s => Trace.isDrained Trace.widePayloads s && Trace.isMisconverted s) (by decide +kernel)
  rw [Bool.and_eq_true] at hp
  obtain ⟨hu, hd, hpublished⟩ := Trace.isDrained_spec hp.1 (by decide +kernel)
  refine ⟨s, hs, hu, hd, hp.2, fun hholds => ?_⟩
  have hfit := (holdsReference_iff hu hd (ok_of_reachable hs).inv).1 hholds
  -- every entry of the stream was published as an event, so the first amount is one
  obtain ⟨event, hevent⟩ : ∃ event : TransactionEvent, event.toIn = Trace.payload "a" Trace.wideEuros "EUR" := by
    have hall := (Bool.and_eq_true_iff.1 hp.1).2
    rw [List.all_eq_true] at hall
    obtain ⟨e, he, hpayload⟩ := List.mem_map.1 (List.contains_iff_mem.1 (hall _ (List.mem_cons_self ..)))
    obtain ⟨event, hdump⟩ := (ok_of_reachable hs).inv.published e he
    exact ⟨event, hdump.symm.trans hpayload⟩
  have hcurrency : event.currency = "EUR".toList := congrArg EventIn.currency hevent
  have hamount : event.amount = Trace.wideEuros := congrArg EventIn.amount hevent
  obtain ⟨n, hn⟩ := hfit event ((hpublished event).2 (hevent ▸ List.mem_cons_self ..)) (by rw [hcurrency]; decide)
  rw [hamount] at hn
  -- a hundred ten-thousandths, less a little
  have hlow : (99 : ℚ) < Trace.wideEuros.toRat * 10 ^ 4 := by norm_num [Trace.wideEuros, Decimal.toRat]
  have hhigh : Trace.wideEuros.toRat * 10 ^ 4 < 100 := by norm_num [Trace.wideEuros, Decimal.toRat]
  rw [hn] at hlow hhigh
  have hlow' : (99 : ℤ) < n := by exact_mod_cast hlow
  have hhigh' : n < (100 : ℤ) := by exact_mod_cast hhigh
  omega

end App
