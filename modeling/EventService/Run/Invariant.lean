/-
What holds of every world the service can be in: `Inv` on worlds, and `Le` between a world and any
later one. An entry is open or has landed unless it was trimmed away; every row was converted from
one published event at a rate that was looked up for it; every dead-letter record names its cause.
Each part of the invariant is stated by facts that no later world falsifies.
-/
import EventService.Model.Consumer

namespace App

open Store

variable {P : Type} (S : Service P)

/-! ## Facts that stay -/

/-- The event was published. -/
def Published (w : World P) (event : TransactionEvent) : Prop :=
  ∃ e ∈ w.stream.added, e.payload = S.json.modelDumpJson event

/-- The entry was added to the stream, with an event as its payload. -/
def Entered (w : World P) (e : Entry P) : Prop :=
  e ∈ w.stream.added ∧ ∃ event, e.payload = S.json.modelDumpJson event

/-- A row carries the entry's event id, or a record with its payload was once filed in the dead-letter stream,
which may have trimmed it away since. -/
def Landed (w : World P) (e : Entry P) : Prop :=
  (∃ event, e.payload = S.json.modelDumpJson event ∧ w.table.Has event.id) ∨
    ∃ q ∈ w.dlq, ∃ f ∈ q.added, f.payload.payload = e.payload

/-- A rate `get_rate` may return: one for the base currency, or what the source answered, directly
or read back from the cache. -/
def RateFrom (w : World P) (currency : PyStr) (rate : Decimal) : Prop :=
  (PyStr.upper currency = baseCurrency ∧ rate = .finite false 1 0) ∨
    ∃ answer, (PyStr.upper currency, .ok answer) ∈ w.fetched ∧
      (rate = answer ∨ Decimal.parse answer.str = some rate)

/-- The values of a row that `process` made of one published event. -/
def Made (w : World P) (v : Values) : Prop :=
  ∃ event, Published S w event ∧ event.currency.length = 3 ∧ (event.currency, v.rate) ∈ w.rates ∧
    convertToUsd event.amount v.rate = .ok v.amountUsd ∧
    v = event.values v.amountUsd v.rate v.processedAt

/-- Why a message was dead-lettered: it was delivered too often, it could not be parsed, or the
source knew no rate for its currency. -/
def Cause (w : World P) (r : DlqRecord P) : Prop :=
  (r.reason = exceededReason S ∧ S.settings.maxDeliveries < r.deliveryCount) ∨
  (∃ text, S.json.modelValidateJson r.payload = .error (.ofClass .validationError text) ∧
    r.reason = "unparsable payload: " ++ text) ∨
  (∃ event, S.json.modelValidateJson r.payload = .ok event ∧
    (PyStr.upper event.currency, .error (.event .unknownCurrencyError r.reason)) ∈ w.fetched)

/-- A record names the entry it was made from, whose payload it holds. -/
def Recorded (w : World P) (r : DlqRecord P) : Prop :=
  Cause S w r ∧ ∃ e ∈ w.stream.added, e.id = r.originalId ∧ e.payload = r.payload

/-- The entry was handed over, and is pending now only with at least `n` deliveries. -/
def Counted (w : World P) (id n : Nat) : Prop :=
  ∃ g ∈ w.stream.group, id ≤ g.lastDelivered ∧ ∀ p ∈ g.pending, p.id = id → n ≤ p.timesDelivered

/-- A cached string is what an answer of the source was written as. -/
def Cached (w : World P) (key value : PyStr) : Prop :=
  ∃ currency answer, key = cacheKey currency ∧ value = answer.str ∧ (currency, .ok answer) ∈ w.fetched

/-! ## Later worlds -/

/-- `w'` may be a later world than `w`. -/
structure Le (w w' : World P) : Prop where
  stream : w.stream.Le w'.stream
  dlq : ∀ q ∈ w.dlq, ∃ q' ∈ w'.dlq, q.added <+: q'.added
  table : w.table.Le w'.table
  fetched : w.fetched <+: w'.fetched
  rates : w.rates <+: w'.rates
  lookups : w.lookups <+: w'.lookups
  vanished : w.vanished <+: w'.vanished

namespace Le

theorem refl (w : World P) : Le w w :=
  ⟨.refl _, fun q hq => ⟨q, hq, List.prefix_rfl⟩, .refl _, List.prefix_rfl, List.prefix_rfl,
    List.prefix_rfl, List.prefix_rfl⟩

theorem trans {u v w : World P} (h : Le u v) (h' : Le v w) : Le u w where
  stream := h.stream.trans h'.stream
  dlq := by
    intro q hq
    obtain ⟨q₁, hq₁, hle₁⟩ := h.dlq q hq
    obtain ⟨q₂, hq₂, hle₂⟩ := h'.dlq q₁ hq₁
    exact ⟨q₂, hq₂, hle₁.trans hle₂⟩
  table := h.table.trans h'.table
  fetched := h.fetched.trans h'.fetched
  rates := h.rates.trans h'.rates
  lookups := h.lookups.trans h'.lookups
  vanished := h.vanished.trans h'.vanished

end Le

section Mono

variable {S} {w w' : World P} (h : Le w w')
include h

theorem Published.mono {event : TransactionEvent} : Published S w event → Published S w' event :=
  fun ⟨e, he, hp⟩ => ⟨e, h.stream.added.subset he, hp⟩

theorem Entered.mono {e : Entry P} : Entered S w e → Entered S w' e :=
  fun ⟨he, hp⟩ => ⟨h.stream.added.subset he, hp⟩

theorem Landed.mono {e : Entry P} : Landed S w e → Landed S w' e := by
  rintro (⟨event, hp, hrow⟩ | ⟨q, hq, f, hf, hp⟩)
  · exact Or.inl ⟨event, hp, hrow.mono h.table⟩
  · obtain ⟨q', hq', hle⟩ := h.dlq q hq
    exact Or.inr ⟨q', hq', f, hle.subset hf, hp⟩

theorem RateFrom.mono {currency : PyStr} {rate : Decimal} :
    RateFrom w currency rate → RateFrom w' currency rate :=
  Or.imp_right fun ⟨answer, ha, hr⟩ => ⟨answer, h.fetched.subset ha, hr⟩

theorem Made.mono {v : Values} : Made S w v → Made S w' v :=
  fun ⟨event, hp, hlen, hr, hc, hv⟩ => ⟨event, hp.mono h, hlen, h.rates.subset hr, hc, hv⟩

theorem Recorded.mono {r : DlqRecord P} : Recorded S w r → Recorded S w' r := by
  rintro ⟨hc, e, he, hid, hp⟩
  refine ⟨?_, e, h.stream.added.subset he, hid, hp⟩
  exact hc.imp_right (Or.imp_right fun ⟨event, hv, hf⟩ => ⟨event, hv, h.fetched.subset hf⟩)

theorem Counted.mono {id n : Nat} : Counted w id n → Counted w' id n := by
  rintro ⟨g, hg, hlast, hn⟩
  obtain ⟨g', hg', hle, hpend⟩ := h.stream.group g hg
  refine ⟨g', hg', hlast.trans hle, fun p' hp' hid => ?_⟩
  obtain ⟨p, hp, hpid, htimes⟩ := hpend p' hp' (hid ▸ hlast)
  exact (hn p hp (hpid.trans hid)).trans htimes

theorem Cached.mono {key value : PyStr} : Cached w key value → Cached w' key value :=
  fun ⟨currency, answer, hk, hv, hf⟩ => ⟨currency, answer, hk, hv, h.fetched.subset hf⟩

end Mono

/-! ## The invariant -/

structure Inv (w : World P) : Prop where
  accounted : ∀ e ∈ w.stream.added, w.stream.Open e.id ∨ Landed S w e ∨ e ∈ w.stream.dropped
  published : ∀ e ∈ w.stream.added, ∃ event, e.payload = S.json.modelDumpJson event
  parked : ∃ q, w.dlq = some q ∧ ∀ f ∈ q.added, Recorded S w f.payload
  made : ∀ v, v ∈ w.table.rows ∨ (∃ s, (s, v) ∈ w.table.uncommitted) → Made S w v
  cached : ∀ kv ∈ w.cache, Cached w kv.1 kv.2
  rated : ∀ cr ∈ w.rates, RateFrom w cr.1 cr.2
  representable : ∀ currency neg c e, (currency, .ok (.finite neg c e)) ∈ w.fetched →
    Decimal.representable c e = true
  vanished : ∀ id ∈ w.vanished, ∃ e ∈ w.stream.dropped, e.id = id

theorem inv_initial : Inv S (World.initial P) where
  accounted := by rintro e ⟨⟩
  published := by rintro e ⟨⟩
  parked := ⟨Stream.empty, rfl, by simp [Stream.added, Stream.empty]⟩
  made := by
    rintro v (hv | ⟨s, hv⟩)
    · cases hv
    · cases hv
  cached := by simp [World.initial]
  rated := by simp [World.initial]
  representable := by simp [World.initial]
  vanished := by simp [World.initial]

/-! ## One component changes -/

namespace Inv

variable {S} {w : World P} (hi : Inv S w)
include hi

/-- A step of the stream: what it adds is a published event, and what it takes out of the group's
hands has landed or was trimmed away. -/
theorem setStream {s : Stream P} (hle : w.stream.Le s)
    (hacc : ∀ e ∈ s.added, s.Open e.id ∨ Landed S w e ∨ e ∈ s.dropped)
    (hpub : ∀ e ∈ s.added, e ∈ w.stream.added ∨ ∃ event, e.payload = S.json.modelDumpJson event) :
    Inv S { w with stream := s } ∧ Le w { w with stream := s } := by
  have hw : Le w { w with stream := s } := { Le.refl w with stream := hle }
  refine ⟨⟨?_, ?_, ?_, ?_, hi.cached, hi.rated, hi.representable, ?_⟩, hw⟩
  · exact fun e he => (hacc e he).imp_right (Or.imp_left (Landed.mono hw))
  · intro e he
    rcases hpub e he with h | h
    · exact hi.published e h
    · exact h
  · obtain ⟨q, hq, hrec⟩ := hi.parked
    exact ⟨q, hq, fun f hf => (hrec f hf).mono hw⟩
  · exact fun v hv => (hi.made v hv).mono hw
  · intro id hid
    obtain ⟨e, he, h⟩ := hi.vanished id hid
    exact ⟨e, hle.dropped.subset he, h⟩

/-- The accounting is kept by a step of the group that keeps every open entry in its hands. -/
theorem setGroup {s : Stream P} (hle : w.stream.Le s) (hadded : s.added = w.stream.added)
    (hopen : ∀ e ∈ w.stream.added, w.stream.Open e.id →
      s.Open e.id ∨ Landed S w e ∨ e ∈ s.dropped) :
    Inv S { w with stream := s } ∧ Le w { w with stream := s } := by
  refine hi.setStream hle (fun e he => ?_) fun e he => Or.inl (hadded ▸ he)
  rw [hadded] at he
  -- only entries that were open can change their place
  rcases hi.accounted e he with ho | hl | hd
  · exact hopen e he ho
  · exact Or.inr (Or.inl hl)
  · exact Or.inr (Or.inr (hle.dropped.subset hd))

/-- A step of the database: every row it is given was made from a published event. -/
theorem setTable {t : Table Values.id} (hle : w.table.Le t)
    (hmade : ∀ v, v ∈ t.rows ∨ (∃ s, (s, v) ∈ t.uncommitted) →
      (v ∈ w.table.rows ∨ ∃ s, (s, v) ∈ w.table.uncommitted) ∨ Made S w v) :
    Inv S { w with table := t } ∧ Le w { w with table := t } := by
  have hw : Le w { w with table := t } := { Le.refl w with table := hle }
  refine ⟨⟨?_, hi.published, ?_, ?_, hi.cached, hi.rated, hi.representable, hi.vanished⟩, hw⟩
  · exact fun e he => (hi.accounted e he).imp_right (Or.imp_left (Landed.mono hw))
  · obtain ⟨q, hq, hrec⟩ := hi.parked
    exact ⟨q, hq, fun f hf => (hrec f hf).mono hw⟩
  · intro v hv
    rcases hmade v hv with h | h
    · exact (hi.made v h).mono hw
    · exact h.mono hw

/-- A record is added to the dead-letter stream. -/
theorem setDlq {q q' : Stream (DlqRecord P)} (hq : w.dlq = some q) (hle : q.added <+: q'.added)
    (hrec : ∀ f ∈ q'.added, f ∈ q.added ∨ Recorded S w f.payload) :
    Inv S { w with dlq := some q' } ∧ Le w { w with dlq := some q' } := by
  have hw : Le w { w with dlq := some q' } := { Le.refl w with
    dlq := fun q₀ hq₀ => ⟨q', rfl, Option.some.inj (hq.symm.trans hq₀) ▸ hle⟩ }
  refine ⟨⟨?_, hi.published, ?_, ?_, hi.cached, hi.rated, hi.representable, hi.vanished⟩, hw⟩
  · exact fun e he => (hi.accounted e he).imp_right (Or.imp_left (Landed.mono hw))
  · obtain ⟨q₀, hq₀, hrec₀⟩ := hi.parked
    obtain rfl : q = q₀ := Option.some.inj (hq.symm.trans hq₀)
    refine ⟨q', rfl, fun f hf => ?_⟩
    rcases hrec f hf with h | h
    · exact (hrec₀ f h).mono hw
    · exact h.mono hw
  · exact fun v hv => (hi.made v hv).mono hw

/-- The cache changes to strings that answers were written as. -/
theorem setCache (cache : List (PyStr × PyStr)) (h : ∀ kv ∈ cache, kv ∈ w.cache ∨ Cached w kv.1 kv.2) :
    Inv S { w with cache := cache } ∧ Le w { w with cache := cache } := by
  refine ⟨⟨hi.accounted, hi.published, hi.parked, hi.made, fun kv hkv => ?_, hi.rated, hi.representable,
    hi.vanished⟩, { Le.refl w with }⟩
  rcases h kv hkv with h | h
  · exact hi.cached kv h
  · exact h

/-- The source answers. -/
theorem addFetched (currency : PyStr) (reply : Except Exn Decimal)
    (h : ∀ neg c e, reply = .ok (.finite neg c e) → Decimal.representable c e = true) :
    Inv S { w with fetched := w.fetched ++ [(currency, reply)] } ∧
      Le w { w with fetched := w.fetched ++ [(currency, reply)] } := by
  have hw : Le w { w with fetched := w.fetched ++ [(currency, reply)] } :=
    { Le.refl w with fetched := List.prefix_append .. }
  refine ⟨⟨hi.accounted, hi.published, ?_, hi.made, ?_, ?_, ?_, hi.vanished⟩, hw⟩
  · obtain ⟨q, hq, hrec⟩ := hi.parked
    exact ⟨q, hq, fun f hf => (hrec f hf).mono hw⟩
  · exact fun kv hkv => (hi.cached kv hkv).mono hw
  · exact fun cr hcr => (hi.rated cr hcr).mono hw
  · intro cur neg c e hmem
    rcases List.mem_append.1 hmem with hmem | hmem
    · exact hi.representable cur neg c e hmem
    · exact h neg c e (Prod.mk.inj (List.mem_singleton.1 hmem)).2.symm

/-- A rate that was looked up is noted. -/
theorem addRate {currency : PyStr} {rate : Decimal} (h : RateFrom w currency rate) :
    Inv S { w with rates := w.rates ++ [(currency, rate)] } ∧
      Le w { w with rates := w.rates ++ [(currency, rate)] } := by
  have hw : Le w { w with rates := w.rates ++ [(currency, rate)] } :=
    { Le.refl w with rates := List.prefix_append .. }
  refine ⟨⟨hi.accounted, hi.published, hi.parked, ?_, hi.cached, ?_, hi.representable, hi.vanished⟩, hw⟩
  · exact fun v hv => (hi.made v hv).mono hw
  · intro cr hcr
    rcases List.mem_append.1 hcr with hcr | hcr
    · exact (hi.rated cr hcr).mono hw
    · rw [List.mem_singleton.1 hcr]
      exact h.mono hw

theorem addLookup (lookup : List (Nat × Nat) × List (Nat × Nat)) :
    Inv S { w with lookups := w.lookups ++ [lookup] } ∧
      Le w { w with lookups := w.lookups ++ [lookup] } :=
  ⟨⟨hi.accounted, hi.published, hi.parked, hi.made, hi.cached, hi.rated, hi.representable, hi.vanished⟩,
    { Le.refl w with lookups := List.prefix_append .. }⟩

theorem addVanished {ids : List Nat} (h : ∀ id ∈ ids, ∃ e ∈ w.stream.dropped, e.id = id) :
    Inv S { w with vanished := w.vanished ++ ids } ∧ Le w { w with vanished := w.vanished ++ ids } := by
  refine ⟨⟨hi.accounted, hi.published, hi.parked, hi.made, hi.cached, hi.rated, hi.representable, ?_⟩,
    { Le.refl w with vanished := List.prefix_append .. }⟩
  intro id hid
  rcases List.mem_append.1 hid with hid | hid
  · exact hi.vanished id hid
  · exact h id hid

/-- Time and stop flags are nobody's business. -/
theorem setClock (now : Nat) (stops : List Nat) :
    Inv S { w with now := now, stops := stops } ∧ Le w { w with now := now, stops := stops } :=
  ⟨⟨hi.accounted, hi.published, hi.parked, hi.made, hi.cached, hi.rated, hi.representable, hi.vanished⟩,
    { Le.refl w with }⟩

end Inv

end App
