/-
What processing one event establishes, whatever else goes on: a rate that is returned was looked up
for the currency, an insert that ended without an exception has left a row with the event's id, and
the only permanent failure is that the source knows no rate for the event's currency.
-/
import EventService.Run.Operations

namespace App

open Store Prog

variable {P : Type} {S : Service P}

/-- The exception is permanent only if it is the source's own answer that it knows no rate. -/
def Refusal (currency : PyStr) (e : Exn) (w : World P) : Prop :=
  e.isPermanent = true → ∃ text, e = .event .unknownCurrencyError text ∧
    (PyStr.upper currency, .error e) ∈ w.fetched

theorem Refusal.of_not_permanent {currency : PyStr} {e : Exn} {w : World P} (h : e.isPermanent = false) :
    Refusal currency e w := fun he => absurd (he.symm.trans h) (by decide)

theorem Refusal.mono {currency : PyStr} {e : Exn} {w w' : World P} (h : Le w w')
    (hr : Refusal currency e w) : Refusal currency e w' := by
  intro he
  obtain ⟨text, heq, hf⟩ := hr he
  exact ⟨text, heq, h.fetched.subset hf⟩

/-! ## Rates -/

theorem cacheKey_inj {c c' : PyStr} (h : cacheKey c = cacheKey c') : c = c' := List.append_cancel_left h

theorem safe_readCache (currency : PyStr) (w : World P) :
    Safe S (fun r w' => ∀ rate ∈ r, ∃ answer, (currency, .ok answer) ∈ w'.fetched ∧
        Decimal.parse answer.str = some rate)
      (fun e _ => e.isPermanent = false) (readCache S currency) w := by
  unfold readCache
  split
  swap
  · exact safe_ret (by simp)
  refine safe_ask_bind trivial fun r w' _ hr => ?_
  rcases r with e | _ | raw
  · dsimp only
    split
    · exact safe_ret (by simp)
    · exact safe_raise rfl
  · exact safe_ret (by simp)
  · refine safe_ret fun rate hrate => ?_
    obtain ⟨c, answer, hkey, hvalue, hf⟩ := hr
    rw [← cacheKey_inj hkey] at hf
    exact ⟨answer, hf, hvalue ▸ hrate⟩

theorem safe_writeCache {currency : PyStr} {rate : Decimal} {w : World P}
    (h : (currency, .ok rate) ∈ w.fetched) :
    Safe S (fun _ _ => True) (fun e _ => e.isPermanent = false) (writeCache S currency rate) w := by
  unfold writeCache
  split
  swap
  · exact safe_ret trivial
  refine safe_ask_bind ⟨currency, rate, rfl, rfl, h⟩ fun r w' _ _ => ?_
  rcases r with e | _
  · dsimp only
    split
    · exact safe_ret trivial
    · exact safe_raise rfl
  · exact safe_ret trivial

theorem safe_getRate (currency : PyStr) (w : World P) :
    Safe S (fun rate w' => RateFrom w' currency rate) (Refusal currency) (getRate S currency) w := by
  unfold getRate
  dsimp only
  split
  · rename_i hbase
    exact safe_ret (Or.inl ⟨hbase, rfl⟩)
  refine Protocol.Ok.bind (safe_readCache _ w) (fun cached w₁ _ hcached => ?_)
    fun e w₁ _ he => Refusal.of_not_permanent he
  rcases cached with _ | rate
  · refine safe_ask_bind trivial fun reply w₂ _ hf => ?_
    -- only the two classes the source is known for keep their class
    match reply with
    | .error (.event .unknownCurrencyError text) =>
      exact safe_raise fun _ => ⟨text, rfl, hf⟩
    | .error (.event .rateUnavailableError _) => exact safe_raise (.of_not_permanent rfl)
    | .error (.event .eventProcessingError _) | .error (.event .transientError _)
    | .error (.event .permanentError _) | .error (.event .storageUnavailableError _)
    | .error (.event .invalidEventError _) | .error (.foreign _) =>
      exact safe_raise (.of_not_permanent rfl)
    | .ok rate =>
      refine Protocol.Ok.bind (safe_writeCache hf) (fun _ w₃ hle _ => ?_)
        fun e w₃ _ he => Refusal.of_not_permanent he
      exact safe_ret (Or.inr ⟨rate, hle.fetched.subset hf, Or.inl rfl⟩)
  · obtain ⟨answer, hf, hparse⟩ := hcached rate rfl
    exact safe_ret (Or.inr ⟨answer, hf, Or.inr hparse⟩)

/-! ## Storing -/

/-- How the body of `_store` may fail: with a violated constraint only if the id is taken. -/
def InsertFailed (id : PyStr) (e : Exn) (w : World P) : Prop :=
  ∃ f, e = .foreign f ∧ (f.cls = .integrityError → w.table.Has id)

theorem InsertFailed.mono {id : PyStr} {e : Exn} {w w' : World P} (h : Le w w')
    (hf : InsertFailed id e w) : InsertFailed id e w' := by
  obtain ⟨f, heq, hrow⟩ := hf
  exact ⟨f, heq, fun hc => (hrow hc).mono h.table⟩

theorem safe_insertIfAbsent {session : Nat} {values : Values} {w : World P} (h : Made S w values) :
    Safe S (fun _ w' => w'.table.Claimed session values.id) (InsertFailed values.id)
      (insertIfAbsent S session values) w := by
  have hvalues := insertIgnoreDuplicates_values S.dialect values
  have hp : Pre S (.execute session (insertIgnoreDuplicates S.dialect values)) w := by
    show Made S w (insertIgnoreDuplicates S.dialect values).values
    rw [hvalues]
    exact h
  refine safe_bind (safe_lift (safe_ask hp) fun e w' hpost => ?_) fun n w' _ hpost => safe_ret ?_
  · refine ⟨e, rfl, fun hc => ?_⟩
    have := hpost hc
    rwa [hvalues] at this
  · have hclaimed : w'.table.Claimed session (insertIgnoreDuplicates S.dialect values).values.id := hpost
    rwa [hvalues] at hclaimed

/-- The session is closed, and a violated constraint is still the body's. -/
theorem safe_withSession {α : Type} {Q : α → World P → Prop} {id : PyStr} {body : Nat → Code P α}
    {w : World P} (hQ : ∀ a, (protocol S).Stable (Q a))
    (hbody : ∀ session w', Le w w' → Safe S Q (InsertFailed id) (body session) w') :
    Safe S Q (InsertFailed id) (withSession body) w := by
  have hclass : ∀ {f : Foreign} {w' : World P}, f.cls ≠ .integrityError → InsertFailed id (.foreign f) w' :=
    fun hne => ⟨_, rfl, fun h => absurd h hne⟩
  unfold withSession
  refine safe_bind (safe_lift (safe_ask trivial) fun e w' hne => hclass hne) fun session w₁ hle₁ _ => ?_
  refine safe_attempt_bind (hbody session w₁ hle₁) (fun a w₂ _ ha => ?_) fun e w₂ _ he => ?_
  · refine safe_bind (safe_lift (safe_ask trivial) fun e w' hne => hclass hne) fun _ w₃ hle₃ _ => ?_
    exact safe_ret (hQ a w₂ w₃ hle₃ ha)
  · refine safe_bind (safe_lift (safe_ask trivial) fun e w' hne => hclass hne) fun _ w₃ hle₃ _ => ?_
    exact safe_raise (he.mono hle₃)

theorem storeFailed_ok {e : Exn} {inserted : Bool} (h : storeFailed e = .ok inserted) :
    ∃ f, e = .foreign f ∧ f.cls = .integrityError := by
  unfold storeFailed at h
  split at h
  · split at h
    · rename_i f hc
      exact ⟨f, rfl, hc⟩
    · split at h
      · cases h
      · split at h <;> exact absurd h (by simp)
  · cases h

theorem storeFailed_error {f : Foreign} {exc : Exn} (h : storeFailed (.foreign f) = .error exc) :
    exc.isPermanent = false := by
  unfold storeFailed at h
  dsimp only at h
  split at h
  · cases h
  · split at h
    · rw [← Except.error.inj h]
      rfl
    · split at h <;> (rw [← Except.error.inj h]; rfl)

/-- However `_store` ends without an exception, the row's id is taken. -/
theorem safe_store {values : Values} {w : World P} (h : Made S w values) :
    Safe S (fun _ w' => w'.table.Has values.id) (fun e _ => e.isPermanent = false) (store S values) w := by
  have hbody : ∀ session w', Le w w' →
      Safe S (fun _ w'' => w''.table.Has values.id) (InsertFailed values.id)
        (insertIfAbsent S session values >>= fun inserted =>
          (ask (.commit session) >>= lift) >>= fun _ => pure inserted) w' := by
    intro session w' hle
    refine safe_bind (safe_insertIfAbsent (h.mono hle)) fun inserted w₁ _ hclaimed => ?_
    refine safe_bind (safe_lift (Q := Post S (.commit session)) (safe_ask trivial)
      fun e w₂ hne => ⟨e, rfl, fun hc => absurd hc hne⟩) fun _ w₂ hle₂ hpost => ?_
    have hhas : ∀ k, w₂.table.Claimed session k → w₂.table.Has k := hpost
    exact safe_ret (hhas _ (hclaimed.mono hle₂.table))
  unfold store
  refine safe_attempt_bind (safe_withSession (fun _ w₁ w₂ hle hk => hk.mono hle.table) hbody)
    (fun inserted w' _ hhas => safe_ret hhas) fun e w' _ he => ?_
  -- a violated constraint is taken for a duplicate, and only then: the row is there
  obtain ⟨f, rfl, hrow⟩ := he
  show Safe S _ _ (ofExcept (storeFailed (.foreign f))) w'
  cases hs : storeFailed (.foreign f) with
  | ok inserted =>
    obtain ⟨f', heq, hc⟩ := storeFailed_ok hs
    obtain rfl := Exn.foreign.inj heq
    exact safe_ret (hrow hc)
  | error exc => exact safe_raise (storeFailed_error hs)

/-! ## Processing -/

theorem convertToUsd_not_permanent {amount rate : Decimal} {e : Exn}
    (h : convertToUsd amount rate = .error e) : e.isPermanent = false := by
  have hsig : ∀ s, (Exn.ofSignal s).isPermanent = false := by
    intro s
    cases s <;> rfl
  have hquantize : ∀ d, quantizeUsd d = .error e → e.isPermanent = false := by
    intro d hd
    unfold quantizeUsd ofSignals at hd
    split at hd
    · cases hd
    · rw [← Except.error.inj hd]
      exact hsig _
  unfold convertToUsd at h
  split at h
  · rw [← Except.error.inj h]
    rfl
  split at h
  · rw [← Except.error.inj h]
    rfl
  split at h
  · rw [← Except.error.inj h]
    exact hsig _
  · exact hquantize _ h

/-- `process` returns an outcome only when a row carries the event's id. -/
theorem safe_process {event : TransactionEvent} {w : World P} (hp : Published S w event)
    (hlen : event.currency.length = 3) :
    Safe S (fun _ w' => w'.table.Has event.id) (Refusal event.currency) (process S event) w := by
  unfold process
  refine safe_bind (safe_getRate event.currency w) fun rate w₁ hle₁ hrate => ?_
  refine safe_ask_bind hrate fun _ w₂ hle₂ hrec => ?_
  cases hconv : convertToUsd event.amount rate with
  | error e => exact safe_raise (Refusal.of_not_permanent (convertToUsd_not_permanent hconv))
  | ok usd =>
    refine safe_ask_bind trivial fun now w₃ hle₃ _ => ?_
    -- the rate was noted before, so the row that may be written now is accounted for
    have hmade : Made S w₃ (event.values usd rate now) :=
      ⟨event, hp.mono ((hle₁.trans hle₂).trans hle₃), hlen, hle₃.rates.subset hrec, hconv, rfl⟩
    refine Protocol.Ok.bind (safe_store hmade) (fun inserted w₄ _ hrow => ?_)
      fun e _ _ he => Refusal.of_not_permanent he
    split <;> exact safe_ret hrow

/-- `retry_transient` returns what the operation returns, and a permanent failure is the operation's. -/
theorem safe_retryFrom {α : Type} {Q : α → World P → Prop} {E : Exn → World P → Prop} {operation : Code P α}
    {maxAttempts : Nat} {baseDelay maxDelay : ℚ}
    (hE : ∀ e w, e.isPermanent = false → E e w) :
    ∀ (remaining : Nat) (last : Option Exn) (w : World P), (∀ e ∈ last, e.isTransient = true) →
      (∀ w', Le w w' → Safe S Q E operation w') →
      Safe S Q E (retryFrom operation maxAttempts baseDelay maxDelay (pure ()) last remaining) w
  | 0, none, w, _, _ => safe_raise (hE _ _ rfl)
  | 0, some e, w, hlast, _ => safe_raise (hE _ _ (Exn.not_isPermanent_of_isTransient (hlast e rfl)))
  | remaining + 1, last, w, _, hop => by
    unfold retryFrom
    refine safe_attempt_bind (hop w (Le.refl w)) (fun a _ _ ha => safe_ret ha) fun e w₁ hle₁ he => ?_
    dsimp only
    split
    swap
    · exact safe_raise he
    rename_i htrans
    split
    · exact safe_raise he
    · have hdelay : Safe S (fun _ _ => True) E
          (backoffDelay (maxAttempts - remaining) baseDelay maxDelay) w₁ := by
        unfold backoffDelay
        split
        · exact safe_raise (hE _ _ rfl)
        split
        · exact safe_raise (hE _ _ rfl)
        · exact Protocol.Ok.weaken (safe_ask trivial) (fun _ _ _ _ => trivial) fun _ _ _ h => h
      refine safe_bind hdelay fun delay w₂ hle₂ _ => ?_
      refine safe_bind (Q := fun _ _ => True) (safe_ret trivial) fun _ w₃ hle₃ _ => ?_
      refine safe_ask_bind trivial fun _ w₄ hle₄ _ => ?_
      -- the next attempt starts in a later world, with this failure as the last one
      exact safe_retryFrom hE remaining (some e) w₄ (fun e' he' => Option.some.inj he' ▸ htrans)
        fun w' hle' => hop w' ((((hle₁.trans hle₂).trans hle₃).trans hle₄).trans hle')

theorem safe_retryTransient {α : Type} {Q : α → World P → Prop} {E : Exn → World P → Prop}
    {operation : Code P α} {w : World P} (maxAttempts : Nat) (baseDelay maxDelay : ℚ)
    (hE : ∀ e w, e.isPermanent = false → E e w) (hop : ∀ w', Le w w' → Safe S Q E operation w') :
    Safe S Q E (retryTransient operation maxAttempts baseDelay maxDelay (pure ())) w := by
  unfold retryTransient
  split
  · exact safe_raise (hE _ _ rfl)
  · exact safe_retryFrom hE maxAttempts none w (by simp) hop

end App
