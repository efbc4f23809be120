/-
The failure classes of `process`: one call, and every way the cache, the rate source and the
database may answer it. Every failure is classified as the taxonomy says exactly if the cache fails
only with a `RedisError`, the rate is one the conversion can use, and the database fails only in the
ways `_store` translates, none of which is its rejection of the values.
-/
import EventService.Model.Processor
import EventService.Model.System

namespace App

open Prog

variable {P : Type} (S : Service P)

/-- How every call is answered. -/
abbrev Answers (P : Type) : Type := (o : Op P) → o.Reply

/-! ## What the dependencies do -/

/-- What the cache offers: nothing if there is none, if it has no rate or none that can be read, or
if it is unavailable. -/
def cacheOffers (answer : Answers P) (currency : PyStr) : Except Foreign (Option Decimal) :=
  if S.rateCache then
    match answer (.get (cacheKey currency)) with
    | .error e => if e.cls.isRedisError then .ok none else .error e
    | .ok none => .ok none
    | .ok (some raw) => .ok (Decimal.parse raw)
  else .ok none

/-- How the cache fails to take a rate, other than by being unavailable. -/
def cacheRefuses (answer : Answers P) (currency : PyStr) (rate : Decimal) : Option Foreign :=
  if S.rateCache then
    match answer (.set (cacheKey currency) rate.str) with
    | .error e => if e.cls.isRedisError then none else some e
    | .ok () => none
  else none

/-- What a lookup comes to: a rate, the source's refusal of the currency, a source that is of no
use now, or a failure of the cache that is no `RedisError`. -/
inductive Lookup
  | rate (rate : Decimal)
  | unknown (message : String)
  | unavailable (message : String)
  | cacheFailed (e : Foreign)

def lookup (answer : Answers P) (currency : PyStr) : Lookup :=
  if currency = baseCurrency then .rate (.finite false 1 0)
  else
    match cacheOffers S answer currency with
    | .error e => .cacheFailed e
    | .ok (some rate) => .rate rate
    | .ok none =>
      match answer (.fetch currency) with
      | .error (.event .unknownCurrencyError message) => .unknown message
      | .error (.event .rateUnavailableError message) => .unavailable message
      | .error _ => .unavailable ("rate lookup failed for " ++ String.ofList currency)
      | .ok rate =>
        match cacheRefuses S answer currency rate with
        | some e => .cacheFailed e
        | none => .rate rate

/-- The exception that leaves the session of an insert: of opening or of closing it, or of the
statement or the commit in between. -/
def sessionFails (answer : Answers P) (stmt : InsertStatement) : Option Foreign :=
  match answer .openSession with
  | .error e => some e
  | .ok session =>
    match answer (.close session) with
    | .error e => some e
    | .ok () =>
      match answer (.execute session stmt) with
      | .error e => some e
      | .ok _ =>
        match answer (.commit session) with
        | .error e => some e
        | .ok () => none

/-! ## What the code makes of it -/

theorem readCache_eval (answer : Answers P) (currency : PyStr) : (readCache S currency).eval answer =
    match cacheOffers S answer currency with
    | .ok r => .ok r
    | .error e => .error (.foreign e) := by
  unfold readCache cacheOffers
  split
  swap
  · rfl
  simp only [ask, bind_eq, perform_bind, eval_op]
  rcases answer (.get (cacheKey currency)) with e | _ | raw
  · dsimp only
    split <;> rfl
  · rfl
  · rfl

theorem writeCache_eval (answer : Answers P) (currency : PyStr) (rate : Decimal) :
    (writeCache S currency rate).eval answer =
      match cacheRefuses S answer currency rate with
      | none => .ok ()
      | some e => .error (.foreign e) := by
  unfold writeCache cacheRefuses
  split
  swap
  · rfl
  simp only [ask, bind_eq, perform_bind, eval_op]
  rcases answer (.set (cacheKey currency) rate.str) with e | _
  · dsimp only
    split <;> rfl
  · rfl

theorem getRate_eval (answer : Answers P) (currency : PyStr) : (getRate S currency).eval answer =
    match lookup S answer (PyStr.upper currency) with
    | .rate rate => .ok rate
    | .unknown message => .error (.event .unknownCurrencyError message)
    | .unavailable message => .error (.event .rateUnavailableError message)
    | .cacheFailed e => .error (.foreign e) := by
  unfold getRate lookup
  dsimp only
  split
  · rfl
  rw [bind_eq, eval_bind, readCache_eval]
  rcases cacheOffers S answer (PyStr.upper currency) with e | _ | rate
  · rfl
  · simp only [ask, bind_eq, perform_bind, eval_op]
    generalize answer (.fetch (PyStr.upper currency)) = reply
    rcases reply with (⟨cls, message⟩ | f) | rate
    · cases cls <;> rfl
    · rfl
    · simp only [eval_bind, writeCache_eval]
      cases cacheRefuses S answer (PyStr.upper currency) rate <;> rfl
  · rfl

theorem withSession_eval {α : Type} (answer : Answers P) (body : Nat → Code P α) :
    (withSession body).eval answer =
      match answer .openSession with
      | .error e => .error (.foreign e)
      | .ok session =>
        match answer (.close session) with
        | .error e => .error (.foreign e)
        | .ok () => (body session).eval answer := by
  unfold withSession
  simp only [ask, bind_eq, perform_bind, op_bind, eval_op]
  generalize answer .openSession = opened
  rcases opened with e | session
  · rfl
  · simp only [lift, ret_bind, eval_bind, eval_attempt, eval_op]
    generalize answer (.close session) = closed
    rcases closed with e | _
    · rfl
    · simp only [eval_ret, eval_ofExcept]

theorem store_eval (answer : Answers P) (values : Values) :
    ∃ inserted, (store S values).eval answer =
      match sessionFails answer (insertIgnoreDuplicates S.dialect values) with
      | some e => storeFailed (.foreign e)
      | none => .ok inserted := by
  unfold store sessionFails
  simp only [bind_eq, eval_bind, eval_attempt, withSession_eval]
  generalize answer .openSession = opened
  rcases opened with e | session
  · exact ⟨true, eval_ofExcept answer _⟩
  dsimp only
  generalize answer (.close session) = closed
  rcases closed with e | _
  · exact ⟨true, eval_ofExcept answer _⟩
  simp only [insertIfAbsent, ask, bind_eq, eval_bind, eval_perform]
  generalize answer (.execute session (insertIgnoreDuplicates S.dialect values)) = executed
  rcases executed with e | rowcount
  · exact ⟨true, eval_ofExcept answer _⟩
  simp only [lift, eval_ret, pure_eq]
  generalize answer (.commit session) = committed
  rcases committed with e | _
  · exact ⟨true, eval_ofExcept answer _⟩
  · exact ⟨rowcount == 1, rfl⟩

/-! ## Exact classification -/

/-- The statement `process` executes for a rate and an amount in USD. -/
def insertFor (answer : Answers P) (event : TransactionEvent) (rate usd : Decimal) : InsertStatement :=
  insertIgnoreDuplicates S.dialect (event.values usd rate (answer .now))

variable (rejects : Foreign → Prop)

/-- The event's own data is rejected: its currency by the rate source, or its values by the
database. Which exceptions are rejections of values is up to the driver: some raise a `DataError`,
others a plain `DBAPIError`. -/
def Rejected (answer : Answers P) (event : TransactionEvent) : Prop :=
  match lookup S answer (PyStr.upper event.currency) with
  | .unknown _ => True
  | .unavailable _ | .cacheFailed _ => False
  | .rate rate => ∃ usd, convertToUsd event.amount rate = .ok usd ∧
      ∃ e ∈ sessionFails answer (insertFor S answer event rate usd), rejects e

/-- `process` returns an outcome, or raises a `PermanentError` for a rejection of the event's own
data and a `TransientError` for anything else. -/
def ClassifiedExactly (answer : Answers P) (event : TransactionEvent) : Prop :=
  ∀ e, (process S event).eval answer = .error e →
    (Rejected S rejects answer event ∧ e.isPermanent = true) ∨
      (¬Rejected S rejects answer event ∧ e.isTransient = true)

/-- A failure of the database that is taken for a duplicate, or one that `_store` translates and that
is no rejection of the values. -/
def Translated (e : Foreign) : Prop :=
  e.cls = .integrityError ∨ ((e.cls.isDBAPIError = true ∨ e.cls.isOSError = true) ∧ ¬rejects e)

/-- The cache fails only with a `RedisError`; the rate that is looked up, if any, is a positive
number at which the amount in USD has less than 25 digits before its last place; and the session of
the insert, if it fails, fails in a way that `_store` translates. -/
def WellBehaved (answer : Answers P) (event : TransactionEvent) : Prop :=
  match lookup S answer (PyStr.upper event.currency) with
  | .unknown _ | .unavailable _ => True
  | .cacheFailed _ => False
  | .rate rate => rate.isFinite = true ∧ rate.nonPositive = false ∧
      |event.amount.toRat * rate.toRat| + (10 : ℚ) ^ (-4 : Int) / 2 < (10 : ℚ) ^ (24 : Int) ∧
      ∀ usd, convertToUsd event.amount rate = .ok usd →
        ∀ e ∈ sessionFails answer (insertFor S answer event rate usd), Translated rejects e

/-- What a conversion of an event's amount needs of the rate. -/
theorem convertToUsd_isOk_iff (event : TransactionEvent) (rate : Decimal) :
    (∃ usd, convertToUsd event.amount rate = .ok usd) ↔ rate.isFinite = true ∧ rate.nonPositive = false ∧
      |event.amount.toRat * rate.toRat| + (10 : ℚ) ^ (-4 : Int) / 2 < (10 : ℚ) ^ (24 : Int) := by
  constructor
  · rintro ⟨usd, h⟩
    obtain ⟨ha, hr, hpos⟩ := convertToUsd_ok h
    refine ⟨hr, hpos, not_le.1 fun hge => ?_⟩
    obtain ⟨signal, herr⟩ := convertToUsd_raises ha hr hpos hge
    exact absurd (h.symm.trans herr) (by simp)
  · rintro ⟨hr, hpos, hlt⟩
    exact convertToUsd_isOk (isFinite_of_moneyAmount event.amount_digits) hr hpos hlt

/-- A conversion that fails raises an exception of none of the service's classes. -/
theorem convertToUsd_error {amount rate : Decimal} {e : Exn} (h : convertToUsd amount rate = .error e) :
    ∃ f, e = .foreign f := by
  unfold convertToUsd at h
  split at h
  · exact ⟨_, (Except.error.inj h).symm⟩
  split at h
  · exact ⟨_, (Except.error.inj h).symm⟩
  split at h
  · rename_i signal _
    cases signal <;> exact ⟨_, (Except.error.inj h).symm⟩
  · unfold quantizeUsd ofSignals at h
    split at h
    · cases h
    · rename_i signal _
      cases signal <;> exact ⟨_, (Except.error.inj h).symm⟩

/-- What `_store` makes of a failure: a duplicate, an exception of its own, or nothing. -/
theorem storeFailed_cases (e : Foreign) :
    (e.cls = .integrityError ∧ storeFailed (.foreign e) = .ok false) ∨
    (e.cls ≠ .integrityError ∧ (e.cls.isDBAPIError = true ∨ e.cls.isOSError = true) ∧
      ∃ text, storeFailed (.foreign e) = .error (.event .storageUnavailableError text)) ∨
    (e.cls ≠ .integrityError ∧ ¬(e.cls.isDBAPIError = true ∨ e.cls.isOSError = true) ∧
      storeFailed (.foreign e) = .error (.foreign e)) := by
  obtain ⟨cls, message⟩ := e
  unfold storeFailed
  cases cls <;> simp [ForeignClass.isDBAPIError, ForeignClass.isOSError]

theorem process_eval (answer : Answers P) (event : TransactionEvent) :
    (process S event).eval answer =
    match (getRate S event.currency).eval answer with
    | .error e => .error e
    | .ok rate =>
      match convertToUsd event.amount rate with
      | .error e => .error e
      | .ok usd =>
        match (store S (event.values usd rate (answer .now))).eval answer with
        | .error e => .error e
        | .ok inserted => .ok (if inserted then .stored else .duplicate) := by
  unfold process
  simp only [ask, bind_eq, eval_bind, eval_perform, eval_ofExcept]
  cases (getRate S event.currency).eval answer with
  | error e => rfl
  | ok rate =>
    dsimp only
    cases convertToUsd event.amount rate with
    | error e => rfl
    | ok usd =>
      dsimp only
      cases (store S (event.values usd rate (answer .now))).eval answer with
      | error e => rfl
      | ok inserted => cases inserted <;> rfl

/-- Past the lookup and the conversion: what `_store` lets out is classified exactly if it is
translated. -/
theorem store_classified_iff (answer : Answers P) (values : Values) :
    (∀ e, (store S values).eval answer = .error e →
      ((∃ f ∈ sessionFails answer (insertIgnoreDuplicates S.dialect values), rejects f) ∧ e.isPermanent = true) ∨
      (¬(∃ f ∈ sessionFails answer (insertIgnoreDuplicates S.dialect values), rejects f) ∧
        e.isTransient = true)) ↔
    ∀ f ∈ sessionFails answer (insertIgnoreDuplicates S.dialect values), Translated rejects f := by
  obtain ⟨inserted, heval⟩ := store_eval S answer values
  rw [heval]
  cases hfails : sessionFails answer (insertIgnoreDuplicates S.dialect values) with
  | none => exact ⟨fun _ f hf => absurd hf (by simp), fun _ e he => absurd he (by simp)⟩
  | some f =>
    have hrejected : (∃ g ∈ some f, rejects g) ↔ rejects f := by simp
    have htranslated : (∀ g ∈ some f, Translated rejects g) ↔ Translated rejects f := by simp
    simp only [hrejected, htranslated]
    unfold Translated
    rcases storeFailed_cases f with ⟨hint, hstored⟩ | ⟨hint, hcls, text, hfailed⟩ | ⟨hint, hcls, hfailed⟩
    · rw [hstored]
      exact ⟨fun _ => Or.inl hint, fun _ e he => absurd he (by simp)⟩
    · -- a transient failure, whether the values were rejected or not
      rw [hfailed]
      constructor
      · intro h
        rcases h _ rfl with ⟨-, hbad⟩ | ⟨hnot, -⟩
        · exact absurd hbad (by simp [Exn.isPermanent, EventError.isPermanent])
        · exact Or.inr ⟨hcls, hnot⟩
      · intro h e he
        refine Or.inr ⟨(h.resolve_left hint).2, ?_⟩
        rw [← Except.error.inj he]
        rfl
    · rw [hfailed]
      constructor
      · intro h
        rcases h _ rfl with ⟨-, hbad⟩ | ⟨-, hbad⟩
        · exact absurd hbad (by simp [Exn.isPermanent])
        · exact absurd hbad (by simp [Exn.isTransient])
      · intro h
        exact absurd (h.resolve_left hint).1 hcls

/-- The failure classes of `process` are exact precisely if the dependencies behave well, whichever
exceptions of the database are its rejections of the values. -/
theorem failure_classes_exact_iff (answer : Answers P) (event : TransactionEvent) :
    ClassifiedExactly S rejects answer event ↔ WellBehaved S rejects answer event := by
  unfold ClassifiedExactly Rejected WellBehaved
  rw [process_eval, getRate_eval]
  cases lookup S answer (PyStr.upper event.currency) with
  | unknown message =>
    refine ⟨fun _ => trivial, fun _ e he => Or.inl ⟨trivial, ?_⟩⟩
    rw [← Except.error.inj he]
    rfl
  | unavailable message =>
    refine ⟨fun _ => trivial, fun _ e he => Or.inr ⟨not_false, ?_⟩⟩
    rw [← Except.error.inj he]
    rfl
  | cacheFailed f =>
    -- the cache's exception leaves `process` as it is
    constructor
    · intro h
      rcases h _ rfl with ⟨hbad, -⟩ | ⟨-, hbad⟩
      · exact hbad
      · cases hbad
    · exact False.elim
  | rate rate =>
    dsimp only
    cases hconv : convertToUsd event.amount rate with
    | error e =>
      -- the exception of the conversion is none of the service's own
      obtain ⟨f, rfl⟩ := convertToUsd_error hconv
      have hnone : ¬∃ usd, convertToUsd event.amount rate = .ok usd := by
        rintro ⟨usd, h⟩
        cases hconv.symm.trans h
      constructor
      · intro h
        rcases h _ rfl with ⟨-, hbad⟩ | ⟨-, hbad⟩
        · cases hbad
        · cases hbad
      · rintro ⟨hr, hpos, hlt, -⟩
        exact absurd ((convertToUsd_isOk_iff event rate).2 ⟨hr, hpos, hlt⟩) hnone
    | ok usd =>
      have hcond := (convertToUsd_isOk_iff event rate).1 ⟨usd, hconv⟩
      -- what is left on both sides is what the database does with the row
      simp only [Except.ok.injEq, exists_eq_left', forall_eq', hcond, true_and]
      refine Iff.trans ?_ (store_classified_iff S rejects answer (event.values usd rate (answer .now)))
      refine forall_congr' fun e => imp_congr ?_ Iff.rfl
      cases (store S (event.values usd rate (answer .now))).eval answer <;> simp

/-- A deployment with an empty cache: the source and the database answer as given to the lookup, to
opening a session and to the insert, and everything else succeeds. -/
def answersWith (fetched : Except Exn Decimal) (opened executed : Except Foreign Nat) : Answers EventIn
  | .fetch _ => fetched
  | .openSession => opened
  | .execute _ _ => executed
  | .get _ => .ok none
  | .set _ _ | .commit _ | .close _ | .xgroupCreate | .deadLetter _ => .ok ()
  | .xadd _ | .xack _ | .xlen | .xlenDlq => .ok 1
  | .xreadgroup _ _ | .xpending _ _ _ => .ok []
  | .xautoclaim _ _ _ => .ok ([], [])
  | .xinfoGroups => .ok none
  | .now => 0
  | .uniform _ => 0
  | .sleep _ | .record _ _ => ()
  | .stopIsSet _ => false

def fiveEuros : TransactionEvent :=
  ⟨"a".toList, Trace.user, .finite false 5 0, "EUR".toList,
    (Trace.clock 0 Trace.zero_lt_span).replaceUTC, by decide, Trace.user_length, by decide,
    by decide +kernel, by decide +kernel, rfl⟩

def euroRate : Except Exn Decimal := .ok (.finite false 10850 (-4))

/-- A driver that rejects values with a `DataError`. -/
def isDataError (e : Foreign) : Prop := e.cls = .dataError

/-- Three inputs on which the classes are not exact: no connection becomes free, the source answers
a rate of zero, and the database rejects the values. -/
theorem failures_escape_or_are_misclassified :
    ¬ClassifiedExactly (documentService {}) isDataError
      (answersWith euroRate (.error ⟨.poolTimeout, "QueuePool limit"⟩) (.ok 1)) fiveEuros ∧
    ¬ClassifiedExactly (documentService {}) isDataError
      (answersWith (.ok (.finite false 0 0)) (.ok 1) (.ok 1)) fiveEuros ∧
    ¬ClassifiedExactly (documentService {}) isDataError
      (answersWith euroRate (.ok 1) (.error ⟨.dataError, "invalid byte sequence"⟩)) fiveEuros := by
  refine ⟨fun h => ?_, fun h => ?_, fun h => ?_⟩
  · rcases h (.ofClass .poolTimeout "QueuePool limit") (by decide +kernel) with ⟨-, hbad⟩ | ⟨-, hbad⟩
    · exact absurd hbad (by decide)
    · exact absurd hbad (by decide)
  · rcases h (.ofClass .valueError "rate must be positive") (by decide +kernel) with ⟨-, hbad⟩ | ⟨-, hbad⟩
    · exact absurd hbad (by decide)
    · exact absurd hbad (by decide)
  · rcases h (.event .storageUnavailableError "database write failed: invalid byte sequence")
        (by decide +kernel) with ⟨-, hbad⟩ | ⟨hbad, -⟩
    · exact absurd hbad (by decide)
    · refine hbad ⟨.finite false 54250 (-4), by decide +kernel, ?_⟩
      exact ⟨⟨.dataError, "invalid byte sequence"⟩, rfl, rfl⟩

end App
