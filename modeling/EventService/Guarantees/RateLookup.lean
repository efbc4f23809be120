/-
What the rate cache can do to a lookup. A cache that is down, that has no rate, or whose rate cannot
be read is no more than a miss: the source is asked, and its failure is passed on as the taxonomy
says with the cache as it was. What can be read is handed on as it is, so the lookup keeps its
promise exactly if everything the cache answers with that reads as a decimal is finite and positive.
-/
import EventService.Run.Calls
import EventService.Model.Rates
import EventService.Model.System

namespace App

open Prog

variable {P : Type} (S : Service P)

/-! ## Promises -/

/-- The text reads as a finite positive decimal. -/
def usable (raw : PyStr) : Bool :=
  match Decimal.parse raw with
  | some rate => rate.isFinite && !rate.nonPositive
  | none => false

/-- What the lookup raises for an exception of the source. -/
def sourceFailure (currency : PyStr) : Exn → Exn
  | .event .unknownCurrencyError message => .event .unknownCurrencyError message
  | .event .rateUnavailableError message => .event .rateUnavailableError message
  | _ => .event .rateUnavailableError ("rate lookup failed for " ++ String.ofList currency)

/-- The cache fails only with a `RedisError`, and the source answers only finite positive rates. -/
structure Dependable (τ : List (Call (Op.Reply (P := P)))) : Prop where
  get : ∀ key e, ⟨.get key, .error e⟩ ∈ τ → e.cls.isRedisError = true
  set : ∀ key value e, ⟨.set key value, .error e⟩ ∈ τ → e.cls.isRedisError = true
  fetch : ∀ currency rate, ⟨.fetch currency, .ok rate⟩ ∈ τ → rate.isFinite = true ∧ rate.nonPositive = false

/-- What a lookup promises: a rate the conversion can use, or the source's own failure with the
cache untouched; and the source is asked where the cache has nothing usable. -/
structure LookupKept (currency : PyStr) (τ : List (Call (Op.Reply (P := P)))) (x : Except Exn Decimal)
    (w w' : World P) : Prop where
  usable : ∀ rate, x = .ok rate → rate.isFinite = true ∧ rate.nonPositive = false
  mapped : ∀ exc, x = .error exc → ∃ failure, ⟨.fetch currency, .error failure⟩ ∈ τ ∧
    exc = sourceFailure currency failure
  asked : ∀ raw, ⟨.get (cacheKey currency), .ok (some raw)⟩ ∈ τ → App.usable raw = false →
    ∃ reply, ⟨.fetch currency, reply⟩ ∈ τ
  untouched : ∀ exc, x = .error exc → w'.cache = w.cache

/-! ## What a lookup does -/

/-- The calls of a read that came to nothing. -/
def CacheMissed (currency : PyStr) (τ : List (Call (Op.Reply (P := P)))) : Prop :=
  ∀ call ∈ τ, ∃ r, call = ⟨.get (cacheKey currency), r⟩ ∧
    ∀ raw, r = .ok (some raw) → Decimal.parse raw = none

variable {S}

theorem readCache_runs {currency : PyStr} {τ : List (Call Op.Reply)} {x : Except Exn (Option Decimal)}
    (h : Runs (readCache S currency) τ x) :
    (x = .ok none ∧ CacheMissed currency τ) ∨
      (∃ raw rate, τ = [⟨.get (cacheKey currency), .ok (some raw)⟩] ∧ Decimal.parse raw = some rate ∧
        x = .ok (some rate)) ∨
      ∃ e, τ = [⟨.get (cacheKey currency), .error e⟩] ∧ e.cls.isRedisError = false := by
  unfold readCache ask at h
  split at h
  swap
  · obtain ⟨rfl, rfl⟩ := runs_ret_iff.1 h
    exact Or.inl ⟨rfl, by rintro call ⟨⟩⟩
  rw [bind_eq, perform_bind, runs_op_iff] at h
  obtain ⟨r, τ', rfl, hrest⟩ := h
  rcases r with e | _ | raw
  · dsimp only at hrest
    split at hrest
    · obtain ⟨rfl, rfl⟩ := runs_ret_iff.1 hrest
      refine Or.inl ⟨rfl, fun call hcall => ⟨_, List.mem_singleton.1 hcall, ?_⟩⟩
      rintro raw ⟨⟩
    · rename_i hclass
      obtain ⟨rfl, rfl⟩ := runs_raise_iff.1 hrest
      exact Or.inr (Or.inr ⟨e, rfl, by simpa using hclass⟩)
  · obtain ⟨rfl, rfl⟩ := runs_ret_iff.1 hrest
    refine Or.inl ⟨rfl, fun call hcall => ⟨_, List.mem_singleton.1 hcall, ?_⟩⟩
    rintro raw ⟨⟩
  · obtain ⟨rfl, rfl⟩ := runs_ret_iff.1 hrest
    cases hparse : Decimal.parse raw with
    | none =>
      refine Or.inl ⟨rfl, fun call hcall => ⟨_, List.mem_singleton.1 hcall, ?_⟩⟩
      rintro raw' ⟨⟩
      exact hparse
    | some rate => exact Or.inr (Or.inl ⟨raw, rate, rfl, hparse, rfl⟩)

theorem writeCache_runs {currency : PyStr} {rate : Decimal} {τ : List (Call Op.Reply)} {x : Except Exn Unit}
    (h : Runs (writeCache S currency rate) τ x) :
    (x = .ok () ∧ ∀ call ∈ τ, ∃ r, call = ⟨.set (cacheKey currency) rate.str, r⟩) ∨
      ∃ e, τ = [⟨.set (cacheKey currency) rate.str, .error e⟩] ∧ e.cls.isRedisError = false := by
  unfold writeCache ask at h
  split at h
  swap
  · obtain ⟨rfl, rfl⟩ := runs_ret_iff.1 h
    exact Or.inl ⟨rfl, by rintro call ⟨⟩⟩
  rw [bind_eq, perform_bind, runs_op_iff] at h
  obtain ⟨r, τ', rfl, hrest⟩ := h
  rcases r with e | _
  · dsimp only at hrest
    split at hrest
    · obtain ⟨rfl, rfl⟩ := runs_ret_iff.1 hrest
      exact Or.inl ⟨rfl, fun call hcall => ⟨_, List.mem_singleton.1 hcall⟩⟩
    · rename_i hclass
      obtain ⟨rfl, rfl⟩ := runs_raise_iff.1 hrest
      exact Or.inr ⟨e, rfl, by simpa using hclass⟩
  · obtain ⟨rfl, rfl⟩ := runs_ret_iff.1 hrest
    exact Or.inl ⟨rfl, fun call hcall => ⟨_, List.mem_singleton.1 hcall⟩⟩

/-- A lookup answers for the base currency, or with what the cache holds, or asks the source behind a
read that came to nothing and writes a rate back. -/
theorem getRate_runs {currency : PyStr} {τ : List (Call Op.Reply)} {x : Except Exn Decimal}
    (h : Runs (getRate S currency) τ x) (hdep : Dependable τ) :
    (τ = [] ∧ x = .ok (.finite false 1 0)) ∨
      (∃ raw rate, τ = [⟨.get (cacheKey (PyStr.upper currency)), .ok (some raw)⟩] ∧
        Decimal.parse raw = some rate ∧ x = .ok rate) ∨
      ∃ τ₁, CacheMissed (PyStr.upper currency) τ₁ ∧
        ((∃ failure, τ = τ₁ ++ [⟨.fetch (PyStr.upper currency), .error failure⟩] ∧
            x = .error (sourceFailure (PyStr.upper currency) failure)) ∨
          ∃ rate τ₂, τ = τ₁ ++ ⟨.fetch (PyStr.upper currency), .ok rate⟩ :: τ₂ ∧ x = .ok rate ∧
            ∀ call ∈ τ₂, ∃ r, call = ⟨.set (cacheKey (PyStr.upper currency)) rate.str, r⟩) := by
  unfold getRate at h
  dsimp only at h
  split at h
  · exact Or.inl (runs_ret_iff.1 h)
  rw [bind_eq] at h
  rcases runs_bind_iff.1 h with ⟨e, hread, rfl⟩ | ⟨cached, τ₁, τ₂, rfl, hread, hrest⟩
  · rcases readCache_runs hread with ⟨hx, -⟩ | ⟨raw, rate, -, -, hx⟩ | ⟨e', rfl, hclass⟩
    · cases hx
    · cases hx
    · cases hclass.symm.trans (hdep.get _ e' (List.mem_singleton_self _))
  rcases readCache_runs hread with ⟨hx, hmissed⟩ | ⟨raw, rate, rfl, hparse, hx⟩ | ⟨e', rfl, hclass⟩
  · obtain rfl := Except.ok.inj hx
    refine Or.inr (Or.inr ⟨τ₁, hmissed, ?_⟩)
    unfold ask at hrest
    simp only [bind_eq, perform_bind] at hrest
    obtain ⟨reply, τ₃, rfl, hreply⟩ := runs_op_iff.1 hrest
    rcases reply with exc | rate
    · refine Or.inl ⟨exc, ?_⟩
      rcases exc with ⟨cls, message⟩ | f
      · cases cls <;> obtain ⟨rfl, rfl⟩ := runs_raise_iff.1 hreply <;> exact ⟨rfl, rfl⟩
      · obtain ⟨rfl, rfl⟩ := runs_raise_iff.1 hreply
        exact ⟨rfl, rfl⟩
    · rcases runs_bind_iff.1 hreply with ⟨e, hwrite, rfl⟩ | ⟨u, τ₄, τ₅, rfl, hwrite, hret⟩
      · rcases writeCache_runs hwrite with ⟨hx, -⟩ | ⟨e', rfl, hclass⟩
        · cases hx
        · cases hclass.symm.trans (hdep.set (cacheKey (PyStr.upper currency)) rate.str e' (by simp))
      · obtain ⟨rfl, rfl⟩ := runs_ret_iff.1 hret
        rcases writeCache_runs hwrite with ⟨-, hcalls⟩ | ⟨e', rfl, hclass⟩
        · exact Or.inr ⟨rate, τ₄, by rw [List.append_nil], rfl, hcalls⟩
        · cases hclass.symm.trans (hdep.set (cacheKey (PyStr.upper currency)) rate.str e' (by simp))
  · obtain rfl := Except.ok.inj hx
    obtain ⟨rfl, rfl⟩ := runs_ret_iff.1 hrest
    exact Or.inr (Or.inl ⟨raw, rate, rfl, hparse, rfl⟩)
  · cases hclass.symm.trans (hdep.get (cacheKey (PyStr.upper currency)) e' (by simp))

/-! ## The promise -/

/-- A read and a question to the source leave the cache alone. -/
theorem cache_of_cacheMissed {currency : PyStr} {τ : List (Call Op.Reply)} {failure : Exn} {w w' : World P}
    (hmissed : CacheMissed currency τ)
    (h : Served (World.exec S) w (τ ++ [⟨.fetch currency, .error failure⟩]) w') : w'.cache = w.cache := by
  refine h.keeps (f := World.cache) fun call hcall c v v' hexec => ?_
  rcases List.mem_append.1 hcall with hget | hfetch
  · obtain ⟨r, rfl, -⟩ := hmissed call hget
    rw [exec_get hexec]
  · obtain rfl := List.mem_singleton.1 hfetch
    exact cache_of_exec_fetch hexec

/-- A read that came to nothing found no text that reads as a decimal. -/
theorem parse_of_cacheMissed {currency : PyStr} {τ τ' : List (Call (Op.Reply (P := P)))} {raw : PyStr}
    (hmissed : CacheMissed currency τ) (hother : ∀ call ∈ τ', ∀ key r, call ≠ ⟨.get key, r⟩)
    (hmem : ⟨.get (cacheKey currency), .ok (some raw)⟩ ∈ τ ++ τ') : Decimal.parse raw = none := by
  rcases List.mem_append.1 hmem with hget | hrest
  · obtain ⟨r, heq, hnone⟩ := hmissed _ hget
    obtain ⟨-, hr⟩ := Call.mk.inj heq
    exact hnone raw (eq_of_heq hr).symm
  · exact absurd rfl (hother _ hrest _ _)

section Promise

variable {currency : PyStr} {τ τ₁ τ₂ : List (Call (Op.Reply (P := P)))} {w w' : World P} {rate : Decimal}

/-- The base currency needs no lookup. -/
theorem kept_base : LookupKept currency ([] : List (Call (Op.Reply (P := P)))) (.ok (.finite false 1 0)) w w' := by
  constructor
  · rintro rate ⟨⟩
    exact ⟨rfl, rfl⟩
  · rintro exc ⟨⟩
  · rintro raw ⟨⟩
  · rintro exc ⟨⟩

/-- What the cache holds is handed on, so it must be usable. -/
theorem kept_cached_iff {raw : PyStr} (hparse : Decimal.parse raw = some rate) :
    LookupKept currency [⟨.get (cacheKey currency), .ok (some raw)⟩] (.ok rate) w w' ↔ usable raw = true := by
  have husable : usable raw = (rate.isFinite && !rate.nonPositive) := by
    unfold usable
    rw [hparse]
  constructor
  · intro hkept
    obtain ⟨hfinite, hpos⟩ := hkept.usable rate rfl
    rw [husable, hfinite, hpos]
    rfl
  · intro hraw
    constructor
    · rintro rate' ⟨⟩
      simpa [husable] using hraw
    · rintro exc ⟨⟩
    · intro raw' hmem hbad
      obtain ⟨-, heq⟩ := Call.mk.inj (List.mem_singleton.1 hmem)
      obtain rfl := Option.some.inj (Except.ok.inj (eq_of_heq heq))
      cases hraw.symm.trans hbad
    · rintro exc ⟨⟩

/-- A failure of the source is passed on, and the cache is as it was. -/
theorem kept_failed {failure : Exn} (hmissed : CacheMissed currency τ₁)
    (hserved : Served (World.exec S) w (τ₁ ++ [⟨.fetch currency, .error failure⟩]) w') :
    LookupKept currency (τ₁ ++ [⟨.fetch currency, .error failure⟩]) (.error (sourceFailure currency failure)) w w' := by
  constructor
  · rintro rate ⟨⟩
  · rintro exc ⟨⟩
    exact ⟨failure, by simp, rfl⟩
  · intro raw hmem hbad
    exact ⟨.error failure, by simp⟩
  · intro exc hexc
    exact cache_of_cacheMissed hmissed hserved

/-- A rate of the source is handed on. -/
theorem kept_fetched (hdep : Dependable (τ₁ ++ ⟨.fetch currency, .ok rate⟩ :: τ₂)) :
    LookupKept currency (τ₁ ++ ⟨.fetch currency, .ok rate⟩ :: τ₂) (.ok rate) w w' := by
  constructor
  · rintro rate' ⟨⟩
    exact hdep.fetch currency rate (by simp)
  · rintro exc ⟨⟩
  · intro raw hmem hbad
    exact ⟨.ok rate, by simp⟩
  · rintro exc ⟨⟩

end Promise

/-- Whatever the cache and the source answer: a lookup keeps its promise if and only if the text the
cache answers with, if it reads as a decimal at all, is a finite positive one. -/
theorem getRate_kept_iff {currency : PyStr} {τ : List (Call Op.Reply)} {x : Except Exn Decimal}
    {w w' : World P} (hruns : Runs (getRate S currency) τ x) (hserved : Served (World.exec S) w τ w')
    (hdep : Dependable τ) :
    LookupKept (PyStr.upper currency) τ x w w' ↔
      ∀ raw, ⟨.get (cacheKey (PyStr.upper currency)), .ok (some raw)⟩ ∈ τ →
        Decimal.parse raw = none ∨ usable raw = true := by
  rcases getRate_runs hruns hdep with ⟨rfl, rfl⟩ | ⟨raw, rate, rfl, hparse, rfl⟩ | ⟨τ₁, hmissed, hsource⟩
  · refine iff_of_true kept_base ?_
    rintro raw ⟨⟩
  · rw [kept_cached_iff hparse]
    constructor
    · intro hraw raw' hmem
      obtain ⟨-, heq⟩ := Call.mk.inj (List.mem_singleton.1 hmem)
      obtain rfl := Option.some.inj (Except.ok.inj (eq_of_heq heq))
      exact Or.inr hraw
    · intro hgood
      rcases hgood raw (List.mem_singleton_self _) with hnone | hraw
      · cases hparse.symm.trans hnone
      · exact hraw
  · -- the source is asked, behind a read that found nothing that reads as a decimal
    rcases hsource with ⟨failure, rfl, rfl⟩ | ⟨rate, τ₂, rfl, rfl, hwrites⟩
    · refine iff_of_true (kept_failed hmissed hserved) fun raw hmem => ?_
      refine Or.inl (parse_of_cacheMissed hmissed ?_ hmem)
      rintro call hcall key r rfl
      cases List.mem_singleton.1 hcall
    · refine iff_of_true (kept_fetched hdep) fun raw hmem => ?_
      refine Or.inl (parse_of_cacheMissed hmissed ?_ hmem)
      rintro call hcall key r rfl
      rcases List.mem_cons.1 hcall with hfetch | hset
      · cases hfetch
      · obtain ⟨r', heq⟩ := hwrites _ hset
        cases heq

/-! ## Two caches -/

/-- A cache that holds this text for the euro. -/
def euroCached (raw : String) : World EventIn :=
  { World.initial EventIn with cache := [(cacheKey "EUR".toList, raw.toList)] }

/-- The one call of a lookup of the euro that the cache answers. -/
def euroRead (raw : String) : List (Call (Op.Reply (P := EventIn))) :=
  [⟨.get (cacheKey "EUR".toList), .ok (some raw.toList)⟩]

theorem euroRead_dependable (raw : String) : Dependable (euroRead raw) := by
  refine ⟨?_, ?_, ?_⟩
  · rintro key e hmem
    cases List.mem_singleton.1 hmem
  · rintro key value e hmem
    cases List.mem_singleton.1 hmem
  · rintro currency rate hmem
    cases List.mem_singleton.1 hmem

theorem upper_euro : PyStr.upper "EUR".toList = "EUR".toList := by decide +kernel

theorem euroRead_runs (raw : String) (rate : Decimal) (h : Decimal.parse raw.toList = some rate) :
    Runs (getRate (documentService {}) "EUR".toList) (euroRead raw) (.ok rate) ∧
      Served (World.exec (documentService {})) (euroCached raw) (euroRead raw) (euroCached raw) := by
  refine ⟨?_, .cons (c := {}) rfl (.nil _)⟩
  unfold getRate readCache
  dsimp only
  rw [upper_euro, if_neg (by decide)]
  refine Runs.op ?_
  simp only [pure_eq, ret_bind, h]
  exact .ret rate

/-- A positive rate in the cache is used. -/
theorem cached_rate_is_used :
    LookupKept "EUR".toList (euroRead "1.085") (.ok (.finite false 1085 (-3))) (euroCached "1.085")
      (euroCached "1.085") := by
  obtain ⟨hruns, hserved⟩ := euroRead_runs "1.085" (.finite false 1085 (-3)) (by decide +kernel)
  have hkept := getRate_kept_iff hruns hserved (euroRead_dependable _)
  rw [upper_euro] at hkept
  refine hkept.2 fun raw hmem => Or.inr ?_
  obtain ⟨-, heq⟩ := Call.mk.inj (List.mem_singleton.1 hmem)
  rw [Option.some.inj (Except.ok.inj (eq_of_heq heq))]
  decide +kernel

/-- A cached zero is handed on as the rate. -/
theorem cached_zero_is_handed_on :
    Runs (getRate (documentService {}) "EUR".toList) (euroRead "0") (.ok (.finite false 0 0)) ∧
      Served (World.exec (documentService {})) (euroCached "0") (euroRead "0") (euroCached "0") ∧
      Dependable (euroRead "0") ∧
      ¬LookupKept "EUR".toList (euroRead "0") (.ok (.finite false 0 0)) (euroCached "0") (euroCached "0") := by
  obtain ⟨hruns, hserved⟩ := euroRead_runs "0" (.finite false 0 0) (by decide +kernel)
  refine ⟨hruns, hserved, euroRead_dependable _, fun hkept => ?_⟩
  cases (hkept.usable _ rfl).2

end App
