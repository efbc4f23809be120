/-
Where the permanent failures of processing come from. The code is followed with what the source has failed with
so far: the only permanent exception it can raise is one of these, and says that the source knows no rate.
-/
import EventService.Program.Typestate
import EventService.Run.Attempts
import EventService.Run.Processing

namespace App

open Prog

variable {P : Type} {S : Service P} {α : Type}

/-- What the source has failed with so far. -/
def failures : Discipline (@Op.Reply P) (List (PyStr × Exn)) where
  allowed _ _ := True
  next heard c :=
    match c with
    | ⟨.fetch currency, .error e⟩ => heard ++ [(currency, e)]
    | ⟨_, _⟩ => heard

/-- No permanent exception. -/
def Mild (x : Except Exn α) (_ : List (PyStr × Exn)) : Prop := ∀ e, x = .error e → e.isPermanent = false

/-- An exception of the database driver or of Redis. -/
def FromDriver (x : Except Exn α) (_ : List (PyStr × Exn)) : Prop := ∀ e, x = .error e → ∃ f, e = .foreign f

/-- A permanent exception is what the source said, that it knows no rate for the currency. -/
def Refused (currency : PyStr) (x : Except Exn α) (heard : List (PyStr × Exn)) : Prop :=
  ∀ e, x = .error e → e.isPermanent = true →
    ∃ text, e = .event .unknownCurrencyError text ∧ (currency, e) ∈ heard

theorem mild_ok (a : α) (heard : List (PyStr × Exn)) : Mild (.ok a) heard := by
  rintro e ⟨⟩

theorem fromDriver_ok (a : α) (heard : List (PyStr × Exn)) : FromDriver (.ok a) heard := by
  rintro e ⟨⟩

theorem fromDriver_error (f : Foreign) (heard : List (PyStr × Exn)) :
    FromDriver (.error (.foreign f) : Except Exn α) heard := by
  rintro e ⟨⟩
  exact ⟨f, rfl⟩

theorem refused_ok (currency : PyStr) (a : α) (heard : List (PyStr × Exn)) : Refused currency (.ok a) heard := by
  rintro e ⟨⟩

theorem mild_foreign (f : Foreign) (heard : List (PyStr × Exn)) : Mild (.error (.foreign f) : Except Exn α) heard := by
  rintro e ⟨⟩
  rfl

/-- Code that goes on with other code hands an exception on. -/
theorem Mild.refused {β : Type} {e : Exn} {heard : List (PyStr × Exn)} (h : Mild (.error e : Except Exn α) heard)
    (currency : PyStr) : Refused currency (.error e : Except Exn β) heard := by
  rintro e' ⟨⟩ hp
  rw [h e rfl] at hp
  cases hp

theorem Refused.raise {β : Type} {e : Exn} {heard : List (PyStr × Exn)} {currency : PyStr}
    (h : Refused currency (.error e : Except Exn α) heard) : Refused currency (.error e : Except Exn β) heard := by
  rintro e' ⟨⟩
  exact h e rfl

/-- What was heard was answered. -/
theorem mem_of_heard {τ : List (Call (@Op.Reply P))} {heard : List (PyStr × Exn)} {currency : PyStr} {e : Exn}
    (h : (currency, e) ∈ τ.foldl failures.next heard) : (currency, e) ∈ heard ∨ ⟨.fetch currency, .error e⟩ ∈ τ := by
  induction τ generalizing heard with
  | nil => exact Or.inl h
  | cons c τ ih =>
    rcases ih h with hnext | hmem
    · unfold failures at hnext
      dsimp only at hnext
      split at hnext
      · rcases List.mem_append.1 hnext with hmem | hmem
        · exact Or.inl hmem
        · obtain ⟨rfl, rfl⟩ := Prod.mk.inj (List.mem_singleton.1 hmem)
          exact Or.inr (List.mem_cons_self ..)
      · exact Or.inl hnext
    · exact Or.inr (List.mem_cons_of_mem _ hmem)

/-! ## Rates -/

theorem mild_readCache (currency : PyStr) (heard : List (PyStr × Exn)) :
    (readCache S currency).Follows failures Mild heard := by
  unfold readCache
  split
  swap
  · exact mild_ok _ _
  refine ⟨trivial, fun r => ?_⟩
  rcases r with exc | _ | raw
  · change Follows failures Mild (if exc.cls.isRedisError then pure none else raise (.foreign exc)) _
    split
    · exact mild_ok _ _
    · exact mild_foreign _ _
  · exact mild_ok _ _
  · exact mild_ok _ _

theorem mild_writeCache (currency : PyStr) (rate : Decimal) (heard : List (PyStr × Exn)) :
    (writeCache S currency rate).Follows failures Mild heard := by
  unfold writeCache
  split
  swap
  · exact mild_ok _ _
  refine ⟨trivial, fun r => ?_⟩
  rcases r with exc | _
  · change Follows failures Mild (if exc.cls.isRedisError then pure () else raise (.foreign exc)) _
    split
    · exact mild_ok _ _
    · exact mild_foreign _ _
  · exact mild_ok _ _

theorem refused_getRate (currency : PyStr) (heard : List (PyStr × Exn)) :
    (getRate S currency).Follows failures (Refused (PyStr.upper currency)) heard := by
  unfold getRate
  dsimp only
  split
  · exact refused_ok _ _ _
  refine (mild_readCache _ heard).bind ?_ fun e s h => h.refused _
  intro cached s _
  rcases cached with _ | cached
  swap
  · exact refused_ok _ _ _
  refine ⟨trivial, fun r => ?_⟩
  rcases r with (⟨cls, message⟩ | f) | rate
  · cases cls with
    | unknownCurrencyError =>
      rintro e ⟨⟩ -
      exact ⟨message, rfl, List.mem_append_right _ (List.mem_singleton_self _)⟩
    | _ => rintro e ⟨⟩ ⟨⟩
  · rintro e ⟨⟩ ⟨⟩
  · refine (mild_writeCache _ rate _).bind ?_ fun e s h => h.refused _
    intro _ s _
    exact refused_ok _ _ _

/-! ## The database -/

/-- A call of the database, and code that goes on with what it answered. -/
theorem fromDriver_ask_lift {β : Type} {o : Op P} {f : o.Reply → Except Foreign β} {k : β → Code P α}
    {heard : List (PyStr × Exn)} (hk : ∀ b s, (k b).Follows failures FromDriver s) :
    ((Prog.op o fun r => lift (f r)).bind k).Follows failures FromDriver heard := by
  refine ⟨trivial, fun r => ?_⟩
  change Follows failures FromDriver ((lift (f r)).bind k) _
  cases f r with
  | ok b => exact hk b _
  | error e => exact fromDriver_error e _

theorem fromDriver_store_body (values : Values) (heard : List (PyStr × Exn)) :
    (withSession fun session => do
      let inserted ← insertIfAbsent S session values
      (ask (.commit session)) >>= lift
      pure inserted).Follows failures FromDriver heard := by
  refine fromDriver_ask_lift (o := .openSession) (f := fun r => r) fun session s => ?_
  have hinsert : (insertIfAbsent S session values).Follows failures FromDriver s :=
    fromDriver_ask_lift (o := .execute _ _) (f := fun r => r) fun rowcount s => fromDriver_ok _ _
  have hbody : (insertIfAbsent S session values >>= fun inserted =>
      (ask (.commit session) >>= lift) >>= fun _ => pure inserted).Follows failures FromDriver s := by
    refine hinsert.bind (fun inserted s _ => ?_) fun e s h => h
    exact fromDriver_ask_lift (o := .commit _) (f := fun r => r) fun _ s => fromDriver_ok _ _
  refine hbody.attempt_bind fun ended s hended => ?_
  exact fromDriver_ask_lift (o := .close _) (f := fun r => r) fun _ s => follows_ofExcept hended

theorem mild_store (values : Values) (heard : List (PyStr × Exn)) :
    (store S values).Follows failures Mild heard := by
  unfold store
  refine (fromDriver_store_body values heard).attempt_bind ?_
  rintro (e | inserted) s hdriver
  · obtain ⟨f, rfl⟩ := hdriver e rfl
    refine follows_ofExcept fun e he => ?_
    exact storeFailed_error he
  · exact mild_ok _ _

/-- A permanent failure of `process` is the source's. -/
theorem refused_process (event : TransactionEvent) (heard : List (PyStr × Exn)) :
    (process S event).Follows failures (Refused (PyStr.upper event.currency)) heard := by
  unfold process
  refine (refused_getRate event.currency heard).bind ?_ fun e s h => h.raise
  intro rate s _
  refine ⟨trivial, fun _ => ?_⟩
  refine (follows_ofExcept (Q := Mild) (s := s) fun e he => convertToUsd_not_permanent he).bind ?_
    fun e s h => h.refused _
  intro amountUsd s _
  refine ⟨trivial, fun now => ?_⟩
  refine (mild_store _ _).bind ?_ fun e s h => h.refused _
  intro inserted s _
  cases inserted <;> exact refused_ok _ _ _

/-! ## Handlers -/

theorem refused_of_attempts {event : TransactionEvent} {τ : List (Call Op.Reply)} {xs : List (Except Exn Outcome)}
    (h : Attempts (process S event) τ xs) {e : Exn} (hx : .error e ∈ xs) (he : e.isPermanent = true) :
    ∃ text, e = .event .unknownCurrencyError text ∧ ⟨.fetch (PyStr.upper event.currency), .error e⟩ ∈ τ := by
  have hone : ∀ {ρ : List (Call Op.Reply)} {x : Except Exn Outcome}, Runs (process S event) ρ x → x = .error e →
      ∃ text, e = .event .unknownCurrencyError text ∧ ⟨.fetch (PyStr.upper event.currency), .error e⟩ ∈ ρ := by
    intro ρ x hruns heq
    obtain ⟨text, htext, hheard⟩ := (refused_process event []).runs hruns e heq he
    exact ⟨text, htext, (mem_of_heard hheard).resolve_left (by simp)⟩
  induction h with
  | last hruns => exact hone hruns (List.mem_singleton.1 hx).symm
  | again hruns htail ih =>
    rcases List.mem_cons.1 hx with heq | hx
    · obtain ⟨text, htext, hmem⟩ := hone hruns heq.symm
      exact ⟨text, htext, List.mem_append_left _ hmem⟩
    · obtain ⟨text, htext, hmem⟩ := ih hx
      exact ⟨text, htext, List.mem_append_right _ (List.mem_cons_of_mem _ (List.mem_cons_of_mem _ hmem))⟩

/-- A handler dead-letters its message because the payload could not be parsed, or because the source told this
handler that it knows no rate. -/
theorem refused_of_deadLetter {m : QueuedMessage P} {σ : List (Call Op.Reply)} {r : DlqRecord P}
    {k : (Op.deadLetter r).Reply → Code P (Option Nat)} (h : After (handleOne S m) σ (.op (.deadLetter r) k)) :
    r = m.record r.reason ∧ ((∃ e, parse S m = .error e) ∨ ∃ event, parse S m = .ok event ∧
      ⟨.fetch (PyStr.upper event.currency), .error (.event .unknownCurrencyError r.reason)⟩ ∈ σ) := by
  obtain ⟨reply, τ', x, hruns⟩ := h.exists_runs nonempty_reply
  have hmem : (⟨.deadLetter r, reply⟩ : Call Op.Reply) ∈ σ ++ ⟨.deadLetter r, reply⟩ :: τ' :=
    List.mem_append_right _ (List.mem_cons_self ..)
  have hnone : ¬∀ c ∈ σ ++ ⟨.deadLetter r, reply⟩ :: τ', c.op.offStream = true := by
    intro hall
    cases hall _ hmem
  rcases handled_cases hruns with ⟨-, -, -, hall⟩ | ⟨e, τ₁, r', -, hfailed, -, heq, hall⟩ | ⟨-, -, -, hall⟩
  · exact absurd hall hnone
  · -- the record is the last call, and the calls before it are those of the attempts
    obtain ⟨rfl, hlast⟩ : σ = τ₁ ∧ r = m.record e.str := by
      rcases List.append_eq_append_iff.1 heq with ⟨n, rfl, hn⟩ | ⟨n, rfl, hn⟩
      · cases n with
        | nil => exact ⟨(List.append_nil σ).symm, Op.deadLetter.inj (Call.mk.inj (List.cons.inj hn).1).1⟩
        | cons c n =>
          rw [← (List.cons.inj hn).1] at hall
          cases hall _ (List.mem_append_right _ (List.mem_cons_self ..))
      · cases n with
        | nil => exact ⟨List.append_nil τ₁, (Op.deadLetter.inj (Call.mk.inj (List.cons.inj hn).1).1).symm⟩
        | cons c n => simp at hn
    obtain ⟨hperm, hcause⟩ := (hfailed e).2 rfl
    have hreason : r.reason = e.str := by rw [hlast]; rfl
    refine ⟨by rw [hreason]; exact hlast, ?_⟩
    rcases hcause with hparse | ⟨xs, ⟨event, hparse, hattempts, -⟩, hx⟩
    · exact Or.inl ⟨e, hparse⟩
    · obtain ⟨text, rfl, hfetch⟩ := refused_of_attempts hattempts hx hperm
      refine Or.inr ⟨event, hparse, ?_⟩
      have hcall := (List.mem_filter.1 hfetch).1
      rw [heq] at hcall
      rw [hreason]
      refine (List.mem_append.1 hcall).resolve_right fun hlast => ?_
      cases List.mem_singleton.1 hlast
  · exact absurd hall hnone

end App
