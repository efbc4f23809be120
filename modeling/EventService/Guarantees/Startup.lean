/-
How the processes start and end. A worker runs its loops only behind an attempt in which Redis and the database
both answered, gives up after thirty attempts that failed, and closes its connections however the loops end. The
session of each check is closed before anything else is called.
-/
import EventService.Program.Trace
import EventService.Model.Startup

namespace App

open Prog

variable {τ : List (Call ProcessOp.Reply)}

/-! ## One attempt -/

theorem runs_await_iff {o : ProcessOp} {x : Except Exn o.Result} : Runs (await o) τ x ↔ τ = [⟨o, x⟩] := by
  unfold await
  rw [perform_bind, runs_op_iff]
  constructor
  · rintro ⟨r, τ', rfl, h⟩
    obtain ⟨rfl, rfl⟩ := runs_ofExcept_iff.1 h
    rfl
  · rintro rfl
    exact ⟨x, [], rfl, runs_ofExcept_iff.2 ⟨rfl, rfl⟩⟩

/-- A call whose exception ends the code that it stands in front of. -/
theorem runs_await_bind_iff {β : Type} {o : ProcessOp} {f : o.Result → ProcessCode β} {x : Except Exn β} :
    Runs ((await o).bind f) τ x ↔ (∃ e, τ = [⟨o, .error e⟩] ∧ x = .error e) ∨
      ∃ a τ', τ = ⟨o, .ok a⟩ :: τ' ∧ Runs (f a) τ' x := by
  rw [runs_bind_iff]
  simp only [runs_await_iff]
  constructor
  · rintro (⟨e, rfl, rfl⟩ | ⟨a, τ₁, τ₂, rfl, rfl, h⟩)
    · exact Or.inl ⟨e, rfl, rfl⟩
    · exact Or.inr ⟨a, τ₂, rfl, h⟩
  · rintro (⟨e, rfl, rfl⟩ | ⟨a, τ', rfl, h⟩)
    · exact Or.inl ⟨e, rfl, rfl⟩
    · exact Or.inr ⟨a, _, τ', rfl, rfl, h⟩

/-- The outcome of a body when something is closed behind it. -/
def closedWith {α β : Type} (ended : Except Exn α) : Except Exn β → Except Exn α
  | .ok _ => ended
  | .error e => .error e

/-- The last call of a `finally`. -/
theorem runs_close_iff {α : Type} {o : ProcessOp} {ended x : Except Exn α} :
    Runs ((await o).bind fun _ => ofExcept ended) τ x ↔
      ∃ r, τ = [⟨o, r⟩] ∧ x = closedWith ended r := by
  rw [runs_await_bind_iff]
  constructor
  · rintro (⟨e, rfl, rfl⟩ | ⟨a, τ', rfl, h⟩)
    · exact ⟨.error e, rfl, rfl⟩
    · obtain ⟨rfl, rfl⟩ := runs_ofExcept_iff.1 h
      exact ⟨.ok a, rfl, rfl⟩
  · rintro ⟨e | a, rfl, rfl⟩
    · exact Or.inl ⟨e, rfl, rfl⟩
    · exact Or.inr ⟨a, [], rfl, runs_ofExcept_iff.2 ⟨rfl, rfl⟩⟩

/-- `SELECT 1` in a session of its own. -/
inductive SelectCalls : List (Call ProcessOp.Reply) → Except Exn Unit → Prop
  | refused (e : Exn) : SelectCalls [⟨.openSession, .error e⟩] (.error e)
  | answered (session : Nat) (answer closed : Except Exn Unit) :
    SelectCalls [⟨.openSession, .ok session⟩, ⟨.selectOne session, answer⟩, ⟨.close session, closed⟩]
      (closedWith answer closed)

theorem runs_selectOne_iff {x : Except Exn Unit} : Runs selectOne τ x ↔ SelectCalls τ x := by
  unfold selectOne sessionScope
  simp only [bind_eq]
  rw [runs_await_bind_iff]
  constructor
  · rintro (⟨e, rfl, rfl⟩ | ⟨session, τ', rfl, h⟩)
    · exact .refused e
    · obtain ⟨answer, τ₁, τ₂, rfl, hbody, hclose⟩ := runs_attempt_bind_iff.1 h
      obtain rfl := runs_await_iff.1 hbody
      obtain ⟨closed, rfl, rfl⟩ := runs_close_iff.1 hclose
      exact .answered session answer closed
  · intro h
    cases h with
    | refused e => exact Or.inl ⟨e, rfl, rfl⟩
    | answered session answer closed =>
      refine Or.inr ⟨session, _, rfl, runs_attempt_bind_iff.2 ⟨answer, [_], _, rfl, runs_await_iff.2 rfl, ?_⟩⟩
      exact runs_close_iff.2 ⟨closed, rfl, rfl⟩

/-- Redis is asked first, and the database only if Redis answered. -/
inductive CheckCalls : List (Call ProcessOp.Reply) → Except Exn Unit → Prop
  | refused (e : Exn) : CheckCalls [⟨.ping, .error e⟩] (.error e)
  | answered {σ : List (Call ProcessOp.Reply)} {x : Except Exn Unit} (h : SelectCalls σ x) :
    CheckCalls (⟨.ping, .ok ()⟩ :: σ) x

theorem runs_checkDependencies_iff {x : Except Exn Unit} : Runs checkDependencies τ x ↔ CheckCalls τ x := by
  unfold checkDependencies
  simp only [bind_eq]
  rw [runs_await_bind_iff]
  simp only [runs_selectOne_iff]
  constructor
  · rintro (⟨e, rfl, rfl⟩ | ⟨u, τ', rfl, h⟩)
    · exact .refused e
    · exact .answered h
  · intro h
    cases h with
    | refused e => exact Or.inl ⟨e, rfl, rfl⟩
    | answered h => exact Or.inr ⟨(), _, rfl, h⟩

/-! ## Waiting -/

/-- So many attempts failed, one behind the other, each with the pause that follows it. -/
inductive FailedAttempts : Nat → List (Call ProcessOp.Reply) → Prop
  | none : FailedAttempts 0 []
  | more {n : Nat} {σ rest : List (Call ProcessOp.Reply)} {e : Exn} (h : CheckCalls σ (.error e))
    (pause : Except Exn Unit) (hrest : FailedAttempts n rest) :
    FailedAttempts (n + 1) (σ ++ ⟨.sleep startupRetryDelay, pause⟩ :: rest)

/-- The attempts end with the first that succeeds, or there is none among them. -/
theorem runs_waitFrom_iff {n : Nat} {x : Except Exn Unit} : Runs (waitFrom n) τ x ↔
    (FailedAttempts n τ ∧ x = .error notReady) ∨
      ∃ k < n, ∃ failed check, FailedAttempts k failed ∧ CheckCalls check (.ok ()) ∧ τ = failed ++ check ∧ x = .ok () := by
  induction n generalizing τ with
  | zero =>
    unfold waitFrom
    rw [runs_raise_iff]
    constructor
    · rintro ⟨rfl, rfl⟩
      exact Or.inl ⟨.none, rfl⟩
    · rintro (⟨h, rfl⟩ | ⟨k, hk, -⟩)
      · cases h
        exact ⟨rfl, rfl⟩
      · omega
  | succ n ih =>
    unfold waitFrom
    simp only [bind_eq]
    rw [runs_attempt_bind_iff]
    simp only [runs_checkDependencies_iff]
    constructor
    · rintro ⟨y, τ₁, τ₂, rfl, hcheck, hrest⟩
      rcases y with e | u
      · obtain ⟨r, τ₃, rfl, hwait⟩ := runs_op_iff.1 hrest
        rcases ih.1 hwait with ⟨hfailed, rfl⟩ | ⟨k, hk, failed, check, hfailed, hok, rfl, rfl⟩
        · exact Or.inl ⟨.more hcheck r hfailed, rfl⟩
        · exact Or.inr ⟨k + 1, by omega, _, check, .more hcheck r hfailed, hok, by simp, rfl⟩
      · obtain ⟨rfl, rfl⟩ := runs_ret_iff.1 hrest
        exact Or.inr ⟨0, by omega, [], τ₁, .none, hcheck, by simp, rfl⟩
    · rintro (⟨h, rfl⟩ | ⟨k, hk, failed, check, hfailed, hok, rfl, rfl⟩)
      · cases h with
        | more hcheck r hrest => exact ⟨_, _, _, rfl, hcheck, .op (ih.2 (Or.inl ⟨hrest, rfl⟩))⟩
      · cases hfailed with
        | none => exact ⟨.ok (), check, [], by simp, hok, .ret ()⟩
        | @more k σ rest e hcheck r hrest =>
          refine ⟨.error e, σ, ⟨.sleep startupRetryDelay, r⟩ :: (rest ++ check), by simp, hcheck, .op ?_⟩
          exact ih.2 (Or.inr ⟨k, by omega, rest, check, hrest, hok, rfl, rfl⟩)

/-! ## A worker -/

/-- What a worker does once it found Redis and the database ready: the tables, the metrics, the loops, and behind
these the connections, of which the second is not closed if the first cannot be. -/
inductive ReadyCalls : List (Call ProcessOp.Reply) → Except Exn Unit → Prop
  | noTables (e : Exn) : ReadyCalls [⟨.createTables, .error e⟩] (.error e)
  | noMetrics (e : Exn) : ReadyCalls [⟨.createTables, .ok ()⟩, ⟨.startHttpServer, .error e⟩] (.error e)
  | redisLeft (ended : Except Exn Unit) (e : Exn) : ReadyCalls [⟨.createTables, .ok ()⟩, ⟨.startHttpServer, .ok ()⟩,
      ⟨.runConsumer, ended⟩, ⟨.closeRedis, .error e⟩] (.error e)
  | closed (ended disposed : Except Exn Unit) : ReadyCalls [⟨.createTables, .ok ()⟩, ⟨.startHttpServer, .ok ()⟩,
      ⟨.runConsumer, ended⟩, ⟨.closeRedis, .ok ()⟩, ⟨.disposeEngine, disposed⟩] (closedWith ended disposed)

theorem runs_closingConnections_iff {x : Except Exn Unit} : Runs (closingConnections (await .runConsumer)) τ x ↔
    ∃ ended, (∃ e, τ = [⟨.runConsumer, ended⟩, ⟨.closeRedis, .error e⟩] ∧ x = .error e) ∨
      ∃ disposed, τ = [⟨.runConsumer, ended⟩, ⟨.closeRedis, .ok ()⟩, ⟨.disposeEngine, disposed⟩] ∧
        x = closedWith ended disposed := by
  unfold closingConnections
  simp only [bind_eq]
  rw [runs_attempt_bind_iff]
  constructor
  · rintro ⟨ended, τ₁, τ₂, rfl, hrun, hclose⟩
    obtain rfl := runs_await_iff.1 hrun
    rcases runs_await_bind_iff.1 hclose with ⟨e, rfl, rfl⟩ | ⟨u, τ', rfl, hdispose⟩
    · exact ⟨ended, Or.inl ⟨e, rfl, rfl⟩⟩
    · obtain ⟨disposed, rfl, rfl⟩ := runs_close_iff.1 hdispose
      exact ⟨ended, Or.inr ⟨disposed, rfl, rfl⟩⟩
  · rintro ⟨ended, hends⟩
    rcases hends with ⟨e, rfl, rfl⟩ | ⟨disposed, rfl, rfl⟩
    · exact ⟨ended, [_], _, rfl, runs_await_iff.2 rfl, runs_await_bind_iff.2 (Or.inl ⟨e, rfl, rfl⟩)⟩
    · refine ⟨ended, [_], _, rfl, runs_await_iff.2 rfl, runs_await_bind_iff.2 (Or.inr ⟨(), _, rfl, ?_⟩)⟩
      exact runs_close_iff.2 ⟨disposed, rfl, rfl⟩

theorem runs_ready_iff {x : Except Exn Unit} :
    Runs ((await .createTables).bind fun _ => (await .startHttpServer).bind fun _ =>
      closingConnections (await .runConsumer)) τ x ↔ ReadyCalls τ x := by
  constructor
  · intro h
    rcases runs_await_bind_iff.1 h with ⟨e, rfl, rfl⟩ | ⟨u, τ₁, rfl, hserver⟩
    · exact .noTables e
    rcases runs_await_bind_iff.1 hserver with ⟨e, rfl, rfl⟩ | ⟨u, τ₂, rfl, hrun⟩
    · exact .noMetrics e
    obtain ⟨ended, ⟨e, rfl, rfl⟩ | ⟨disposed, rfl, rfl⟩⟩ := runs_closingConnections_iff.1 hrun
    · exact .redisLeft ended e
    · exact .closed ended disposed
  · intro h
    cases h with
    | noTables e => exact runs_await_bind_iff.2 (Or.inl ⟨e, rfl, rfl⟩)
    | noMetrics e =>
      exact runs_await_bind_iff.2 (Or.inr ⟨(), _, rfl, runs_await_bind_iff.2 (Or.inl ⟨e, rfl, rfl⟩)⟩)
    | redisLeft ended e =>
      refine runs_await_bind_iff.2 (Or.inr ⟨(), _, rfl, runs_await_bind_iff.2 (Or.inr ⟨(), _, rfl, ?_⟩)⟩)
      exact runs_closingConnections_iff.2 ⟨ended, Or.inl ⟨e, rfl, rfl⟩⟩
    | closed ended disposed =>
      refine runs_await_bind_iff.2 (Or.inr ⟨(), _, rfl, runs_await_bind_iff.2 (Or.inr ⟨(), _, rfl, ?_⟩)⟩)
      exact runs_closingConnections_iff.2 ⟨ended, Or.inr ⟨disposed, rfl, rfl⟩⟩

/-- What a worker does from its start to its end, whatever is answered: thirty attempts that fail and no more, or
fewer, then one that succeeds, and only behind that the rest. -/
theorem worker_boots_in_order {x : Except Exn Unit} : Runs workerMain τ x ↔
    (FailedAttempts startupMaxAttempts τ ∧ x = .error notReady) ∨
      ∃ k < startupMaxAttempts, ∃ failed check ready, FailedAttempts k failed ∧ CheckCalls check (.ok ()) ∧
        ReadyCalls ready x ∧ τ = failed ++ check ++ ready := by
  unfold workerMain waitForDependencies
  simp only [bind_eq]
  rw [runs_bind_iff]
  constructor
  · rintro (⟨e, hwait, rfl⟩ | ⟨u, τ₁, τ₂, rfl, hwait, hrest⟩)
    · rcases runs_waitFrom_iff.1 hwait with ⟨hfailed, he⟩ | ⟨_, _, _, _, _, _, _, he⟩
      · exact Or.inl ⟨hfailed, by rw [Except.error.inj he]⟩
      · cases he
    · rcases runs_waitFrom_iff.1 hwait with ⟨-, he⟩ | ⟨k, hk, failed, check, hfailed, hok, rfl, -⟩
      · cases he
      · exact Or.inr ⟨k, hk, failed, check, τ₂, hfailed, hok, runs_ready_iff.1 hrest, rfl⟩
  · rintro (⟨hfailed, rfl⟩ | ⟨k, hk, failed, check, ready, hfailed, hok, hready, rfl⟩)
    · exact Or.inl ⟨notReady, runs_waitFrom_iff.2 (Or.inl ⟨hfailed, rfl⟩), rfl⟩
    · refine Or.inr ⟨(), failed ++ check, ready, rfl, ?_, runs_ready_iff.2 hready⟩
      exact runs_waitFrom_iff.2 (Or.inr ⟨k, hk, failed, check, hfailed, hok, rfl, rfl⟩)

/-! ## The readiness probe -/

/-- The probe asks both, whatever the first answers, and tells which of them did not answer. -/
theorem health_reports {x : Except Exn HealthResponse} : Runs health τ x ↔
    ∃ σ database redis, SelectCalls σ database ∧ τ = σ ++ [⟨.ping, redis⟩] ∧ x = .ok
      { statusCode := if database.isOk && redis.isOk then 200 else 503
        status := if database.isOk && redis.isOk then "ok" else "degraded"
        database := if database.isOk then "ok" else "unavailable"
        redis := if redis.isOk then "ok" else "unavailable" } := by
  unfold health
  simp only [bind_eq]
  rw [runs_attempt_bind_iff]
  constructor
  · rintro ⟨database, σ, τ₂, rfl, hselect, hrest⟩
    obtain ⟨redis, τ₃, τ₄, rfl, hping, hret⟩ := runs_attempt_bind_iff.1 hrest
    obtain rfl := runs_await_iff.1 hping
    obtain ⟨rfl, rfl⟩ := runs_ret_iff.1 hret
    refine ⟨σ, database, redis, runs_selectOne_iff.1 hselect, by simp, ?_⟩
    rcases database with e | u <;> rcases redis with e' | u' <;> rfl
  · rintro ⟨σ, database, redis, hselect, rfl, rfl⟩
    refine ⟨database, σ, _, rfl, runs_selectOne_iff.2 hselect, ?_⟩
    refine runs_attempt_bind_iff.2 ⟨redis, [_], [], rfl, runs_await_iff.2 rfl, runs_ret_iff.2 ⟨rfl, ?_⟩⟩
    rcases database with e | u <;> rcases redis with e' | u' <;> rfl

end App
