/-
Inserts that wait for each other. An insert waits while another session has a row with the same key under way;
two sessions that wait for each other would wait for ever. That cannot be: an insert is the first statement of
its session, so who waits has nothing that others could wait for, and who is waited for has only to commit or to
close its session.
-/
import EventService.Guarantees.Sessions
import EventService.Run.Attribution
import EventService.Run.Provenance
import EventService.Run.Requests

namespace App

open Prog Store

variable {P : Type} {S : Service P} {s t : System P} {log : List (Event P)} {worker : Nat} {loop : Loop}

/-! ## Inserts come first -/

/-- The session that was opened by this very call. -/
def openedBy : Call (@Op.Reply P) → Option Nat
  | ⟨.openSession, .ok session⟩ => some session
  | ⟨_, _⟩ => none

/-- An insert comes right behind the opening of its session, or not at all. -/
def insertsFirst (P : Type) : Discipline (@Op.Reply P) (Option Nat) where
  allowed opened o := ∀ session stmt, o = .execute session stmt → opened = some session
  next _ call := openedBy call

theorem openedBy_eq_some {o : Op P} {reply : o.Reply} {session : Nat} (h : openedBy ⟨o, reply⟩ = some session) :
    (⟨o, reply⟩ : Call Op.Reply) = ⟨.openSession, .ok session⟩ := by
  cases o with
  | openSession =>
    rcases reply with e | session'
    · cases h
    · obtain rfl := Option.some.inj h
      rfl
  | _ => cases h

theorem allowed_of_other {o : Op P} (h : ∀ session stmt, o ≠ .execute session stmt) (opened : Option Nat) :
    (insertsFirst P).allowed opened o :=
  fun session stmt heq => absurd heq (h session stmt)

theorem follows_withSession_insertsFirst {α : Type} {body : Nat → Code P α}
    (h : ∀ session, (body session).Follows (insertsFirst P) (fun _ s => s = none) (some session)) :
    (withSession body).Follows (insertsFirst P) (fun _ s => s = none) none := by
  refine ⟨allowed_of_other (by simp) _, fun r => ?_⟩
  rcases r with e | session
  · rfl
  · refine (h session).attempt_bind ?_
    rintro ended _ rfl
    refine ⟨allowed_of_other (by simp) _, fun r => ?_⟩
    rcases r with e | u
    · rfl
    · exact follows_ofExcept rfl

theorem follows_store_insertsFirst (values : Values) :
    (store S values).Follows (insertsFirst P) (fun _ s => s = none) none := by
  unfold store
  refine (follows_withSession_insertsFirst fun session => ?_).attempt_bind ?_
  · refine ⟨fun _ _ h => ?_, fun r => ?_⟩
    · cases h
      rfl
    · rcases r with e | rowcount
      · rfl
      · refine ⟨allowed_of_other (by simp) _, fun r => ?_⟩
        rcases r with e | u <;> rfl
  · rintro written _ rfl
    rcases written with e | inserted
    · exact follows_ofExcept rfl
    · rfl

theorem rests_insertsFirst : Rests S (insertsFirst P) none where
  others := by
    rintro o ⟨hs, ho⟩
    refine ⟨?_, fun r => ?_⟩
    · rintro session stmt rfl
      cases hs
    · cases o with
      | openSession => cases ho
      | _ => rfl
  store := follows_store_insertsFirst

/-- So what a handler has opened a session for is the insert, and nothing else leads to one. -/
theorem openSession_of_execute {m : QueuedMessage P} {σ : List (Call (@Op.Reply P))} {o : Op P}
    {k : o.Reply → Code P (Option Nat)} {reply : o.Reply} {session : Nat} {stmt : InsertStatement}
    {k' : Except Foreign Nat → Code P (Option Nat)} (h : After (handleOne S m) σ (.op o k))
    (hk : k reply = .op (.execute session stmt) k') : (⟨o, reply⟩ : Call Op.Reply) = ⟨.openSession, .ok session⟩ := by
  have hfollows := ((rests_insertsFirst.handleOne m).after h).2 reply
  rw [hk] at hfollows
  exact openedBy_eq_some (hfollows.1 session stmt rfl)

/-- The first call of a handler is on no session. -/
theorem session_of_handleOne {m : QueuedMessage P} {o : Op P} {k : o.Reply → Code P (Option Nat)}
    (h : handleOne S m = .op o k) : o.session = none := by
  have hfollows := rests_oneSession.handleOne (S := S) m
  rw [h] at hfollows
  rcases hfollows.1 with ⟨-, ho⟩ | ⟨session, hsession, -⟩
  · exact ho
  · cases hsession

/-! ## What a process calls next -/

theorem nextOp_eq_some {α : Type} {code : Code P α} {o : Op P} (h : nextOp code = some o) : ∃ k, code = .op o k := by
  cases code with
  | ret | raise => cases h
  | op o' k =>
    obtain rfl := Option.some.inj h
    exact ⟨k, rfl⟩

theorem nextOf_handler (s : System P) (worker : Nat) (loop : Loop) (i : Nat) :
    s.nextOf (.handler worker loop i) = ((s.handlers worker loop)[i]?).bind fun x => nextOp x.code := by
  unfold System.nextOf System.handlers
  simp only [Process.action, System.caller]
  cases s.workers worker with
  | up lanes =>
    dsimp only
    cases (lanes loop).handlers[i]? with
    | none => rfl
    | some x =>
      dsimp only [Option.bind_some]
      cases nextOp x.code <;> rfl
  | down | booting => rfl

theorem session_of_byLoop {o : Op P} (h : o.ByLoop S worker) : o.session = none := by
  cases o with
  | xadd | get | set | fetch | openSession | execute | commit | close | now | uniform | record => exact h.elim
  | xgroupCreate | xreadgroup | xautoclaim | xpending | xack | deadLetter | xlen | xlenDlq | xinfoGroups | sleep
  | stopIsSet => rfl

variable (S worker) in
/-- The next call of code that makes its calls as a loop does. -/
theorem session_of_after {α : Type} {p code : Code P α} {τ : List (Call Op.Reply)} {o : Op P} (hp : ByLoop S worker p)
    (h : After p τ code) (hop : nextOp code = some o) : o.session = none := by
  obtain ⟨k, rfl⟩ := nextOp_eq_some hop
  exact session_of_byLoop (h.only hp).2.1

/-- Only handlers have sessions. -/
theorem handler_of_session (hp : Provenance S s log) {p : Process} {o : Op P} (h : s.nextOf p = some o)
    (ho : o.session ≠ none) : ∃ worker loop i x k, p = .handler worker loop i ∧
      (s.handlers worker loop)[i]? = some x ∧ x.code = .op o k := by
  cases p with
  | handler worker loop i =>
    rw [nextOf_handler] at h
    obtain ⟨x, hx, hop⟩ := Option.bind_eq_some_iff.1 h
    obtain ⟨k, hk⟩ := nextOp_eq_some hop
    exact ⟨worker, loop, i, x, k, rfl, hx, hk⟩
  | client i =>
    refine absurd ?_ ho
    simp only [System.nextOf, Process.action, System.caller] at h
    cases hget : s.requests[i]? with
    | none => simp [hget] at h
    | some r =>
      obtain ⟨r, code⟩ := r
      have hop : nextOp code = some o := by
        rw [hget] at h
        simpa using h
      obtain ⟨k, rfl⟩ := nextOp_eq_some hop
      rcases op_of_serve (hp.requests i r _ hget) with rfl | ⟨event, -, rfl⟩ <;> rfl
  | booting worker =>
    refine absurd ?_ ho
    simp only [System.nextOf, Process.action, System.caller] at h
    cases hworker : s.workers worker with
    | down | up => simp [hworker] at h
    | booting code =>
      have hop : nextOp code = some o := by simpa [hworker] using h
      obtain ⟨τ, hafter⟩ := hp.booting worker code hworker
      exact session_of_after S worker byLoop_ensureGroup hafter hop
  | loop worker l =>
    refine absurd ?_ ho
    simp only [System.nextOf, Process.action, System.caller] at h
    cases hworker : s.workers worker with
    | down | booting => simp [hworker] at h
    | up lanes =>
      have hop : (lanes l).nextOp = some o := by simpa [hworker] using h
      have hfrom := hp.lanes worker lanes l hworker
      generalize lanes l = lane at hop hfrom
      cases hfrom with
      | running hcode => exact session_of_after S worker (byLoop_round l) hcode hop
      | acking _ _ _ hcode => exact session_of_after S worker (byLoop_ackDone _) hcode hop
      | handling | stopped => cases hop

/-! ## Handlers from one state to the next -/

theorem handlers_of_setWorker_ne {j : Nat} {x : Worker P} (hworkers : t.workers = s.setWorker worker x)
    (hne : j ≠ worker) (loop : Loop) : t.handlers j loop = s.handlers j loop := by
  unfold System.handlers
  rw [hworkers, s.setWorker_of_ne x hne]

/-- A worker that is not in its loops has no handlers, and one that has just entered them has none either. -/
theorem handlers_of_setWorker {x : Worker P} (hworkers : t.workers = s.setWorker worker x)
    (hx : ∀ lanes, x = .up lanes → ∀ loop, (lanes loop).handlers = []) (j : Nat) (loop : Loop) :
    t.handlers j loop = s.handlers j loop ∨ t.handlers j loop = [] := by
  by_cases hne : j = worker
  · right
    unfold System.handlers
    rw [hworkers, hne, s.setWorker_self]
    cases x with
    | up lanes => exact hx lanes rfl loop
    | down | booting => rfl
  · exact Or.inl (handlers_of_setWorker_ne hworkers hne loop)

theorem handlers_of_setLane {lanes : Loop → Lane P} {l : Loop} {lane : Lane P} (hup : s.workers worker = .up lanes)
    (hworkers : t.workers = s.setWorker worker (.up (Worker.setLane lanes l lane))) (j : Nat) (loop : Loop) :
    t.handlers j loop = s.handlers j loop ∧ ¬(j = worker ∧ loop = l) ∨
      j = worker ∧ loop = l ∧ t.handlers j loop = lane.handlers := by
  by_cases hne : j = worker
  · subst hne
    have hold : s.handlers j loop = (lanes loop).handlers := by
      unfold System.handlers
      rw [hup]
    have hnew : t.handlers j loop = (Worker.setLane lanes l lane loop).handlers := by
      unfold System.handlers
      rw [hworkers, s.setWorker_self]
    by_cases hloop : loop = l
    · refine Or.inr ⟨rfl, hloop, ?_⟩
      rw [hnew, Worker.setLane, if_pos hloop]
    · refine Or.inl ⟨?_, fun h => hloop h.2⟩
      rw [hnew, hold, Worker.setLane, if_neg hloop]
  · exact Or.inl ⟨handlers_of_setWorker_ne hworkers hne loop, fun h => hne h.1⟩

/-- A handler behind a call: it was there before, or it is the caller that has gone on. -/
theorem handler_of_goes {p : Process} {o : Op P} {reply : o.Reply} (h : Goes s t p o reply) {i : Nat} {y : Handler P}
    (hy : (t.handlers worker loop)[i]? = some y) : (s.handlers worker loop)[i]? = some y ∧ p ≠ .handler worker loop i ∨
      ∃ x k, p = .handler worker loop i ∧ (s.handlers worker loop)[i]? = some x ∧ x.code = .op o k ∧
        y = ⟨x.message, true, k reply⟩ := by
  cases h with
  | client _ _ hworkers =>
    refine Or.inl ⟨?_, by simp⟩
    unfold System.handlers at hy ⊢
    rwa [hworkers] at hy
  | booting _ hworkers =>
    rcases handlers_of_setWorker hworkers (by simp) worker loop with heq | hnil
    · exact Or.inl ⟨heq ▸ hy, by simp⟩
    · simp [hnil] at hy
  | running hup hcode hworkers | acking hup hcode hworkers =>
    rcases handlers_of_setLane hup hworkers worker loop with ⟨heq, -⟩ | ⟨-, -, hnil⟩
    · exact Or.inl ⟨heq ▸ hy, by simp⟩
    · simp [hnil, Lane.handlers] at hy
  | @handler j lanes l hs i' x _ k _ hup hlane hx hcode hworkers =>
    rcases handlers_of_setLane hup hworkers worker loop with ⟨heq, hne⟩ | ⟨rfl, rfl, heq⟩
    · refine Or.inl ⟨heq ▸ hy, fun h => hne ?_⟩
      obtain ⟨rfl, rfl, -⟩ := Process.handler.inj h
      exact ⟨rfl, rfl⟩
    · have hold : s.handlers worker loop = hs := by
        unfold System.handlers
        rw [hup]
        exact congrArg Lane.handlers hlane
      rw [heq] at hy
      by_cases hi : i = i'
      · subst hi
        have hlt : i < hs.length := (List.getElem?_eq_some_iff.1 hx).1
        rw [Lane.handlers, List.getElem?_set_self hlt] at hy
        exact Or.inr ⟨x, k, rfl, hold ▸ hx, hcode, (Option.some.inj hy).symm⟩
      · rw [Lane.handlers, List.getElem?_set_ne (Ne.symm hi)] at hy
        refine Or.inl ⟨hold ▸ hy, fun h => hi ?_⟩
        exact (Process.handler.inj h).2.2.symm

/-- Behind an action without a call: it was there before, or it is new. -/
theorem handler_of_silent (h : Silent S s t) {i : Nat} {y : Handler P} (hy : (t.handlers worker loop)[i]? = some y) :
    (s.handlers worker loop)[i]? = some y ∨ y = ⟨y.message, false, handleOne S y.message⟩ := by
  cases h with
  | environment hworkers | request _ hworkers =>
    left
    unfold System.handlers at hy ⊢
    rwa [hworkers] at hy
  | @shift j x hshift hworkers =>
    generalize hw : s.workers j = old at hshift
    cases hshift with
    | started | ended =>
      rcases handlers_of_setWorker hworkers (by simp) worker loop with heq | hnil
      · exact Or.inl (heq ▸ hy)
      · simp [hnil] at hy
    | entered =>
      rcases handlers_of_setWorker hworkers (by rintro _ ⟨⟩ _; rfl) worker loop with heq | hnil
      · exact Or.inl (heq ▸ hy)
      · simp [hnil] at hy
    | @moved lanes l lane hmove =>
      rcases handlers_of_setLane hw hworkers worker loop with ⟨heq, -⟩ | ⟨-, -, heq⟩
      · exact Or.inl (heq ▸ hy)
      · right
        rw [heq] at hy
        have hmem := List.mem_of_getElem? hy
        unfold Lane.move at hmove
        split at hmove
        case h_3 =>
          obtain rfl := Option.some.inj hmove
          obtain ⟨m, -, rfl⟩ := List.mem_map.1 hmem
          rfl
        case h_4 =>
          obtain ⟨results, -, rfl⟩ := Option.map_eq_some_iff.1 hmove
          cases hmem
        all_goals first | (obtain rfl := Option.some.inj hmove; cases hmem) | cases hmove

theorem after_of_handler (hp : Provenance S s log) {x : Handler P} (hx : x ∈ s.handlers worker loop) :
    ∃ σ, After (handleOne S x.message) σ x.code := by
  unfold System.handlers at hx
  split at hx
  · rename_i lanes hup
    have hfrom := hp.lanes worker lanes loop hup
    generalize lanes loop = lane at hx hfrom
    cases hfrom with
    | handling hround hτ hcode =>
      obtain ⟨σ, -, hafter⟩ := hcode x hx
      exact ⟨σ, hafter⟩
    | running | acking | stopped => cases hx
  · cases hx
  · cases hx

/-! ## Every insert is the first statement of its session -/

/-- Who is about to insert has a session that nobody has used and nobody else is about to use; and a handler that
has not begun is at its beginning. -/
structure FirstInserts (S : Service P) (s : System P) : Prop where
  fresh : ∀ p session stmt, s.nextOf p = some (.execute session stmt) →
    session < s.world.table.nextSession ∧ session ∉ s.world.table.begun
  apart : ∀ p q session stmt stmt', s.nextOf p = some (.execute session stmt) →
    s.nextOf q = some (.execute session stmt') → p = q
  waiting : ∀ worker loop, ∀ x ∈ s.handlers worker loop, x.started = false → x.code = handleOne S x.message

theorem nextOf_of_goes {p : Process} {o : Op P} {reply : o.Reply} (h : Goes s t p o reply) : s.nextOf p = some o := by
  cases h with
  | client hcode => simp [System.nextOf, Process.action, System.caller, hcode, nextOp]
  | booting hcode => simp [System.nextOf, Process.action, System.caller, hcode, nextOp]
  | running hup hcode => simp [System.nextOf, Process.action, System.caller, hup, hcode, Lane.nextOp, nextOp]
  | acking hup hcode => simp [System.nextOf, Process.action, System.caller, hup, hcode, Lane.nextOp, nextOp]
  | handler hup hlane hx hcode =>
    simp [System.nextOf, Process.action, System.caller, hup, hlane, Lane.handlers, hx, hcode, nextOp]

/-- Behind a call: who is about to insert was so before, or has just opened the session. -/
theorem inserts_of_goes {p q : Process} {o : Op P} {reply : o.Reply} {log' : List (Event P)} {session : Nat}
    {stmt : InsertStatement} (hp : Provenance S s log) (hp' : Provenance S t log') (h : Goes s t p o reply)
    (hq : t.nextOf q = some (.execute session stmt)) : s.nextOf q = some (.execute session stmt) ∧ p ≠ q ∨
      q = p ∧ (⟨o, reply⟩ : Call Op.Reply) = ⟨.openSession, .ok session⟩ := by
  obtain ⟨worker, loop, i, y, k', rfl, hy, hcode⟩ := handler_of_session hp' hq (by simp [Op.session])
  rcases handler_of_goes h hy with ⟨hold, hne⟩ | ⟨x, k, rfl, hx, hop, rfl⟩
  · refine Or.inl ⟨?_, hne⟩
    rw [nextOf_handler, hold, Option.bind_some, hcode]
    rfl
  · obtain ⟨σ, hafter⟩ := after_of_handler hp (List.mem_of_getElem? hx)
    rw [hop] at hafter
    exact Or.inr ⟨rfl, openSession_of_execute hafter hcode⟩

theorem inserts_of_silent {q : Process} {log' : List (Event P)} {session : Nat} {stmt : InsertStatement}
    (hp' : Provenance S t log') (h : Silent S s t) (hq : t.nextOf q = some (.execute session stmt)) :
    s.nextOf q = some (.execute session stmt) := by
  obtain ⟨worker, loop, i, y, k', rfl, hy, hcode⟩ := handler_of_session hp' hq (by simp [Op.session])
  rcases handler_of_silent h hy with hold | hnew
  · rw [nextOf_handler, hold, Option.bind_some, hcode]
    rfl
  · -- a handler does not begin with an insert
    rw [hnew] at hcode
    cases session_of_handleOne hcode

theorem begun_of_exec {o : Op P} {c : Choice} {w w' : World P} {r : o.Reply} (h : World.exec S o c w = some (r, w')) :
    w'.table.begun = w.table.begun ∨
      ∃ session stmt, o = .execute session stmt ∧ w'.table.begun = session :: w.table.begun := by
  rcases changed_of_exec h with rfl | hchanged
  · exact Or.inl rfl
  · cases hchanged with
    | conflict hins => exact Or.inr ⟨_, _, rfl, Table.begun_insert (Or.inl hins)⟩
    | inserted hins => exact Or.inr ⟨_, _, rfl, Table.begun_insert (Or.inr hins)⟩
    | deadLetter k =>
      left
      unfold World.deadLetterExec
      split <;> rfl
    | xadd | xgroupCreate | xreadgroup | xautoclaim | xpending | xack | set | fetch | openSession | commit | close
    | record => exact Or.inl rfl

namespace FirstInserts

theorem start (S : Service P) : FirstInserts S (System.initial P) where
  fresh := by
    intro p session stmt h
    cases p <;> simp [System.nextOf, Process.action, System.caller, System.initial] at h
  apart := by
    intro p q session stmt stmt' h
    cases p <;> simp [System.nextOf, Process.action, System.caller, System.initial] at h
  waiting := by
    intro worker loop x hx
    cases hx

variable (hi : FirstInserts S s)
include hi

theorem call {p : Process} {o : Op P} {reply : o.Reply} {log' : List (Event P)} (hp : Provenance S s log)
    (hp' : Provenance S t log') (hmade : Event.Made S ⟨p, ⟨o, reply⟩, s.world, t.world⟩) (h : Goes s t p o reply) :
    FirstInserts S t := by
  obtain ⟨c, hexec⟩ := hmade
  have hlt := (tableStep_of_exec hexec).nextSession_le
  -- a session that was opened just now is the next one
  have hopened : ∀ session, (⟨o, reply⟩ : Call Op.Reply) = ⟨.openSession, .ok session⟩ →
      session = s.world.table.nextSession ∧ t.world.table = s.world.table.openSession.2 := by
    rintro session heq
    cases heq
    exact openSession_reply hexec
  refine ⟨fun q session stmt hq => ?_, fun q q' session stmt stmt' hq hq' => ?_, fun worker loop x hx hnew => ?_⟩
  · rcases inserts_of_goes hp hp' h hq with ⟨hold, hne⟩ | ⟨-, heq⟩
    · obtain ⟨hsession, hbegun⟩ := hi.fresh q session stmt hold
      refine ⟨hsession.trans_le hlt, ?_⟩
      rcases begun_of_exec hexec with hsame | ⟨session', stmt', rfl, hmore⟩
      · exact hsame ▸ hbegun
      · rw [hmore, List.mem_cons, not_or]
        refine ⟨?_, hbegun⟩
        rintro rfl
        exact hne (hi.apart p q session stmt' stmt (nextOf_of_goes h) hold)
    · obtain ⟨rfl, htable⟩ := hopened session heq
      rw [htable]
      refine ⟨Nat.lt_succ_self _, fun hbegun => ?_⟩
      exact absurd (s.world.table.opened _ hbegun) (Nat.lt_irrefl _)
  · rcases inserts_of_goes hp hp' h hq with ⟨hold, -⟩ | ⟨rfl, heq⟩
    · rcases inserts_of_goes hp hp' h hq' with ⟨hold', -⟩ | ⟨-, heq'⟩
      · exact hi.apart q q' session stmt stmt' hold hold'
      · have hsession := (hi.fresh q session stmt hold).1
        rw [(hopened session heq').1] at hsession
        exact absurd hsession (Nat.lt_irrefl _)
    · rcases inserts_of_goes hp hp' h hq' with ⟨hold', -⟩ | ⟨rfl, -⟩
      · have hsession := (hi.fresh q' session stmt' hold').1
        rw [(hopened session heq).1] at hsession
        exact absurd hsession (Nat.lt_irrefl _)
      · rfl
  · obtain ⟨i, hi', hget⟩ := List.mem_iff_getElem.1 hx
    have hx' : (t.handlers worker loop)[i]? = some x := List.getElem?_eq_some_iff.2 ⟨hi', hget⟩
    rcases handler_of_goes h hx' with ⟨hold, -⟩ | ⟨y, k, -, -, -, rfl⟩
    · exact hi.waiting worker loop x (List.mem_of_getElem? hold) hnew
    · cases hnew

theorem silent {log' : List (Event P)} (hp' : Provenance S t log') (hworld : Idle s.world t.world)
    (h : Silent S s t) : FirstInserts S t := by
  refine ⟨fun q session stmt hq => ?_, fun q q' session stmt stmt' hq hq' => ?_, fun worker loop x hx hnew => ?_⟩
  · rw [hworld.nextSession, hworld.begun]
    exact hi.fresh q session stmt (inserts_of_silent hp' h hq)
  · exact hi.apart q q' session stmt stmt' (inserts_of_silent hp' h hq) (inserts_of_silent hp' h hq')
  · obtain ⟨i, hi', hget⟩ := List.mem_iff_getElem.1 hx
    have hx' : (t.handlers worker loop)[i]? = some x := List.getElem?_eq_some_iff.2 ⟨hi', hget⟩
    rcases handler_of_silent h hx' with hold | heq
    · exact hi.waiting worker loop x (List.mem_of_getElem? hold) hnew
    · rw [heq]

end FirstInserts

theorem firstInserts_of_chronicle (h : System.Chronicle S s log) : Provenance S s log ∧ FirstInserts S s := by
  refine h.keeps (I := fun s log => Provenance S s log ∧ FirstInserts S s) ⟨.start S, .start S⟩ ?_ ?_
  · rintro s t log p o reply - ⟨hp, hi⟩ - hmade hgoes
    have hp' : Provenance S t (log ++ [⟨p, ⟨o, reply⟩, s.world, t.world⟩]) := hp.call hgoes
    exact ⟨hp', hi.call hp hp' hmade hgoes⟩
  · rintro s t log ⟨hp, hi⟩ - hworld hsilent
    have hp' := hp.silent hsilent
    exact ⟨hp', hi.silent hp' hworld hsilent⟩

/-! ## Who waits, and for whom -/

/-- A handler that holds the semaphore goes on if its call is answered. -/
theorem step_handle {i : Nat} {x : Handler P} {o : Op P} {k : o.Reply → Code P (Option Nat)} {c : Choice}
    {reply : o.Reply} {w : World P} (hx : (s.handlers worker loop)[i]? = some x) (hstarted : x.started = true)
    (hcode : x.code = .op o k) (hexec : World.exec S o c s.world = some (reply, w)) :
    ∃ t, s.step S (.handle worker loop i c) = some t ∧ t.world = w := by
  have hadvance : Protocol.advance (World.exec S) x.code c s.world = some (k reply, w) :=
    Protocol.advance_eq_some_iff.2 ⟨o, k, reply, hcode, hexec, rfl⟩
  unfold System.handlers at hx
  simp only [System.step]
  cases hworker : s.workers worker with
  | up lanes =>
    rw [hworker] at hx
    dsimp only at hx ⊢
    unfold System.handle
    rw [hx]
    simp [hstarted, Handler.step, hadvance]
  | down | booting => simp [hworker] at hx

/-- What a process does next with a session that has begun its transaction ends the transaction's claim on its row. -/
theorem goes_ahead (hp : Provenance S s log) (hi : FirstInserts S s) {u : Nat × Values}
    (hu : u ∈ s.world.table.uncommitted) {q : Process} {o : Op P} (hq : s.nextOf q = some o)
    (ho : o.session = some u.1) : ∃ t, s.step S (q.action {}) = some t ∧
      (t.world.table = s.world.table.commit u.1 ∨ t.world.table = s.world.table.closeSession u.1) := by
  have hlive := s.world.table.owned u hu
  obtain ⟨worker, loop, i, x, k, rfl, hx, hcode⟩ := handler_of_session hp hq (by simp [ho])
  have hstarted : x.started = true := by
    by_contra hnot
    have hbegin := hi.waiting worker loop x (List.mem_of_getElem? hx) (by simpa using hnot)
    rw [hbegin] at hcode
    rw [session_of_handleOne hcode] at ho
    cases ho
  cases o with
  | execute session stmt =>
    -- its session would be new
    obtain rfl : session = u.1 := Option.some.inj ho
    exact absurd (s.world.table.alive _ hlive) (hi.fresh _ _ stmt hq).2
  | commit session =>
    obtain rfl : session = u.1 := Option.some.inj ho
    have hexec : World.exec S (.commit u.1) {} s.world =
        some (.ok (), { s.world with table := s.world.table.commit u.1 }) := by
      simp only [World.exec, World.commitExec, if_pos hlive]
      rfl
    obtain ⟨t, ht, hw⟩ := step_handle hx hstarted hcode hexec
    exact ⟨t, ht, Or.inl (by rw [hw])⟩
  | close session =>
    obtain rfl : session = u.1 := Option.some.inj ho
    have hexec : World.exec S (.close u.1) {} s.world =
        some (.ok (), { s.world with table := s.world.table.closeSession u.1 }) := rfl
    obtain ⟨t, ht, hw⟩ := step_handle hx hstarted hcode hexec
    exact ⟨t, ht, Or.inr (by rw [hw])⟩
  | xadd | xgroupCreate | xreadgroup | xautoclaim | xpending | xack | deadLetter | xlen | xlenDlq | xinfoGroups | get
  | set | fetch | openSession | now | uniform | sleep | stopIsSet | record => cases ho

/-- Inserts never wait for each other in a circle. In every state of every run, whoever is about to insert has a
session in which nothing was inserted yet and with which no other process is about to insert; so it holds no row
that others could wait for. If its insert has to wait, it waits for the row of one other session, and whichever
process is on that session does not wait itself: it goes ahead, with its commit or by closing the session, and then
the insert need not wait any more. If the process on it has died, the end of the session does the same. -/
theorem inserts_never_deadlock (h : System.Reachable S s) {p : Process} {session : Nat} {stmt : InsertStatement}
    (hp : s.nextOf p = some (.execute session stmt)) :
    (session < s.world.table.nextSession ∧ session ∉ s.world.table.begun ∧
      ∀ q stmt', s.nextOf q = some (.execute session stmt') → q = p) ∧
    (s.world.insertExec session stmt = none → ∃ u ∈ s.world.table.uncommitted, u.2.id = stmt.values.id ∧ u.1 ≠ session ∧
      (∀ q o, s.nextOf q = some o → o.session = some u.1 →
        ∃ t, s.step S (q.action {}) = some t ∧ t.world.insertExec session stmt ≠ none) ∧
      ∃ t, s.step S (.drop u.1) = some t ∧ t.world.insertExec session stmt ≠ none) := by
  obtain ⟨log, hlog⟩ := System.exists_chronicle S h
  obtain ⟨hfrom, hi⟩ := firstInserts_of_chronicle hlog
  obtain ⟨hlt, hbegun⟩ := hi.fresh p session stmt hp
  refine ⟨⟨hlt, hbegun, fun q stmt' hq => hi.apart q p session stmt' stmt hq hp⟩, fun hwaits => ?_⟩
  obtain ⟨-, -, u, hu, hkey⟩ := Table.insert_eq_waits_iff.1 (insertExec_eq_none_iff.1 hwaits).2
  have hne : u.1 ≠ session := by
    rintro rfl
    exact hbegun (s.world.table.alive _ (s.world.table.owned u hu))
  refine ⟨u, hu, hkey, hne, fun q o hq ho => ?_, ?_⟩
  · obtain ⟨t, ht, htable⟩ := goes_ahead hfrom hi hu hq ho
    refine ⟨t, ht, fun hstill => ?_⟩
    have hstill := (insertExec_eq_none_iff.1 hstill).2
    rcases htable with htable | htable
    · rw [htable] at hstill
      exact Table.insert_commit_ne_waits hu hkey hstill
    · rw [htable] at hstill
      exact Table.insert_closeSession_ne_waits hu hkey hstill
  · refine ⟨_, rfl, fun hstill => ?_⟩
    exact Table.insert_closeSession_ne_waits hu hkey (insertExec_eq_none_iff.1 hstill).2

/-- Two events with one id are handled side by side: one has its row under way, the other is about to insert. -/
def sideBySide : List Action :=
  Trace.publish 0 (Trace.document "a" (.finite false 5 0) "USD") ++
  Trace.publish 1 (Trace.document "a" (.finite false 7 0) "USD") ++ Trace.boot 0 ++
  Trace.calls 0 .consume 2 ++ [.move 0 .consume] ++ Trace.handles 0 .consume 0 4 ++ Trace.handles 0 .consume 1 3

/-- The second handler's insert waits for the commit that the first one comes to next. -/
def waitsForCommit (s : System EventIn) : Bool :=
  match s.nextOf (.handler 0 .consume 1), s.nextOf (.handler 0 .consume 0) with
  | some (.execute session stmt), some (.commit session') =>
    (s.world.insertExec session stmt).isNone && decide (s.world.table.uncommitted.map Prod.fst = [session'])
  | _, _ => false

theorem sideBySide_goes_ahead : ∃ s session stmt, System.Reachable (documentService {}) s ∧
    s.nextOf (.handler 0 .consume 1) = some (.execute session stmt) ∧ s.world.insertExec session stmt = none ∧
      ∃ t, s.step (documentService {}) (.handle 0 .consume 0 {}) = some t ∧
        t.world.insertExec session stmt ≠ none := by
  obtain ⟨s, hs, hp⟩ := System.exists_reachable (documentService {}) sideBySide waitsForCommit (by decide +kernel)
  unfold waitsForCommit at hp
  split at hp
  · rename_i session stmt session' hinsert hcommit
    rw [Bool.and_eq_true, Option.isNone_iff_eq_none, decide_eq_true_eq] at hp
    obtain ⟨u, hu, -, -, hahead, -⟩ := (inserts_never_deadlock hs hinsert).2 hp.1
    have hsession : u.1 = session' := by
      have hmem := List.mem_map_of_mem (f := Prod.fst) hu
      rw [hp.2] at hmem
      exact List.mem_singleton.1 hmem
    exact ⟨s, session, stmt, hs, hinsert, hp.1, hahead (.handler 0 .consume 0) _ hcommit (by rw [hsession]; rfl)⟩
  · cases hp

end App
