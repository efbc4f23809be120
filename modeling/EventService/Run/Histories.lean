/-
What an action of the service does, and what the history shows of it. Either a process makes its next call
and goes on with the reply, and that call is put down; or no call is made, and the stream, the dead-letter
stream and the rows stay as they are.
-/
import EventService.Model.Chronicle
import EventService.Run.Calls
import EventService.Run.Reachable
import EventService.Run.Workers

namespace App

open Prog Store

variable {P : Type} {S : Service P} {s t : System P} {a : Action}

/-! ## One action -/

/-- Calls take no time. -/
theorem now_of_exec {o : Op P} {c : Choice} {r : o.Reply} {w w' : World P} (h : World.exec S o c w = some (r, w')) :
    w'.now = w.now := by
  rcases changed_of_exec h with rfl | hchanged
  · rfl
  · cases hchanged with
    | deadLetter k =>
      unfold World.deadLetterExec
      split <;> rfl
    | xadd | xgroupCreate | xreadgroup | xautoclaim | xack | xpending | set | fetch | openSession | conflict
    | inserted | commit | close | record => rfl

/-- The call was made in the world before it, and left the world behind it. -/
def Event.Made (S : Service P) (ev : Event P) : Prop :=
  ∃ c, World.exec S ev.call.op c ev.before = some (ev.call.reply, ev.after)

/-- A process makes a call and goes on with the reply. -/
inductive Goes (s t : System P) : Process → (o : Op P) → o.Reply → Prop
  | client {i : Nat} {r : Request} {o : Op P} {k : o.Reply → Code P Response} {reply : o.Reply}
    (hcode : s.requests[i]? = some (r, .op o k)) (hrequests : t.requests = s.requests.set i (r, k reply))
    (hworkers : t.workers = s.workers) : Goes s t (.client i) o reply
  | booting {worker : Nat} {o : Op P} {k : o.Reply → Code P Unit} {reply : o.Reply}
    (hcode : s.workers worker = .booting (.op o k)) (hworkers : t.workers = s.setWorker worker (.booting (k reply)))
    (hrequests : t.requests = s.requests) : Goes s t (.booting worker) o reply
  | running {worker : Nat} {lanes : Loop → Lane P} {loop : Loop} {o : Op P} {k : o.Reply → Code P (Next P)}
    {reply : o.Reply} (hup : s.workers worker = .up lanes) (hcode : lanes loop = .running (.op o k))
    (hworkers : t.workers = s.setWorker worker (.up (Worker.setLane lanes loop (.running (k reply)))))
    (hrequests : t.requests = s.requests) : Goes s t (.loop worker loop) o reply
  | acking {worker : Nat} {lanes : Loop → Lane P} {loop : Loop} {o : Op P} {k : o.Reply → Code P Unit}
    {reply : o.Reply} (hup : s.workers worker = .up lanes) (hcode : lanes loop = .acking (.op o k))
    (hworkers : t.workers = s.setWorker worker (.up (Worker.setLane lanes loop (.acking (k reply)))))
    (hrequests : t.requests = s.requests) : Goes s t (.loop worker loop) o reply
  | handler {worker : Nat} {lanes : Loop → Lane P} {loop : Loop} {hs : List (Handler P)} {i : Nat} {x : Handler P}
    {o : Op P} {k : o.Reply → Code P (Option Nat)} {reply : o.Reply} (hup : s.workers worker = .up lanes)
    (hlane : lanes loop = .handling hs) (hx : hs[i]? = some x) (hcode : x.code = .op o k)
    (hworkers : t.workers = s.setWorker worker
      (.up (Worker.setLane lanes loop (.handling (hs.set i ⟨x.message, true, k reply⟩)))))
    (hrequests : t.requests = s.requests) : Goes s t (.handler worker loop i) o reply

/-- Where a worker goes without a call. -/
inductive Shift (S : Service P) (worker : Nat) : Worker P → Worker P → Prop
  | started : Shift S worker .down (.booting ensureGroup)
  | entered : Shift S worker (.booting (.ret ())) (.up fun loop => .running (round S worker loop))
  | moved {lanes : Loop → Lane P} {loop : Loop} {lane : Lane P} (h : (lanes loop).move S worker loop = some lane) :
    Shift S worker (.up lanes) (.up (Worker.setLane lanes loop lane))
  | ended (x : Worker P) : Shift S worker x .down

/-- An action without a call. -/
inductive Silent (S : Service P) (s t : System P) : Prop
  | environment (hworkers : t.workers = s.workers) (hrequests : t.requests = s.requests)
  | request (r : Request) (hworkers : t.workers = s.workers) (hrequests : t.requests = s.requests ++ [(r, serve S r)])
  | shift {worker : Nat} {x : Worker P} (h : Shift S worker (s.workers worker) x)
    (hworkers : t.workers = s.setWorker worker x) (hrequests : t.requests = s.requests)

/-- Nothing that is kept changes. -/
structure Idle (w w' : World P) : Prop where
  stream : w'.stream = w.stream
  dlq : w'.dlq = w.dlq
  rows : w'.table.rows = w.table.rows
  uncommitted : w'.table.uncommitted ⊆ w.table.uncommitted
  begun : w'.table.begun = w.table.begun
  nextSession : w'.table.nextSession = w.table.nextSession
  fetched : w'.fetched = w.fetched
  now : w.now ≤ w'.now

theorem Idle.refl (w : World P) : Idle w w := ⟨rfl, rfl, rfl, List.Subset.refl _, rfl, rfl, rfl, le_rfl⟩

/-- What an action is to the history. -/
inductive Noted (S : Service P) (s t : System P) (a : Action) : Prop
  | called {p : Process} {o : Op P} {reply : o.Reply}
    (hevent : s.event S a = some ⟨p, ⟨o, reply⟩, s.world, t.world⟩)
    (hmade : Event.Made S ⟨p, ⟨o, reply⟩, s.world, t.world⟩) (hgoes : Goes s t p o reply)
  | silent (hevent : s.event S a = none) (hworld : Idle s.world t.world) (hsilent : Silent S s t)

theorem event_of_exec {p : Process} {o : Op P} {c : Choice} {reply : o.Reply} {w : World P}
    (hcaller : s.caller a = some (p, o, c)) (h : World.exec S o c s.world = some (reply, w)) :
    s.event S a = some ⟨p, ⟨o, reply⟩, s.world, w⟩ := by
  unfold System.event
  rw [hcaller]
  simp [h]

/-- The caller's code is at the call, and goes on behind it. -/
theorem noted_of_advance {α : Type} {p : Process} {c : Choice} {code code' : Code P α}
    (hcaller : s.caller a = (nextOp code).map fun o => (p, o, c))
    (h : Protocol.advance (World.exec S) code c s.world = some (code', t.world))
    (hgoes : ∀ o k reply, code = .op o k → code' = k reply → Goes s t p o reply) : Noted S s t a := by
  obtain ⟨o, k, reply, rfl, hexec, rfl⟩ := Protocol.advance_eq_some_iff.1 h
  exact .called (event_of_exec hcaller hexec) ⟨c, hexec⟩ (hgoes o k reply rfl rfl)

theorem noted_of_shift {worker : Nat} {x : Worker P} (hevent : s.event S a = none)
    (h : Shift S worker (s.workers worker) x) (ht : t = { s with workers := s.setWorker worker x }) :
    Noted S s t a := by
  subst ht
  exact .silent hevent (Idle.refl _) (.shift h rfl rfl)

theorem System.noted (h : s.step S a = some t) : Noted S s t a := by
  cases a with
  | tick ms =>
    obtain rfl := Option.some.inj h
    exact .silent rfl ⟨rfl, rfl, rfl, List.Subset.refl _, rfl, rfl, rfl, Nat.le_add_right _ _⟩ (.environment rfl rfl)
  | expire | requestStop =>
    obtain rfl := Option.some.inj h
    exact .silent rfl ⟨rfl, rfl, rfl, List.Subset.refl _, rfl, rfl, rfl, le_rfl⟩ (.environment rfl rfl)
  | drop session =>
    obtain rfl := Option.some.inj h
    exact .silent rfl ⟨rfl, rfl, rfl, List.filter_sublist.subset, rfl, rfl, rfl, le_rfl⟩ (.environment rfl rfl)
  | request r =>
    obtain rfl := Option.some.inj h
    exact .silent rfl (Idle.refl _) (.request r rfl rfl)
  | serve i c =>
    simp only [step] at h
    split at h
    · cases h
    · rename_i r code hget
      obtain ⟨x, hx, rfl⟩ := Option.map_eq_some_iff.1 h
      have hcaller : s.caller (.serve i c) = (nextOp code).map fun o => (.client i, o, c) := by
        simp only [caller, hget, Option.bind_some]
      refine noted_of_advance hcaller hx fun o k reply hcode hcode' => ?_
      rw [hcode] at hget
      exact .client hget (by rw [hcode']) rfl
  | start j =>
    simp only [step] at h
    split at h
    · rename_i hdown
      obtain rfl := Option.some.inj h
      exact .silent rfl ⟨rfl, rfl, rfl, List.Subset.refl _, rfl, rfl, rfl, le_rfl⟩ (.shift (hdown ▸ .started) rfl rfl)
    · cases h
    · cases h
  | boot j c =>
    simp only [step] at h
    split at h
    · rename_i code hcode
      obtain ⟨x, hx, rfl⟩ := Option.map_eq_some_iff.1 h
      have hcaller : s.caller (.boot j c) = (nextOp code).map fun o => (.booting j, o, c) := by
        simp only [caller, hcode]
      refine noted_of_advance hcaller hx fun o k reply heq heq' => ?_
      rw [heq] at hcode
      exact .booting hcode (by rw [heq']) rfl
    · cases h
    · cases h
  | enter j =>
    simp only [step] at h
    split at h
    · rename_i hbooting
      exact noted_of_shift rfl (hbooting ▸ .entered) (Option.some.inj h).symm
    all_goals cases h
  | exit j =>
    simp only [step] at h
    split at h
    · split at h
      · exact noted_of_shift rfl (.ended _) (Option.some.inj h).symm
      · cases h
    · cases h
    · cases h
  | crash j => exact noted_of_shift rfl (.ended _) (Option.some.inj h).symm
  | call j loop c =>
    simp only [step] at h
    split at h
    · rename_i lanes hup
      obtain ⟨x, hx, rfl⟩ := Option.map_eq_some_iff.1 h
      have hcaller : s.caller (.call j loop c) = (lanes loop).nextOp.map fun o => (.loop j loop, o, c) := by
        simp only [caller, hup]
      cases hlane : lanes loop with
      | running code =>
        rw [hlane] at hx hcaller
        obtain ⟨y, hy, rfl⟩ := Option.map_eq_some_iff.1 hx
        refine noted_of_advance hcaller hy fun o k reply heq heq' => ?_
        exact .running hup (heq ▸ hlane) (by rw [heq']) rfl
      | acking code =>
        rw [hlane] at hx hcaller
        obtain ⟨y, hy, rfl⟩ := Option.map_eq_some_iff.1 hx
        refine noted_of_advance hcaller hy fun o k reply heq heq' => ?_
        exact .acking hup (heq ▸ hlane) (by rw [heq']) rfl
      | handling | stopped =>
        rw [hlane] at hx
        cases hx
    · cases h
    · cases h
  | handle j loop i c =>
    simp only [step] at h
    split at h
    · rename_i lanes hup
      unfold handle at h
      split at h
      · cases h
      · rename_i x hx
        split at h
        swap
        · cases h
        obtain ⟨y, hy, rfl⟩ := Option.map_eq_some_iff.1 h
        obtain ⟨r, hr, rfl⟩ := Option.map_eq_some_iff.1 hy
        have hcaller : s.caller (.handle j loop i c) = (nextOp x.code).map fun o => (.handler j loop i, o, c) := by
          simp only [caller, hup, hx, Option.bind_some]
        refine noted_of_advance hcaller hr fun o k reply heq heq' => ?_
        -- only a loop that waits for its handlers has any
        cases hlane : lanes loop with
        | running | acking | stopped =>
          rw [hlane] at hx
          cases hx
        | handling hs =>
          rw [hlane] at hx
          exact .handler hup hlane hx heq (by rw [heq']; rfl) rfl
    · cases h
    · cases h
  | move j loop =>
    simp only [step] at h
    split at h
    · rename_i lanes hup
      obtain ⟨lane, hlane, rfl⟩ := Option.map_eq_some_iff.1 h
      exact noted_of_shift rfl (hup ▸ .moved hlane) rfl
    · cases h
    · cases h

/-- An action is about one worker at most. -/
theorem System.workers_of_step (h : s.step S a = some t) : ∃ i, ∀ j, i ≠ j → t.workers j = s.workers j := by
  have hset : ∀ {i x}, t.workers = s.setWorker i x → ∃ i, ∀ j, i ≠ j → t.workers j = s.workers j := by
    intro i x hworkers
    refine ⟨i, fun j hj => ?_⟩
    rw [hworkers]
    exact s.setWorker_of_ne x (Ne.symm hj)
  cases System.noted h with
  | called _ _ hgoes =>
    cases hgoes with
    | client _ _ hworkers => exact ⟨0, fun j _ => by rw [hworkers]⟩
    | booting _ hworkers | running _ _ hworkers | acking _ _ hworkers | handler _ _ _ _ hworkers =>
      exact hset hworkers
  | silent _ _ hsilent =>
    cases hsilent with
    | environment hworkers | request _ hworkers => exact ⟨0, fun j _ => by rw [hworkers]⟩
    | shift _ hworkers => exact hset hworkers

/-! ## Runs -/

/-- So there are always workers that are not running. -/
theorem System.exists_down (h : Reachable S s) : ∃ n, ∀ j, n ≤ j → s.workers j = .down := by
  unfold Reachable at h
  induction h with
  | refl => exact ⟨0, fun _ _ => rfl⟩
  | step a _ ht ih =>
    obtain ⟨n, hn⟩ := ih
    obtain ⟨i, hi⟩ := System.workers_of_step ht
    refine ⟨max n (i + 1), fun j hj => ?_⟩
    rw [hi j (by omega), hn j (by omega)]

/-- What every call keeps, and every action without one, holds in every state of a run with its history. -/
theorem System.Chronicle.keeps {I : System P → List (Event P) → Prop} {log : List (Event P)}
    (h : Chronicle S s log) (hstart : I (initial P) [])
    (hcall : ∀ s t log p o reply, Chronicle S s log → I s log → Le s.world t.world →
      Event.Made S ⟨p, ⟨o, reply⟩, s.world, t.world⟩ → Goes s t p o reply →
      I t (log ++ [⟨p, ⟨o, reply⟩, s.world, t.world⟩]))
    (hsilent : ∀ s t log, I s log → Le s.world t.world → Idle s.world t.world → Silent S s t → I t log) :
    I s log := by
  induction h with
  | start => exact hstart
  | @step s t log a hlog ht ih =>
    have hle := ((ok_of_reachable (hlog.reachable S)).step ht).2
    cases System.noted ht with
    | called hevent hmade hgoes =>
      rw [hevent]
      exact hcall s t log _ _ _ hlog ih hle hmade hgoes
    | silent hevent hworld hsilent' =>
      rw [hevent]
      simpa using hsilent s t log ih hle hworld hsilent'

/-- What every call is to the history before it holds of every call in a history, and of what came before. -/
theorem System.Chronicle.throughout {Q : List (Event P) → Event P → Prop} {log : List (Event P)}
    (h : Chronicle S s log)
    (hcall : ∀ s t log p o reply, Chronicle S s log → Le s.world t.world →
      Event.Made S ⟨p, ⟨o, reply⟩, s.world, t.world⟩ → Goes s t p o reply →
      Q log ⟨p, ⟨o, reply⟩, s.world, t.world⟩) : ∀ l₁ ev, l₁ ++ [ev] <+: log → Q l₁ ev := by
  refine h.keeps (I := fun _ log => ∀ l₁ ev, l₁ ++ [ev] <+: log → Q l₁ ev) ?_ ?_ fun _ _ _ ih _ _ _ => ih
  · intro l₁ ev hpre
    exact absurd (List.prefix_nil.1 hpre) (by simp)
  · intro s t log p o reply hlog ih hle hmade hgoes l₁ ev hpre
    rcases List.prefix_concat_iff.1 hpre with heq | hpre
    · obtain ⟨hlog', hev⟩ := List.append_inj' heq rfl
      rw [List.singleton_inj.1 hev, hlog']
      exact hcall s t log p o reply hlog hle hmade hgoes
    · exact ih l₁ ev hpre

/-- The world behind a call comes before the one that is reached. -/
theorem System.Chronicle.le {log : List (Event P)} (h : Chronicle S s log) : ∀ ev ∈ log, Le ev.after s.world := by
  refine h.keeps (I := fun s log => ∀ ev ∈ log, Le ev.after s.world) (by simp) ?_ ?_
  · intro s t log p o reply _ ih hle _ _ ev hev
    rcases List.mem_append.1 hev with hev | hev
    · exact (ih ev hev).trans hle
    · rw [List.mem_singleton.1 hev]
      exact Le.refl _
  · exact fun s t log ih hle _ _ ev hev => (ih ev hev).trans hle

/-- Each call in a history was made, in a world behind those of the calls before it. -/
theorem System.Chronicle.ordered {log : List (Event P)} (h : Chronicle S s log) : ∀ l₁ ev, l₁ ++ [ev] <+: log →
    ev.Made S ∧ Le ev.before ev.after ∧ ∀ ev₀ ∈ l₁, Le ev₀.after ev.before :=
  h.throughout fun _ _ _ _ _ _ hlog hle hmade _ => ⟨hmade, hle, hlog.le⟩

end App
