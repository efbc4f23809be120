/-
Where the code of a process has come from. In every state of a run the code of a request, of a worker that
starts, of a loop and of the handlers of its batch is what is left of it behind calls that are in the
history, made by that process.
-/
import EventService.Run.Histories
import EventService.Run.WorkerCalls
import EventService.Run.Workers

namespace App

open Prog Store

variable {P : Type} {S : Service P} {s t : System P} {log : List (Event P)}

/-! ## Calls by their callers -/

/-- The process works for a loop of a worker: it is the loop, or a handler of one of its batches. -/
def Process.worksFor (worker : Nat) (loop : Loop) : Process → Bool
  | .loop j l => decide (j = worker ∧ l = loop)
  | .handler j l _ => decide (j = worker ∧ l = loop)
  | .client _ | .booting _ => false

/-- The calls made for a loop of a worker. -/
def callsFor (worker : Nat) (loop : Loop) (log : List (Event P)) : List (Call (@Op.Reply P)) :=
  (log.filter fun ev => ev.caller.worksFor worker loop).map Event.call

theorem callsBy_append (p : Process) (log log' : List (Event P)) :
    callsBy p (log ++ log') = callsBy p log ++ callsBy p log' := by
  unfold callsBy
  rw [List.filter_append, List.map_append]

theorem callsBy_concat_self (log : List (Event P)) (ev : Event P) :
    callsBy ev.caller (log ++ [ev]) = callsBy ev.caller log ++ [ev.call] := by
  rw [callsBy_append]
  simp [callsBy]

theorem callsBy_concat_of_ne (log : List (Event P)) {ev : Event P} {p : Process} (h : ev.caller ≠ p) :
    callsBy p (log ++ [ev]) = callsBy p log := by
  rw [callsBy_append]
  simp [callsBy, h]

theorem mem_callsFor {worker : Nat} {loop : Loop} {c : Call (@Op.Reply P)} :
    c ∈ callsFor worker loop log ↔ ∃ ev ∈ log, ev.caller.worksFor worker loop = true ∧ ev.call = c := by
  unfold callsFor
  simp only [List.mem_map, List.mem_filter, and_assoc]

theorem callsFor_mono {worker : Nat} {loop : Loop} {log log' : List (Event P)} (h : log ⊆ log') :
    callsFor worker loop log ⊆ callsFor worker loop log' := by
  intro c hc
  obtain ⟨ev, hev, hcaller, hcall⟩ := mem_callsFor.1 hc
  exact mem_callsFor.2 ⟨ev, h hev, hcaller, hcall⟩

/-- The call that is made now is in the history then. -/
theorem mem_callsFor_concat {worker : Nat} {loop : Loop} (log : List (Event P)) (ev : Event P)
    (hev : ev.caller.worksFor worker loop = true) : ev.call ∈ callsFor worker loop (log ++ [ev]) :=
  mem_callsFor.2 ⟨ev, List.mem_append_right _ (List.mem_singleton_self _), hev, rfl⟩

theorem callsFor_subset_concat {worker : Nat} {loop : Loop} (log : List (Event P)) (ev : Event P) :
    callsFor worker loop log ⊆ callsFor worker loop (log ++ [ev]) :=
  callsFor_mono (List.subset_append_left ..)

theorem concat_subset {α : Type} {l m : List α} {a : α} (hl : l ⊆ m) (ha : a ∈ m) : l ++ [a] ⊆ m := by
  intro b hb
  rcases List.mem_append.1 hb with hb | hb
  · exact hl hb
  · exact List.mem_singleton.1 hb ▸ ha

/-! ## Loops -/

/-- Where a loop is, behind calls that were made. -/
inductive Lane.From (S : Service P) (worker : Nat) (loop : Loop) (made : List (Call (@Op.Reply P))) : Lane P → Prop
  | running {τ : List (Call Op.Reply)} {code : Code P (Next P)} (hcode : After (round S worker loop) τ code)
    (hτ : τ ⊆ made) : From S worker loop made (.running code)
  | handling {τ : List (Call Op.Reply)} {hs : List (Handler P)}
    (hround : Runs (round S worker loop) τ (.ok (.handle (hs.map Handler.message)))) (hτ : τ ⊆ made)
    (hcode : ∀ h ∈ hs, ∃ σ, σ ⊆ made ∧ After (handleOne S h.message) σ h.code) :
    From S worker loop made (.handling hs)
  | acking {τ σ : List (Call Op.Reply)} {messages : List (QueuedMessage P)} {results : List (Option Nat)}
    {code : Code P Unit} (hround : Runs (round S worker loop) τ (.ok (.handle messages))) (hτ : τ ⊆ made)
    (hresults : List.Forall₂ (fun m r => ∃ ρ, ρ ⊆ made ∧ Runs (handleOne S m) ρ (.ok r)) messages results)
    (hcode : After (ackDone results) σ code) (hσ : σ ⊆ made) : From S worker loop made (.acking code)
  | stopped : From S worker loop made .stopped

namespace Lane.From

variable {worker : Nat} {loop : Loop} {made made' : List (Call (@Op.Reply P))} {lane lane' : Lane P}

theorem mono (h : From S worker loop made lane) (hsub : made ⊆ made') : From S worker loop made' lane := by
  cases h with
  | running hcode hτ => exact .running hcode (List.Subset.trans hτ hsub)
  | handling hround hτ hcode =>
    refine .handling hround (List.Subset.trans hτ hsub) fun x hx => ?_
    obtain ⟨σ, hσ, hafter⟩ := hcode x hx
    exact ⟨σ, List.Subset.trans hσ hsub, hafter⟩
  | acking hround hτ hresults hcode hσ =>
    refine .acking hround (List.Subset.trans hτ hsub) (hresults.imp fun m r h => ?_) hcode (List.Subset.trans hσ hsub)
    obtain ⟨ρ, hρ, hruns⟩ := h
    exact ⟨ρ, List.Subset.trans hρ hsub, hruns⟩
  | stopped => exact .stopped

/-- A round begins. -/
theorem start : From S worker loop made (.running (round S worker loop)) := .running .start (by simp)

/-- A loop, or a handler of its batch, goes on with a call. -/
theorem running_call {o : Op P} {k : o.Reply → Code P (Next P)} {reply : o.Reply}
    (h : From S worker loop made (.running (.op o k))) (hsub : made ⊆ made') (hmem : ⟨o, reply⟩ ∈ made') :
    From S worker loop made' (.running (k reply)) := by
  cases h with
  | running hcode hτ => exact .running (hcode.call reply) (concat_subset (List.Subset.trans hτ hsub) hmem)

theorem acking_call {o : Op P} {k : o.Reply → Code P Unit} {reply : o.Reply}
    (h : From S worker loop made (.acking (.op o k))) (hsub : made ⊆ made') (hmem : ⟨o, reply⟩ ∈ made') :
    From S worker loop made' (.acking (k reply)) := by
  cases h.mono hsub with
  | acking hround hτ hresults hcode hσ =>
    exact .acking hround hτ hresults (hcode.call reply) (concat_subset hσ hmem)

theorem handling_call {hs : List (Handler P)} {i : Nat} {x : Handler P} {o : Op P}
    {k : o.Reply → Code P (Option Nat)} {reply : o.Reply} (h : From S worker loop made (.handling hs))
    (hsub : made ⊆ made') (hmem : ⟨o, reply⟩ ∈ made') (hx : hs[i]? = some x) (hop : x.code = .op o k) :
    From S worker loop made' (.handling (hs.set i ⟨x.message, true, k reply⟩)) := by
  obtain ⟨hi, rfl⟩ := List.getElem?_eq_some_iff.1 hx
  cases h.mono hsub with
  | handling hround hτ hcode =>
    have hmessages : (hs.set i ⟨hs[i].message, true, k reply⟩).map Handler.message = hs.map Handler.message := by
      rw [List.map_set, ← List.getElem_map Handler.message (h := by simpa using hi), List.set_getElem_self]
    refine .handling (by rwa [hmessages]) hτ fun y hy => ?_
    rcases List.mem_or_eq_of_mem_set hy with hy | rfl
    · exact hcode y hy
    · obtain ⟨σ, hσ, hafter⟩ := hcode hs[i] (List.getElem_mem hi)
      rw [hop] at hafter
      exact ⟨_, concat_subset hσ hmem, hafter.call reply⟩

/-- A loop that goes on without a call is at the end of what it was at. -/
theorem move (h : From S worker loop made lane) (hmove : lane.move S worker loop = some lane') :
    From S worker loop made lane' := by
  cases h with
  | @running τ code hcode hτ =>
    cases code with
    | op o k => cases hmove
    | raise e => cases hmove
    | ret next =>
      cases next with
      | stop => exact Option.some.inj hmove ▸ .stopped
      | again => exact Option.some.inj hmove ▸ start
      | handle messages =>
        obtain rfl := Option.some.inj hmove
        have hruns := hcode.runs (.ret _)
        rw [List.append_nil] at hruns
        refine .handling (by simpa [Function.comp_def] using hruns) hτ fun x hx => ?_
        obtain ⟨m, -, rfl⟩ := List.mem_map.1 hx
        exact ⟨[], by simp, .start⟩
  | @handling τ hs hround hτ hcode =>
    obtain ⟨results, hresults, rfl⟩ := Option.map_eq_some_iff.1 hmove
    refine .acking hround hτ ?_ .start (by simp)
    rw [List.forall₂_map_left_iff]
    have hall := forall₂_of_mapM hresults
    rw [List.forall₂_iff_get] at hall ⊢
    refine ⟨hall.1, fun i hi hi' => ?_⟩
    obtain ⟨σ, hσ, hafter⟩ := hcode _ (List.get_mem hs ⟨i, hi⟩)
    exact ⟨σ, hσ, runs_of_result hafter (hall.2 i hi hi')⟩
  | @acking τ σ messages results code hround hτ hresults hcode hσ =>
    cases code with
    | op o k => cases hmove
    | raise e => cases hmove
    | ret u => exact Option.some.inj hmove ▸ start
  | stopped => cases hmove

/-- The messages of a batch, with what was called to get them. -/
theorem messages (h : From S worker loop made lane) {x : Handler P} (hx : x ∈ lane.handlers) :
    ∃ τ messages, τ ⊆ made ∧ Runs (round S worker loop) τ (.ok (.handle messages)) ∧ x.message ∈ messages := by
  cases h with
  | running | acking | stopped => cases hx
  | handling hround hτ hcode => exact ⟨_, _, hτ, hround, List.mem_map_of_mem hx⟩

end Lane.From

/-! ## The service -/

/-- What is left of every process' code is behind the calls it made. -/
structure Provenance (S : Service P) (s : System P) (log : List (Event P)) : Prop where
  requests : ∀ i r code, s.requests[i]? = some (r, code) → After (serve S r) (callsBy (.client i) log) code
  unasked : ∀ i, s.requests[i]? = none → callsBy (.client i) log = []
  booting : ∀ worker code, s.workers worker = .booting code → ∃ τ, After ensureGroup τ code
  lanes : ∀ worker lanes loop, s.workers worker = .up lanes →
    Lane.From S worker loop (callsFor worker loop log) (lanes loop)

/-- A worker whose lane was set: that lane, or one that was there before. -/
theorem lane_of_setWorker {worker j : Nat} {lanes lanes' : Loop → Lane P} {loop : Loop} {lane : Lane P}
    (hworkers : t.workers = s.setWorker worker (.up (Worker.setLane lanes loop lane)))
    (hup : s.workers worker = .up lanes) (h : t.workers j = .up lanes') (l : Loop) :
    (j = worker ∧ l = loop ∧ lanes' l = lane) ∨
      ((j = worker → l ≠ loop) ∧ ∃ lanes₀, s.workers j = .up lanes₀ ∧ lanes' l = lanes₀ l) := by
  rw [hworkers] at h
  unfold System.setWorker at h
  split at h
  · rename_i hj
    rw [← Worker.up.inj h]
    unfold Worker.setLane
    by_cases hl : l = loop
    · exact Or.inl ⟨hj, hl, if_pos hl⟩
    · exact Or.inr ⟨fun _ => hl, lanes, hj ▸ hup, if_neg hl⟩
  · rename_i hj
    exact Or.inr ⟨fun heq => absurd heq hj, lanes', h, rfl⟩

/-- A worker that is set otherwise is starting, or not there. -/
theorem booting_of_setWorker {worker j : Nat} {x : Worker P} {code : Code P Unit}
    (hworkers : t.workers = s.setWorker worker x) (h : t.workers j = .booting code) :
    x = .booting code ∨ s.workers j = .booting code := by
  rw [hworkers] at h
  unfold System.setWorker at h
  split at h
  · exact Or.inl h
  · exact Or.inr h

namespace Provenance

theorem start (S : Service P) : Provenance S (System.initial P) [] where
  requests := by simp [System.initial]
  unasked := by simp [callsBy]
  booting := by simp [System.initial]
  lanes := by simp [System.initial]

variable (h : Provenance S s log)
include h

/-- Requests whose endpoints do not go on are where they were. -/
theorem requests_of_eq (ev : Event P) (hrequests : t.requests = s.requests)
    (hcaller : ∀ i, ev.caller ≠ .client i) :
    (∀ i r code, t.requests[i]? = some (r, code) → After (serve S r) (callsBy (.client i) (log ++ [ev])) code) ∧
      ∀ i, t.requests[i]? = none → callsBy (.client i) (log ++ [ev]) = [] := by
  constructor
  · intro i r code hget
    rw [hrequests] at hget
    rw [callsBy_concat_of_ne _ (hcaller i)]
    exact h.requests i r code hget
  · intro i hnone
    rw [hrequests] at hnone
    rw [callsBy_concat_of_ne _ (hcaller i)]
    exact h.unasked i hnone

theorem lanes_of_mono {ev : Event P} {worker : Nat} {lanes : Loop → Lane P} (hup : s.workers worker = .up lanes)
    (loop : Loop) : Lane.From S worker loop (callsFor worker loop (log ++ [ev])) (lanes loop) :=
  (h.lanes worker lanes loop hup).mono (callsFor_mono (List.subset_append_left ..))

/-- One lane goes on with a call of its worker. -/
theorem setLane {worker : Nat} {lanes : Loop → Lane P} {loop : Loop} {lane : Lane P} {ev : Event P}
    (hup : s.workers worker = .up lanes)
    (hworkers : t.workers = s.setWorker worker (.up (Worker.setLane lanes loop lane)))
    (hrequests : t.requests = s.requests) (hcaller : ∀ i, ev.caller ≠ .client i)
    (hlane : Lane.From S worker loop (callsFor worker loop (log ++ [ev])) lane) : Provenance S t (log ++ [ev]) where
  requests := (h.requests_of_eq ev hrequests hcaller).1
  unasked := (h.requests_of_eq ev hrequests hcaller).2
  booting := by
    intro j code hcode
    rcases booting_of_setWorker hworkers hcode with hx | hold
    · cases hx
    · exact h.booting j code hold
  lanes := by
    intro j lanes' l hl
    rcases lane_of_setWorker hworkers hup hl l with ⟨rfl, rfl, heq⟩ | ⟨-, lanes₀, hold, heq⟩
    · rw [heq]
      exact hlane
    · rw [heq]
      exact h.lanes_of_mono hold l

theorem call {p : Process} {o : Op P} {reply : o.Reply} {w w' : World P} (hgoes : Goes s t p o reply) :
    Provenance S t (log ++ [⟨p, ⟨o, reply⟩, w, w'⟩]) := by
  cases hgoes with
  | @client i r _ k _ hcode hrequests hworkers =>
    have hi : i < s.requests.length := (List.getElem?_eq_some_iff.1 hcode).1
    refine ⟨fun j r' code hget => ?_, fun j hnone => ?_, fun j code hj => ?_, fun j lanes l hj => ?_⟩
    · by_cases hj : j = i
      · subst hj
        rw [hrequests, List.getElem?_set_self hi] at hget
        obtain ⟨rfl, rfl⟩ := Prod.mk.inj (Option.some.inj hget)
        have hcalls : callsBy (.client j) (log ++ [⟨.client j, ⟨o, reply⟩, w, w'⟩]) =
            callsBy (.client j) log ++ [⟨o, reply⟩] :=
          callsBy_concat_self log ⟨.client j, ⟨o, reply⟩, w, w'⟩
        rw [hcalls]
        exact (h.requests j r _ hcode).call reply
      · rw [hrequests, List.getElem?_set_ne (Ne.symm hj)] at hget
        rw [callsBy_concat_of_ne _ (by simpa using Ne.symm hj)]
        exact h.requests j r' code hget
    · have hlen : s.requests.length ≤ j := by
        rw [hrequests, List.getElem?_eq_none_iff, List.length_set] at hnone
        exact hnone
      rw [callsBy_concat_of_ne _ (by simp only [ne_eq, Process.client.injEq]; omega)]
      exact h.unasked j (List.getElem?_eq_none hlen)
    · exact h.booting j code (hworkers ▸ hj)
    · exact h.lanes_of_mono (hworkers ▸ hj) l
  | @booting worker _ k _ hcode hworkers hrequests =>
    have hreq := h.requests_of_eq ⟨.booting worker, ⟨o, reply⟩, w, w'⟩ hrequests (by simp)
    refine ⟨hreq.1, hreq.2, fun j code hj => ?_, fun j lanes l hj => ?_⟩
    · rcases booting_of_setWorker hworkers hj with hx | hold
      · obtain ⟨τ, hτ⟩ := h.booting worker _ hcode
        rw [← Worker.booting.inj hx]
        exact ⟨_, hτ.call reply⟩
      · exact h.booting j code hold
    · rw [hworkers] at hj
      unfold System.setWorker at hj
      split at hj
      · cases hj
      · exact h.lanes_of_mono hj l
  | @running worker lanes loop _ k _ hup hcode hworkers hrequests =>
    have hfrom := h.lanes worker lanes loop hup
    rw [hcode] at hfrom
    apply h.setLane hup hworkers hrequests (by simp)
    apply hfrom.running_call (callsFor_subset_concat _ _)
    exact mem_callsFor_concat log ⟨.loop worker loop, ⟨o, reply⟩, w, w'⟩ (by simp [Process.worksFor])
  | @acking worker lanes loop _ k _ hup hcode hworkers hrequests =>
    have hfrom := h.lanes worker lanes loop hup
    rw [hcode] at hfrom
    apply h.setLane hup hworkers hrequests (by simp)
    apply hfrom.acking_call (callsFor_subset_concat _ _)
    exact mem_callsFor_concat log ⟨.loop worker loop, ⟨o, reply⟩, w, w'⟩ (by simp [Process.worksFor])
  | @handler worker lanes loop hs i x _ k _ hup hlane hx hcode hworkers hrequests =>
    have hfrom := h.lanes worker lanes loop hup
    rw [hlane] at hfrom
    apply h.setLane hup hworkers hrequests (by simp)
    refine hfrom.handling_call (callsFor_subset_concat _ _) ?_ hx hcode
    exact mem_callsFor_concat log ⟨.handler worker loop i, ⟨o, reply⟩, w, w'⟩ (by simp [Process.worksFor])

theorem silent (hsilent : Silent S s t) : Provenance S t log := by
  cases hsilent with
  | environment hworkers hrequests =>
    exact ⟨hrequests ▸ h.requests, hrequests ▸ h.unasked, hworkers ▸ h.booting, hworkers ▸ h.lanes⟩
  | request r hworkers hrequests =>
    refine ⟨fun i r' code hget => ?_, fun i hnone => ?_, hworkers ▸ h.booting, hworkers ▸ h.lanes⟩
    · rw [hrequests] at hget
      rcases Nat.lt_or_ge i s.requests.length with hi | hi
      · rw [List.getElem?_append_left hi] at hget
        exact h.requests i r' code hget
      · -- the new request has called nothing yet
        rw [List.getElem?_append_right hi, List.getElem?_singleton] at hget
        split at hget
        · obtain ⟨rfl, rfl⟩ := Prod.mk.inj (Option.some.inj hget)
          rw [h.unasked i (List.getElem?_eq_none hi)]
          exact .start
        · cases hget
    · rw [hrequests, List.getElem?_eq_none_iff, List.length_append] at hnone
      exact h.unasked i (List.getElem?_eq_none (by omega))
  | @shift worker x hshift hworkers hrequests =>
    generalize hw : s.workers worker = old at hshift
    refine ⟨hrequests ▸ h.requests, hrequests ▸ h.unasked, fun j code hj => ?_, fun j lanes l hj => ?_⟩
    · rcases booting_of_setWorker hworkers hj with rfl | hold
      · cases hshift
        exact ⟨[], .start⟩
      · exact h.booting j code hold
    · have hself : ∀ lanes₀, x = .up lanes₀ → j = worker → lanes₀ l = lanes l := by
        rintro lanes₀ rfl rfl
        rw [hworkers, s.setWorker_self] at hj
        rw [Worker.up.inj hj]
      by_cases hjw : j = worker
      · subst hjw
        cases hshift with
        | started | ended =>
          rw [hworkers, s.setWorker_self] at hj
          cases hj
        | entered =>
          rw [← hself _ rfl rfl]
          exact .start
        | moved hmove =>
          rcases lane_of_setWorker hworkers hw hj l with ⟨-, rfl, heq⟩ | ⟨-, lanes₀, hold, heq⟩
          · rw [heq]
            exact (h.lanes _ _ _ hw).move hmove
          · rw [heq]
            exact h.lanes j lanes₀ l hold
      · rw [hworkers, s.setWorker_of_ne _ hjw] at hj
        exact h.lanes j lanes l hj

end Provenance

/-- In every state of a run. -/
theorem provenance_of_chronicle (h : System.Chronicle S s log) : Provenance S s log :=
  h.keeps (Provenance.start S) (fun _ _ _ _ _ _ _ hp _ _ hgoes => hp.call hgoes)
    fun _ _ _ hp _ _ hsilent => hp.silent hsilent

/-- Every call is one of a request, or one as its worker makes them. -/
theorem byWorker_of_chronicle (h : System.Chronicle S s log) : ∀ ev ∈ log, (∃ i, ev.caller = .client i) ∨
    ∃ worker, ev.caller.isOf worker = true ∧ ev.call.op.ByWorker S worker := by
  intro ev hev
  obtain ⟨l, l', rfl⟩ := List.append_of_mem hev
  refine h.throughout (Q := fun _ ev => (∃ i, ev.caller = .client i) ∨
    ∃ worker, ev.caller.isOf worker = true ∧ ev.call.op.ByWorker S worker) ?_ l ev ⟨l', by simp⟩
  intro s t log p o reply hlog _ _ hgoes
  have hfrom := provenance_of_chronicle hlog
  have hop : ∀ {α : Type} {worker : Nat} {p q : Code P α} {τ : List (Call Op.Reply)} {k : o.Reply → Code P α},
      After p τ q → ByWorker S worker p → q = .op o k → o.ByWorker S worker := by
    intro α worker p q τ k hafter hp hq
    have hnext := (hafter.only hp).2
    rw [hq] at hnext
    exact hnext.1
  cases hgoes with
  | @client i => exact Or.inl ⟨i, rfl⟩
  | booting hcode =>
    obtain ⟨τ, hafter⟩ := hfrom.booting _ _ hcode
    exact Or.inr ⟨_, decide_eq_true rfl, hop hafter (byWorker_of_byLoop byLoop_ensureGroup) rfl⟩
  | @running worker lanes loop _ k _ hup hcode =>
    have hlane := hfrom.lanes worker lanes loop hup
    rw [hcode] at hlane
    cases hlane with
    | running hafter hτ => exact Or.inr ⟨worker, decide_eq_true rfl, hop hafter (byWorker_of_byLoop (byLoop_round loop)) rfl⟩
  | @acking worker lanes loop _ k _ hup hcode =>
    have hlane := hfrom.lanes worker lanes loop hup
    rw [hcode] at hlane
    cases hlane with
    | acking hround hτ hresults hafter hσ =>
      exact Or.inr ⟨worker, decide_eq_true rfl, hop hafter (byWorker_of_byLoop (byLoop_ackDone _)) rfl⟩
  | @handler worker lanes loop hs i x _ k _ hup hlane hx hcode =>
    have hfrom := hfrom.lanes worker lanes loop hup
    rw [hlane] at hfrom
    cases hfrom with
    | handling hround hτ hafter =>
      obtain ⟨σ, -, hafter⟩ := hafter x (List.mem_of_getElem? hx)
      exact Or.inr ⟨worker, decide_eq_true rfl, hop hafter (byWorker_handleOne _) hcode⟩

end App
