/-
What a loop has called since its round began. The history ends with the calls of the round and those that
acknowledge the batch it handed over, so what became of what a round obtained can be seen as soon as it is over.
-/
import EventService.Run.Provenance

namespace App

open Prog Store

variable {P : Type} {S : Service P} {s t : System P} {log : List (Event P)}

/-! ## Since a round began -/

/-- Where a loop is, with the history since its round began. -/
inductive Lane.Since (S : Service P) (worker : Nat) (loop : Loop) (since : List (Event P)) : Lane P → Prop
  | running {code : Code P (Next P)} (hcode : After (round S worker loop) (callsBy (.loop worker loop) since) code) :
    Since S worker loop since (.running code)
  | handling {hs : List (Handler P)}
    (hround : Runs (round S worker loop) (callsBy (.loop worker loop) since) (.ok (.handle (hs.map Handler.message))))
    (hcode : ∀ x ∈ hs, ∃ σ, After (handleOne S x.message) σ x.code) : Since S worker loop since (.handling hs)
  | acking {τ σ : List (Call Op.Reply)} {messages : List (QueuedMessage P)} {results : List (Option Nat)}
    {code : Code P Unit} (hcalls : callsBy (.loop worker loop) since = τ ++ σ)
    (hround : Runs (round S worker loop) τ (.ok (.handle messages)))
    (hids : results.filterMap id ⊆ messages.map QueuedMessage.messageId)
    (hcode : After (ackDone results) σ code) : Since S worker loop since (.acking code)
  | stopped (hround : Runs (round S worker loop) (callsBy (.loop worker loop) since) (.ok .stop)) :
    Since S worker loop since .stopped

/-- The round has returned: there was nothing to hand over, or that is being handled or acknowledged. -/
def Lane.RoundOver : Lane P → Prop
  | running (.ret _) | handling _ | acking _ | stopped => True
  | running (.op _ _) | running (.raise _) => False

/-- A handler returns its message's id, or nothing. -/
theorem eq_of_handled {m : QueuedMessage P} {τ : List (Call Op.Reply)} {r : Option Nat}
    (h : Runs (handleOne S m) τ (.ok r)) : ∀ i ∈ r, i = m.messageId := by
  rcases handled_cases h with ⟨-, -, heq, -⟩ | ⟨e, τ₁, reply, -, -, heq, -⟩ | ⟨-, -, heq, -⟩
  · rw [Except.ok.inj heq]
    exact fun i hi => (Option.some.inj hi).symm
  · rw [Except.ok.inj heq]
    exact fun i hi => absurd hi (by simp)
  · rw [Except.ok.inj heq]
    exact fun i hi => absurd hi (by simp)

namespace Lane.Since

variable {worker : Nat} {loop : Loop} {since : List (Event P)} {lane lane' : Lane P} {ev : Event P}

/-- The calls of others are none of the loop's. -/
theorem other (h : Since S worker loop since lane) (hev : ev.caller ≠ .loop worker loop) :
    Since S worker loop (since ++ [ev]) lane := by
  have hcalls := callsBy_concat_of_ne since hev
  cases h with
  | running hcode => exact .running (hcalls ▸ hcode)
  | handling hround hcode => exact .handling (hcalls ▸ hround) hcode
  | acking heq hround hids hcode => exact .acking (hcalls.trans heq) hround hids hcode
  | stopped hround => exact .stopped (hcalls ▸ hround)

theorem start : Since S worker loop [] (.running (round S worker loop)) := .running .start

theorem running_call {o : Op P} {k : o.Reply → Code P (Next P)} {reply : o.Reply}
    (h : Since S worker loop since (.running (.op o k))) (hcaller : ev.caller = .loop worker loop)
    (hcall : ev.call = ⟨o, reply⟩) : Since S worker loop (since ++ [ev]) (.running (k reply)) := by
  cases h with
  | running hcode =>
    have hcalls := callsBy_concat_self since ev
    rw [hcaller, hcall] at hcalls
    exact .running (hcalls ▸ hcode.call reply)

theorem acking_call {o : Op P} {k : o.Reply → Code P Unit} {reply : o.Reply}
    (h : Since S worker loop since (.acking (.op o k))) (hcaller : ev.caller = .loop worker loop)
    (hcall : ev.call = ⟨o, reply⟩) : Since S worker loop (since ++ [ev]) (.acking (k reply)) := by
  cases h with
  | acking heq hround hids hcode =>
    have hcalls := callsBy_concat_self since ev
    rw [hcaller, hcall, heq, List.append_assoc] at hcalls
    exact .acking hcalls hround hids (hcode.call reply)

theorem handling_call {hs : List (Handler P)} {i : Nat} {x : Handler P} {o : Op P}
    {k : o.Reply → Code P (Option Nat)} (reply : o.Reply) (h : Since S worker loop since (.handling hs))
    (hx : hs[i]? = some x) (hop : x.code = .op o k) :
    Since S worker loop since (.handling (hs.set i ⟨x.message, true, k reply⟩)) := by
  obtain ⟨hi, rfl⟩ := List.getElem?_eq_some_iff.1 hx
  cases h with
  | handling hround hcode =>
    have hmessages : (hs.set i ⟨hs[i].message, true, k reply⟩).map Handler.message = hs.map Handler.message := by
      rw [List.map_set, ← List.getElem_map Handler.message (h := by simpa using hi), List.set_getElem_self]
    refine .handling (by rwa [hmessages]) fun y hy => ?_
    rcases List.mem_or_eq_of_mem_set hy with hy | rfl
    · exact hcode y hy
    · obtain ⟨σ, hafter⟩ := hcode hs[i] (List.getElem_mem hi)
      rw [hop] at hafter
      exact ⟨_, hafter.call reply⟩

/-- Without a call the loop goes on in its round, or begins another one. -/
theorem move (h : Since S worker loop since lane) (hmove : lane.move S worker loop = some lane') :
    Since S worker loop since lane' ∨ Since S worker loop [] lane' := by
  cases h with
  | @running code hcode =>
    cases code with
    | op o k => cases hmove
    | raise e => cases hmove
    | ret next =>
      have hruns := hcode.runs (.ret next)
      rw [List.append_nil] at hruns
      cases next with
      | stop => exact Or.inl (Option.some.inj hmove ▸ .stopped hruns)
      | again => exact Or.inr (Option.some.inj hmove ▸ start)
      | handle messages =>
        obtain rfl := Option.some.inj hmove
        refine Or.inl (.handling (by simpa [Function.comp_def] using hruns) fun x hx => ?_)
        obtain ⟨m, -, rfl⟩ := List.mem_map.1 hx
        exact ⟨[], .start⟩
  | @handling hs hround hcode =>
    obtain ⟨results, hresults, rfl⟩ := Option.map_eq_some_iff.1 hmove
    refine Or.inl (.acking (List.append_nil _).symm hround (fun i hi => ?_) .start)
    -- what is acknowledged was returned by a handler, for its message
    have hall := forall₂_of_mapM hresults
    rw [List.forall₂_iff_get] at hall
    obtain ⟨r, hr, hri⟩ := List.mem_filterMap.1 hi
    obtain ⟨n, hn, rfl⟩ := List.getElem_of_mem hr
    have hn' : n < hs.length := hall.1 ▸ hn
    obtain ⟨σ, hafter⟩ := hcode _ (List.get_mem hs ⟨n, hn'⟩)
    have heq := eq_of_handled (runs_of_result hafter (hall.2 n hn' hn)) i hri
    rw [List.map_map, heq]
    exact List.mem_map_of_mem (List.get_mem hs ⟨n, hn'⟩)
  | @acking τ σ messages results code heq hround hids hcode =>
    cases code with
    | op o k => cases hmove
    | raise e => cases hmove
    | ret u => exact Or.inr (Option.some.inj hmove ▸ start)
  | stopped => cases hmove

/-- The calls since the round began are the first ones of a run of the round, and all of them if it is over; then
some of what it handed over may have been acknowledged. -/
theorem calls (h : Since S worker loop since lane) :
    ∃ τ σ ρ x, callsBy (.loop worker loop) since = τ ++ σ ∧ Runs (round S worker loop) (τ ++ ρ) x ∧
      (lane.RoundOver → ρ = []) ∧ ∀ c ∈ σ, ρ = [] ∧ ∃ messages ids, x = .ok (.handle messages) ∧
        ids ⊆ messages.map QueuedMessage.messageId ∧ c.op = .xack ids := by
  have hwhole : ∀ {x}, Runs (round S worker loop) (callsBy (.loop worker loop) since) x →
      ∃ τ σ ρ x, callsBy (.loop worker loop) since = τ ++ σ ∧ Runs (round S worker loop) (τ ++ ρ) x ∧
        (lane.RoundOver → ρ = []) ∧ ∀ c ∈ σ, ρ = [] ∧ ∃ messages ids, x = .ok (.handle messages) ∧
          ids ⊆ messages.map QueuedMessage.messageId ∧ c.op = .xack ids := by
    intro x hruns
    exact ⟨_, [], [], x, (List.append_nil _).symm, by rwa [List.append_nil], fun _ => rfl, by simp⟩
  cases h with
  | @running code hcode =>
    obtain ⟨ρ, x, hrest⟩ := Prog.exists_runs nonempty_reply code
    refine ⟨_, [], ρ, x, (List.append_nil _).symm, hcode.runs hrest, fun hover => ?_, by simp⟩
    cases code with
    | op o k => exact hover.elim
    | raise e => exact hover.elim
    | ret next => exact (runs_ret_iff.1 hrest).1
  | handling hround | stopped hround => exact hwhole hround
  | @acking τ σ messages results code heq hround hids hcode =>
    refine ⟨τ, σ, [], _, heq, by rwa [List.append_nil], fun _ => rfl, fun c hc => ⟨rfl, messages, _, rfl, hids, ?_⟩⟩
    have honly : (ackDone results : Code P Unit).Only fun o => o = .xack (results.filterMap id) := by
      unfold ackDone tryAck ack
      dsimp only
      split
      · trivial
      · exact Only.bind (Only.attempt (only_ask_lift rfl)) fun _ => trivial
    exact (hcode.only honly).1 c hc

end Lane.Since

/-- Every loop has a history since its round began. -/
theorem since_of_chronicle (h : System.Chronicle S s log) : ∀ worker lanes loop, s.workers worker = .up lanes →
    ∃ before since, log = before ++ since ∧ (lanes loop).Since S worker loop since := by
  refine h.keeps (I := fun s log => ∀ worker lanes loop, s.workers worker = .up lanes →
    ∃ before since, log = before ++ since ∧ (lanes loop).Since S worker loop since) (by simp [System.initial]) ?_ ?_
  · intro s t log p o reply _ ih _ _ hgoes j lanes' l hj
    have hother : ∀ lanes₀, p ≠ .loop j l → s.workers j = .up lanes₀ → lanes' l = lanes₀ l →
        ∃ before since, log ++ [⟨p, ⟨o, reply⟩, s.world, t.world⟩] = before ++ since ∧
          (lanes' l).Since S j l since := by
      intro lanes₀ hp hold heq
      obtain ⟨before, since, rfl, hsince⟩ := ih j lanes₀ l hold
      exact ⟨before, _, List.append_assoc .., heq ▸ hsince.other hp⟩
    have hlane : ∀ {worker : Nat} {lanes : Loop → Lane P} {loop : Loop} {lane : Lane P}, s.workers worker = .up lanes →
        t.workers = s.setWorker worker (.up (Worker.setLane lanes loop lane)) →
        (p = .loop worker loop ∨ ∃ i, p = .handler worker loop i) →
        (∀ since, (lanes loop).Since S worker loop since →
          lane.Since S worker loop (since ++ [⟨p, ⟨o, reply⟩, s.world, t.world⟩])) →
        ∃ before since, log ++ [⟨p, ⟨o, reply⟩, s.world, t.world⟩] = before ++ since ∧
          (lanes' l).Since S j l since := by
      intro worker lanes loop lane hup hworkers hp hcall
      rcases lane_of_setWorker hworkers hup hj l with ⟨rfl, rfl, heq⟩ | ⟨hne, lanes₀, hold, heq⟩
      · obtain ⟨before, since, rfl, hsince⟩ := ih j lanes l hup
        exact ⟨before, _, List.append_assoc .., heq ▸ hcall since hsince⟩
      · refine hother lanes₀ ?_ hold heq
        rintro rfl
        rcases hp with hp | ⟨i, hp⟩
        · obtain ⟨rfl, rfl⟩ := Process.loop.inj hp
          exact hne rfl rfl
        · cases hp
    cases hgoes with
    | client _ _ hworkers => exact hother lanes' (by simp) (hworkers ▸ hj) rfl
    | @booting worker _ _ _ _ hworkers =>
      rw [hworkers] at hj
      unfold System.setWorker at hj
      split at hj
      · cases hj
      · exact hother lanes' (by simp) hj rfl
    | running hup hcode hworkers =>
      exact hlane hup hworkers (Or.inl rfl) fun since hsince => (hcode ▸ hsince).running_call rfl rfl
    | acking hup hcode hworkers =>
      exact hlane hup hworkers (Or.inl rfl) fun since hsince => (hcode ▸ hsince).acking_call rfl rfl
    | @handler worker lanes loop hs i x _ k _ hup hcode hx hop hworkers =>
      refine hlane hup hworkers (Or.inr ⟨i, rfl⟩) fun since hsince => ?_
      exact ((hcode ▸ hsince).handling_call reply hx hop).other (by simp)
  · intro s t log ih _ _ hsilent j lanes' l hj
    cases hsilent with
    | environment hworkers | request _ hworkers => exact ih j lanes' l (hworkers ▸ hj)
    | @shift worker x hshift hworkers =>
      generalize hw : s.workers worker = old at hshift
      have hold : j ≠ worker → ∃ before since, log = before ++ since ∧ (lanes' l).Since S j l since := by
        intro hne
        rw [hworkers, s.setWorker_of_ne _ hne] at hj
        exact ih j lanes' l hj
      by_cases hjw : j = worker
      · subst hjw
        cases hshift with
        | started | ended =>
          rw [hworkers, s.setWorker_self] at hj
          cases hj
        | entered =>
          rw [hworkers, s.setWorker_self] at hj
          rw [← Worker.up.inj hj]
          exact ⟨log, [], (List.append_nil _).symm, .start⟩
        | moved hmove =>
          rcases lane_of_setWorker hworkers hw hj l with ⟨-, rfl, heq⟩ | ⟨-, lanes₀, hold, heq⟩
          · obtain ⟨before, since, rfl, hsince⟩ := ih j _ l hw
            rcases hsince.move hmove with hsame | hnew
            · exact ⟨before, since, rfl, heq ▸ hsame⟩
            · exact ⟨_, [], (List.append_nil _).symm, heq ▸ hnew⟩
          · rw [heq]
            exact ih j lanes₀ l hold
      · exact hold hjw

/-! ## The worlds of a history -/

theorem mem_callsBy {p : Process} {c : Call (@Op.Reply P)} :
    c ∈ callsBy p log ↔ ∃ ev ∈ log, ev.caller = p ∧ ev.call = c := by
  simp only [callsBy, List.mem_map, List.mem_filter, decide_eq_true_eq, and_assoc]

/-- The calls of a history were made one after the other. -/
theorem System.Chronicle.pairwise_le (h : Chronicle S s log) : log.Pairwise fun ev ev' => Le ev.after ev'.before := by
  refine h.keeps (I := fun _ log => log.Pairwise fun ev ev' => Le ev.after ev'.before) .nil ?_ ?_
  · intro s t log p o reply hlog ih _ _ _
    refine List.pairwise_append.2 ⟨ih, List.pairwise_singleton .., fun ev hev ev' hev' => ?_⟩
    rw [List.mem_singleton.1 hev']
    exact hlog.le ev hev
  · intro s t log ih _ _ _
    exact ih

/-- What a process calls next it calls in a later world. -/
theorem exists_le_of_callsBy (h : log.Pairwise fun ev ev' => Le ev.after ev'.before) {p : Process}
    {before after : List (Call (@Op.Reply P))} {c c' : Call (@Op.Reply P)}
    (heq : callsBy p log = before ++ c :: c' :: after) :
    ∃ ev ∈ log, ∃ ev' ∈ log, ev.call = c ∧ ev'.call = c' ∧ Le ev.after ev'.before := by
  obtain ⟨l₁, l₂, hlog, -, hl₂⟩ := List.map_eq_append_iff.1 heq
  obtain ⟨ev, l₃, rfl, hcall, hl₃⟩ := List.map_eq_cons_iff.1 hl₂
  obtain ⟨ev', l₄, rfl, hcall', -⟩ := List.map_eq_cons_iff.1 hl₃
  have hsub : [ev, ev'].Sublist log := by
    refine List.Sublist.trans ?_ (List.filter_sublist (p := fun ev => decide (ev.caller = p)))
    rw [hlog]
    exact (((List.nil_sublist l₄).cons_cons ev').cons_cons ev).trans (List.sublist_append_right ..)
  exact ⟨ev, hsub.subset (by simp), ev', hsub.subset (by simp), hcall, hcall',
    List.rel_of_pairwise_cons (h.sublist hsub) (List.mem_singleton_self _)⟩

/-- Each in a world that is in order. -/
theorem System.Chronicle.made (h : Chronicle S s log) : ∀ ev ∈ log, ev.Made S ∧ Inv S ev.before := by
  intro ev hev
  obtain ⟨l, l', rfl⟩ := List.append_of_mem hev
  exact h.throughout (Q := fun _ ev => ev.Made S ∧ Inv S ev.before)
    (fun _ _ _ _ _ _ hlog _ hmade _ => ⟨hmade, (ok_of_reachable (hlog.reachable S)).inv⟩) l ev ⟨l', by simp⟩

end App
