/-
The calls of the service's code as traces: one call whose failure is raised, and what the answers of
a world say about it.
-/
import EventService.Program.Trace
import EventService.Model.Effects

namespace App

open Prog Store

variable {P : Type} (S : Service P)

/-- Every call has an answer. -/
theorem nonempty_reply (o : Op P) : Nonempty o.Reply := by
  have hfailed : ∀ {α : Type}, Nonempty (Except Foreign α) := ⟨.error ⟨.redisError, ""⟩⟩
  cases o with
  | now => exact ⟨0⟩
  | uniform hi => exact ⟨0⟩
  | sleep seconds => exact ⟨()⟩
  | stopIsSet i => exact ⟨false⟩
  | record currency rate => exact ⟨()⟩
  | fetch currency => exact ⟨.error (.foreign ⟨.redisError, ""⟩)⟩
  | _ => exact hfailed

/-- A reply as the code hands it on. -/
def raised {α : Type} : Except Foreign α → Except Exn α
  | .ok a => .ok a
  | .error e => .error (.foreign e)

theorem raised_ok_iff {α : Type} {r : Except Foreign α} {a : α} : raised r = .ok a ↔ r = .ok a := by
  cases r <;> simp [raised]

theorem raised_error_iff {α : Type} {r : Except Foreign α} :
    (∃ e, raised r = .error e) ↔ ∃ e, r = .error e := by
  cases r <;> simp [raised]

theorem runs_lift_iff {α : Type} {r : Except Foreign α} {τ : List (Call Op.Reply)} {x : Except Exn α} :
    Runs (lift r : Code P α) τ x ↔ τ = [] ∧ x = raised r := by
  cases r with
  | ok a => exact runs_ret_iff
  | error e => exact runs_raise_iff

/-- One call whose failure is raised. -/
theorem runs_ask_lift_iff {α : Type} {o : Op P} {f : o.Reply → Except Foreign α} {τ : List (Call Op.Reply)}
    {x : Except Exn α} :
    Runs ((ask o).bind fun r => lift (f r)) τ x ↔ ∃ r, τ = [⟨o, r⟩] ∧ x = raised (f r) := by
  unfold ask
  rw [perform_bind, runs_op_iff]
  constructor
  · rintro ⟨r, τ', rfl, h⟩
    obtain ⟨rfl, rfl⟩ := runs_lift_iff.1 h
    exact ⟨r, rfl, rfl⟩
  · rintro ⟨r, rfl, rfl⟩
    exact ⟨r, [], rfl, runs_lift_iff.2 ⟨rfl, rfl⟩⟩

/-- It makes no other call. -/
theorem only_ask_lift {α : Type} {A : Op P → Prop} {o : Op P} {f : o.Reply → Except Foreign α} (h : A o) :
    ((ask o).bind fun r => lift (f r)).Only A := by
  refine Only.bind (only_perform h) fun r => ?_
  cases f r <;> trivial

/-- A command is not applied, or is. -/
theorem command_world {α : Type} {c : Choice} {w w' : World P} {r : Except Foreign α × World P}
    {reply : Except Foreign α} (h : c.command w r = (reply, w')) : w' = w ∨ w' = r.2 := by
  unfold Choice.command at h
  split at h
  · rw [h]
    exact Or.inr rfl
  · exact Or.inl (Prod.mk.inj h).2.symm
  · exact Or.inr (Prod.mk.inj h).2.symm

/-! ## What a call changes -/

/-- The worlds a call may leave behind, if not the one it found. -/
inductive Changed (w : World P) : Op P → World P → Prop
  | xadd {payload : P} (k : Nat) : Changed w (.xadd payload)
    { w with stream := (w.stream.addCapped S.settings.streamMaxLen k payload).2 }
  | xgroupCreate {s : Stream P} (h : w.stream.createGroup = some s) :
    Changed w .xgroupCreate { w with stream := s }
  | xreadgroup {consumer count : Nat} {es : List (Entry P)} {s : Stream P}
    (h : w.stream.readNew consumer w.now count = .ok (es, s)) :
    Changed w (.xreadgroup consumer count) { w with stream := s }
  | xautoclaim {consumer minIdle count : Nat} {r : List (Entry P × Nat) × List Nat} {s : Stream P}
    (h : w.stream.autoclaim consumer w.now minIdle count = .ok (r, s)) :
    Changed w (.xautoclaim consumer minIdle count) { w with stream := s, vanished := w.vanished ++ r.2 }
  | xpending {consumer count : Nat} {wanted r : List (Nat × Nat)}
    (h : w.stream.pendingOf consumer count = .ok r) :
    Changed w (.xpending consumer count wanted) { w with lookups := w.lookups ++ [(wanted, r)] }
  | xack {ids : List Nat} : Changed w (.xack ids) { w with stream := (w.stream.ack ids).2 }
  | deadLetter {entry : DlqRecord P} (k : Nat) : Changed w (.deadLetter entry) (w.deadLetterExec S k entry).2
  | set {key value : PyStr} : Changed w (.set key value) { w with cache := (key, value) :: w.cache }
  | fetch {currency : PyStr} (r : Except Exn Decimal) :
    Changed w (.fetch currency) { w with fetched := w.fetched ++ [(currency, r)] }
  | openSession : Changed w .openSession { w with table := w.table.openSession.2 }
  | conflict {session : Nat} {stmt : InsertStatement} {t : Table Values.id}
    (h : w.table.insert session stmt.values = .conflict t) :
    Changed w (.execute session stmt) { w with table := t }
  | inserted {session : Nat} {stmt : InsertStatement} {t : Table Values.id}
    (h : w.table.insert session stmt.values = .inserted t) :
    Changed w (.execute session stmt) { w with table := t }
  | commit {session : Nat} (h : session ∈ w.table.live) :
    Changed w (.commit session) { w with table := w.table.commit session }
  | close {session : Nat} : Changed w (.close session) { w with table := w.table.closeSession session }
  | record {currency : PyStr} {rate : Decimal} :
    Changed w (.record currency rate) { w with rates := w.rates ++ [(currency, rate)] }

variable {S}

theorem changed_of_command {α : Type} {o : Op P} {c : Choice} {w w' : World P} {r : Except Foreign α × World P}
    {reply : Except Foreign α} (hr : r.2 = w ∨ Changed S w o r.2) (h : c.command w r = (reply, w')) :
    w' = w ∨ Changed S w o w' := by
  rcases command_world h with rfl | rfl
  · exact Or.inl rfl
  · exact hr

/-- An insert waits only for a row with its key. -/
theorem insertExec_eq_none_iff {w : World P} {session : Nat} {stmt : InsertStatement} :
    w.insertExec session stmt = none ↔ stmt.values.fits = true ∧ w.table.insert session stmt.values = .waits := by
  unfold World.insertExec
  split
  · rename_i hfits
    cases hins : w.table.insert session stmt.values with
    | closed | inserted => simp
    | waits => simp [hfits]
    | conflict t =>
      dsimp only
      split <;> simp
  · rename_i hfits
    simp [hfits]

theorem changed_of_insertExec {w : World P} {session : Nat} {stmt : InsertStatement}
    {r : Except Foreign Nat × World P} (h : w.insertExec session stmt = some r) :
    r.2 = w ∨ Changed S w (.execute session stmt) r.2 := by
  unfold World.insertExec at h
  split at h
  · split at h
    · rw [← Option.some.inj h]
      exact Or.inl rfl
    · cases h
    · rename_i t hins
      split at h
      · rw [← Option.some.inj h]
        exact Or.inr (.conflict hins)
      · rw [← Option.some.inj h]
        exact Or.inl rfl
    · rename_i t hins
      rw [← Option.some.inj h]
      exact Or.inr (.inserted hins)
  · rw [← Option.some.inj h]
    exact Or.inl rfl

/-- Whatever the environment decides, a call leaves the world as it is or changes it in its own way. -/
theorem changed_of_exec {o : Op P} {c : Choice} {w w' : World P} {r : o.Reply}
    (h : World.exec S o c w = some (r, w')) : w' = w ∨ Changed S w o w' := by
  have hsame : ∀ {x : o.Reply × World P}, x.2 = w → x = (r, w') → w' = w := by
    rintro x hx rfl
    exact hx
  cases o with
  | xadd payload => exact changed_of_command (Or.inr (.xadd c.trim)) (Option.some.inj h)
  | xgroupCreate =>
    refine changed_of_command ?_ (Option.some.inj h)
    split
    · exact Or.inl rfl
    · rename_i s hs
      exact Or.inr (.xgroupCreate hs)
  | xreadgroup consumer count =>
    refine changed_of_command ?_ (Option.some.inj h)
    unfold World.groupCommand
    split
    · exact Or.inl rfl
    · rename_i es s hs
      exact Or.inr (.xreadgroup hs)
  | xautoclaim consumer minIdle count =>
    refine changed_of_command ?_ (Option.some.inj h)
    split
    · exact Or.inl rfl
    · rename_i r s hs
      exact Or.inr (.xautoclaim hs)
  | xpending consumer count wanted =>
    simp only [World.exec] at h
    split at h
    · rename_i r _ hr
      rw [← (Prod.mk.inj (Option.some.inj h)).2]
      exact Or.inr (.xpending hr)
    · exact Or.inl (hsame rfl (Option.some.inj h))
    · exact Or.inl (hsame rfl (Option.some.inj h))
    · exact Or.inl (hsame rfl (Option.some.inj h))
  | xack ids => exact changed_of_command (Or.inr .xack) (Option.some.inj h)
  | deadLetter entry => exact changed_of_command (Or.inr (.deadLetter c.trim)) (Option.some.inj h)
  | xlenDlq =>
    refine changed_of_command (Or.inl ?_) (Option.some.inj h)
    split <;> rfl
  | xlen | xinfoGroups | get key => exact changed_of_command (Or.inl rfl) (Option.some.inj h)
  | set key value => exact changed_of_command (Or.inr .set) (Option.some.inj h)
  | fetch currency =>
    simp only [World.exec] at h
    unfold World.fetchExec at h
    split at h
    · split at h
      · rw [← (Prod.mk.inj (Option.some.inj h)).2]
        exact Or.inr (.fetch _)
      · cases h
    · rw [← (Prod.mk.inj (Option.some.inj h)).2]
      exact Or.inr (.fetch _)
  | openSession =>
    simp only [World.exec] at h
    split at h
    · exact changed_of_command (Or.inr .openSession) (Option.some.inj h)
    · cases h
  | execute session stmt =>
    obtain ⟨-, ⟨x, hx, heq⟩ | ⟨rfl, -⟩⟩ := World.exec_execute_cases S h
    · exact changed_of_command (changed_of_insertExec hx) heq
    · exact Or.inl rfl
  | commit session =>
    simp only [World.exec] at h
    split at h
    · refine changed_of_command ?_ (Option.some.inj h)
      unfold World.commitExec
      split
      · rename_i hlive
        exact Or.inr (.commit hlive)
      · exact Or.inl rfl
    · cases h
  | close session =>
    simp only [World.exec] at h
    split at h
    · exact changed_of_command (Or.inr .close) (Option.some.inj h)
    · cases h
  | uniform hi =>
    simp only [World.exec] at h
    split at h
    · exact Or.inl (hsame rfl (Option.some.inj h))
    · cases h
  | now | sleep | stopIsSet => exact Or.inl (hsame rfl (Option.some.inj h))
  | record currency rate =>
    rw [← (Prod.mk.inj (Option.some.inj h)).2]
    exact Or.inr .record

/-- A read of the cache changes nothing. -/
theorem exec_get {key : PyStr} {c : Choice} {w w' : World P} {r : Except Foreign (Option PyStr)}
    (h : World.exec S (.get key) c w = some (r, w')) : w' = w := by
  rcases changed_of_exec h with rfl | hchanged
  · rfl
  · cases hchanged

/-- The rate source has no access to the cache. -/
theorem cache_of_exec_fetch {currency : PyStr} {c : Choice} {w w' : World P} {r : Except Exn Decimal}
    (h : World.exec S (.fetch currency) c w = some (r, w')) : w'.cache = w.cache := by
  rcases changed_of_exec h with rfl | hchanged
  · rfl
  · cases hchanged
    rfl

/-- `XAUTOCLAIM` that answers has claimed. -/
theorem exec_xautoclaim_ok {w w₁ : World P} {consumer minIdleMs count : Nat} {c : Choice}
    {r : List (Entry P × Nat) × List Nat}
    (h : World.exec S (.xautoclaim consumer minIdleMs count) c w = some (.ok r, w₁)) :
    ∃ g ∈ w.stream.group, r = ((w.stream.claim g consumer w.now minIdleMs count).claimed,
      (w.stream.claim g consumer w.now minIdleMs count).deleted) ∧
      w₁.stream.group = some (w.stream.claimGroup g consumer w.now minIdleMs count) := by
  have heq := Option.some.inj h
  unfold Choice.command at heq
  split at heq
  · unfold Stream.autoclaim at heq
    split at heq
    · rename_i hclaim
      split at hclaim
      · cases (Prod.mk.inj heq).1
      · cases hclaim
    · rename_i hclaim
      split at hclaim
      · cases hclaim
      · rename_i g hg
        obtain ⟨hr, rfl⟩ := Prod.mk.inj (Except.ok.inj hclaim)
        obtain ⟨hreply, rfl⟩ := Prod.mk.inj heq
        exact ⟨g, hg, (Except.ok.inj hreply).symm.trans hr.symm, rfl⟩
  · cases (Prod.mk.inj heq).1
  · cases (Prod.mk.inj heq).1

/-! ## Calls in a world that nobody else touches -/

variable (S)

/-- One call in a world that nobody else touches. -/
theorem served_single_iff {o : Op P} {r : o.Reply} {w w' : World P} :
    Served (World.exec S) w [⟨o, r⟩] w' ↔ ∃ c, World.exec S o c w = some (r, w') := by
  rw [Served.cons_iff]
  constructor
  · rintro ⟨c, w₁, hexec, hnil⟩
    rw [Served.nil_iff.1 hnil]
    exact ⟨c, hexec⟩
  · rintro ⟨c, hexec⟩
    exact ⟨c, w', hexec, .nil w'⟩

/-- One call whose failure is raised, under one choice of the environment. -/
theorem alone_ask_lift {α : Type} {o : Op P} {f : o.Reply → Except Foreign α} {c : Choice} {w : World P} :
    ((ask o).bind fun r => lift (f r)).alone (World.exec S) [c] w =
      (World.exec S o c w).map fun r => ([⟨o, r.1⟩], raised (f r.1), r.2) := by
  unfold ask
  rw [perform_bind]
  unfold alone
  cases World.exec S o c w with
  | none => rfl
  | some r =>
    simp only [Option.bind_some, Option.map_some]
    cases f r.1 <;> rfl

end App
