/-
Who wrote which row. The calls that share a world are told apart by a history kept beside the world:
which call opened each session, and by whose commit each row became permanent. The history only
grows, so what it says of a call stays true whatever the other calls do.
-/
import EventService.Program.Rely
import EventService.Run.Calls

namespace App

open Store Prog

variable {P : Type} (S : Service P)

/-- A world with its history: `opened` are the sessions with the calls that opened them, `written` the
rows with the sessions whose commits made them permanent. -/
structure Attributed (P : Type) where
  world : World P
  opened : List (Nat × Nat)
  written : List (Nat × Values)

namespace Attributed

/-- The history goes on: the world is `w` now, after a step of the call. -/
def after (g : Attributed P) (call : Nat) (w : World P) : Attributed P where
  world := w
  opened := g.opened ++
    (List.range' g.world.table.nextSession (w.table.nextSession - g.world.table.nextSession)).map fun s => (s, call)
  written := g.written ++ g.world.table.uncommitted.filter fun u => u.2 ∈ w.table.rows

/-- One operation of a call. -/
def exec (call : Nat) (o : Op P) (c : Choice) (g : Attributed P) : Option (o.Reply × Attributed P) :=
  (World.exec S o c g.world).map fun r => (r.1, g.after call r.2)

/-- `g'` may be later than `g`. -/
structure Le (g g' : Attributed P) : Prop where
  table : g.world.table.Le g'.world.table
  opened : g.opened <+: g'.opened
  written : g.written <+: g'.written
  staged : ∀ u ∈ g.world.table.uncommitted, u.1 ∈ g'.world.table.live →
    u ∈ g'.world.table.uncommitted ∨ u ∈ g'.written

theorem Le.refl (g : Attributed P) : Le g g :=
  ⟨Table.Le.refl _, List.prefix_rfl, List.prefix_rfl, fun _ hu _ => Or.inl hu⟩

theorem Le.trans {g₁ g₂ g₃ : Attributed P} (h : Le g₁ g₂) (h' : Le g₂ g₃) : Le g₁ g₃ where
  table := h.table.trans h'.table
  opened := h.opened.trans h'.opened
  written := h.written.trans h'.written
  staged := by
    intro u hu hlive
    -- a session that is live at the end was live in between
    have hbegun := h.table.begun _ (g₁.world.table.alive _ (g₁.world.table.owned u hu))
    rcases h.staged u hu (h'.table.ended _ hbegun hlive) with hu' | hu'
    · exact h'.staged u hu' hlive
    · exact Or.inr (h'.written.subset hu')

/-- A step that only lets the table grow. -/
theorem Le.after {g : Attributed P} {w : World P} (call : Nat) (h : g.world.table.Le w.table) :
    Le g (g.after call w) where
  table := h
  opened := List.prefix_append ..
  written := List.prefix_append ..
  staged := by
    intro u hu hlive
    refine (h.staged u hu hlive).imp_right fun hrow => ?_
    exact List.mem_append_right _ (List.mem_filter.2 ⟨hu, by simpa using hrow⟩)

/-- A step of nobody's that leaves the committed rows as they are. -/
theorem Le.environment {g : Attributed P} {w : World P} (h : g.world.table.Le w.table)
    (hrows : w.table.rows = g.world.table.rows) : Le g { g with world := w } where
  table := h
  opened := List.prefix_rfl
  written := List.prefix_rfl
  staged := by
    intro u hu hlive
    refine (h.staged u hu hlive).imp_right fun hrow => ?_
    rw [hrows] at hrow
    exact absurd hrow (Table.not_mem_rows_of_uncommitted hu)

end Attributed

/-! ## What an operation does to the table -/

/-- The changes of the table one operation may make. -/
inductive TableStep (t : Table Values.id) : Table Values.id → Prop
  | same : TableStep t t
  | opened : TableStep t t.openSession.2
  | closed (s : Nat) : TableStep t (t.closeSession s)
  | committed (s : Nat) : TableStep t (t.commit s)
  | conflict {s : Nat} {v : Values} {t' : Table Values.id} (h : t.insert s v = .conflict t') : TableStep t t'
  | inserted {s : Nat} {v : Values} {t' : Table Values.id} (h : t.insert s v = .inserted t') : TableStep t t'

theorem TableStep.le {t t' : Table Values.id} (h : TableStep t t') : t.Le t' := by
  cases h with
  | same => exact Table.Le.refl t
  | opened => exact Table.Le.openSession t
  | closed s => exact Table.Le.closeSession t s
  | committed s => exact Table.Le.commit t s
  | conflict h => exact (Table.of_conflict h).1
  | inserted h => exact (Table.of_inserted h).1

/-- Session numbers only go up. -/
theorem TableStep.nextSession_le {t t' : Table Values.id} (h : TableStep t t') : t.nextSession ≤ t'.nextSession := by
  cases h with
  | same => exact le_rfl
  | opened => exact Nat.le_succ _
  | closed s => exact le_rfl
  | committed s => exact le_rfl
  | conflict h => exact (Table.nextSession_insert (Or.inl h)).ge
  | inserted h => exact (Table.nextSession_insert (Or.inr h)).ge

/-- The rows a step adds were under way. -/
theorem TableStep.rows {t t' : Table Values.id} (h : TableStep t t') :
    t'.rows = t.rows ++ (t.uncommitted.filter fun u => u.2 ∈ t'.rows).map Prod.snd := by
  have hsame : t'.rows = t.rows → t'.rows = t.rows ++ (t.uncommitted.filter fun u => u.2 ∈ t'.rows).map Prod.snd := by
    intro hrows
    rw [hrows, List.filter_eq_nil_iff.2 fun u hu => by simpa using Table.not_mem_rows_of_uncommitted hu]
    simp
  cases h with
  | same => exact hsame rfl
  | opened => exact hsame rfl
  | closed s => exact hsame rfl
  | committed s => exact Table.rows_commit t s
  | conflict h => exact hsame (Table.of_conflict h).2.1
  | inserted h => exact hsame (Table.of_inserted h).2.1

variable {S}

theorem tableStep_of_exec {o : Op P} {c : Choice} {w w' : World P} {r : o.Reply}
    (h : World.exec S o c w = some (r, w')) : TableStep w.table w'.table := by
  rcases changed_of_exec h with rfl | hchanged
  · exact .same
  · cases hchanged with
    | deadLetter k =>
      unfold World.deadLetterExec
      split <;> exact .same
    | openSession => exact .opened
    | conflict hins => exact .conflict hins
    | inserted hins => exact .inserted hins
    | commit _ => exact .committed _
    | close => exact .closed _
    | xadd | xgroupCreate | xreadgroup | xautoclaim | xpending | xack | set | fetch | record => exact .same

/-! ## What a reply of the database tells -/

/-- A command that was answered was applied. -/
theorem applied_of_command {α : Type} {c : Choice} {w w' : World P} {r : Except Foreign α × World P} {a : α}
    (h : c.command w r = (.ok a, w')) : r = (.ok a, w') := by
  unfold Choice.command at h
  split at h
  · exact h
  · cases (Prod.mk.inj h).1
  · cases (Prod.mk.inj h).1

/-- No failure of the connection is a violated constraint, so such a failure is the command's own. -/
theorem violated_of_command {α : Type} {c : Choice} {w w' : World P} {r : Except Foreign α × World P}
    {e : Foreign} (hc : c.connection = true) (he : e.cls = .integrityError)
    (h : c.command w r = (.error e, w')) : r = (.error e, w') := by
  unfold Choice.command at h
  unfold Choice.connection at hc
  split at h
  · exact h
  · rename_i hfault
    obtain ⟨heq, -⟩ := Prod.mk.inj h
    rw [hfault, Except.error.inj heq] at hc
    simp [he] at hc
  · rename_i hfault
    obtain ⟨heq, -⟩ := Prod.mk.inj h
    rw [hfault, Except.error.inj heq] at hc
    simp [he] at hc

theorem openSession_reply {c : Choice} {w w' : World P} {s : Nat}
    (h : World.exec S .openSession c w = some (.ok s, w')) :
    s = w.table.nextSession ∧ w'.table = w.table.openSession.2 := by
  simp only [World.exec] at h
  split at h
  · obtain ⟨hs, rfl⟩ := Prod.mk.inj (applied_of_command (Option.some.inj h))
    exact ⟨(Except.ok.inj hs).symm, rfl⟩
  · cases h

/-- A row count of one means that the row went in, any other that its key is taken. -/
theorem execute_reply {session n : Nat} {stmt : InsertStatement} {c : Choice} {w w' : World P}
    (h : World.exec S (.execute session stmt) c w = some (.ok n, w')) :
    (n = 0 ∧ w.table.insert session stmt.values = .conflict w'.table) ∨
      (n = 1 ∧ w.table.insert session stmt.values = .inserted w'.table) := by
  obtain ⟨-, ⟨r, hr, heq⟩ | ⟨-, e, herr, -⟩⟩ := World.exec_execute_cases S h
  swap
  · cases herr
  obtain rfl := applied_of_command heq
  unfold World.insertExec at hr
  split at hr
  swap
  · cases (Prod.mk.inj (Option.some.inj hr)).1
  split at hr
  · cases (Prod.mk.inj (Option.some.inj hr)).1
  · cases hr
  · rename_i t hins
    split at hr
    · obtain ⟨hn, rfl⟩ := Prod.mk.inj (Option.some.inj hr)
      exact Or.inl ⟨(Except.ok.inj hn).symm, hins⟩
    · cases (Prod.mk.inj (Option.some.inj hr)).1
  · rename_i t hins
    obtain ⟨hn, rfl⟩ := Prod.mk.inj (Option.some.inj hr)
    exact Or.inr ⟨(Except.ok.inj hn).symm, hins⟩

/-- A violated constraint means that the key is taken. -/
theorem execute_violation {session : Nat} {stmt : InsertStatement} {c : Choice} {w w' : World P} {e : Foreign}
    (he : e.cls = .integrityError) (h : World.exec S (.execute session stmt) c w = some (.error e, w')) :
    w'.table.Has stmt.values.id := by
  obtain ⟨hc, ⟨r, hr, heq⟩ | ⟨-, e', herr, hfault⟩⟩ := World.exec_execute_cases S h
  swap
  · -- the failure of an insert that waits is one of the connection
    obtain rfl := Except.error.inj herr
    exact absurd he (connection_fault hc hfault)
  obtain rfl := violated_of_command hc he heq
  unfold World.insertExec at hr
  split at hr
  swap
  · obtain ⟨heq', -⟩ := Prod.mk.inj (Option.some.inj hr)
    rw [← Except.error.inj heq'] at he
    cases he
  split at hr
  · obtain ⟨heq', -⟩ := Prod.mk.inj (Option.some.inj hr)
    rw [← Except.error.inj heq'] at he
    cases he
  · cases hr
  · rename_i t hins
    split at hr
    · cases (Prod.mk.inj (Option.some.inj hr)).1
    · rw [← (Prod.mk.inj (Option.some.inj hr)).2]
      exact (Table.of_conflict hins).2.2.2.1
  · cases (Prod.mk.inj (Option.some.inj hr)).1

theorem commit_reply {session : Nat} {c : Choice} {w w' : World P}
    (h : World.exec S (.commit session) c w = some (.ok (), w')) :
    session ∈ w.table.live ∧ w'.table = w.table.commit session := by
  simp only [World.exec] at h
  split at h
  · have happlied := applied_of_command (Option.some.inj h)
    unfold World.commitExec at happlied
    split at happlied
    · rename_i hlive
      rw [← (Prod.mk.inj happlied).2]
      exact ⟨hlive, rfl⟩
    · cases (Prod.mk.inj happlied).1
  · cases h

/-- A command that violates no constraint itself is not answered as if it had. -/
theorem no_violation {α : Type} {c : Choice} {w w' : World P} {r : Except Foreign α × World P} {e : Foreign}
    (hc : c.connection = true) (hr : ∀ e', r.1 = .error e' → e'.cls ≠ .integrityError)
    (h : c.command w r = (.error e, w')) : e.cls ≠ .integrityError :=
  fun he => hr e (congrArg Prod.fst (violated_of_command hc he h)) he

theorem openSession_error {c : Choice} {w w' : World P} {e : Foreign}
    (h : World.exec S .openSession c w = some (.error e, w')) : e.cls ≠ .integrityError := by
  simp only [World.exec] at h
  split at h
  · rename_i hc
    exact no_violation hc (by rintro e' ⟨⟩) (Option.some.inj h)
  · cases h

theorem close_error {session : Nat} {c : Choice} {w w' : World P} {e : Foreign}
    (h : World.exec S (.close session) c w = some (.error e, w')) : e.cls ≠ .integrityError := by
  simp only [World.exec] at h
  split at h
  · rename_i hc
    exact no_violation hc (by rintro e' ⟨⟩) (Option.some.inj h)
  · cases h

theorem commit_error {session : Nat} {c : Choice} {w w' : World P} {e : Foreign}
    (h : World.exec S (.commit session) c w = some (.error e, w')) : e.cls ≠ .integrityError := by
  simp only [World.exec] at h
  split at h
  · rename_i hc
    refine no_violation hc (fun e' he' => ?_) (Option.some.inj h)
    unfold World.commitExec at he'
    split at he'
    · cases he'
    · rw [← Except.error.inj he']
      decide
  · cases h

/-! ## Calls that share a world -/

variable (S) in
/-- The worlds of one call and of all the others. -/
def attribution (call : Nat) : Protocol (Op P) Op.Reply (Attributed P) Choice where
  exec := Attributed.exec S call
  inv := fun _ => True
  le := Attributed.Le
  refl := Attributed.Le.refl
  trans := Attributed.Le.trans

/-- The code of a call runs so that it returns only with `Q` and raises only with `E`. -/
abbrev Attests (S : Service P) (call : Nat) {α : Type} (Q : α → Attributed P → Prop)
    (E : Exn → Attributed P → Prop) (p : Code P α) (g : Attributed P) : Prop :=
  (attribution S call).Ok Q E p g

/-- As long as its session is under way, the row is the session's own or was written by its commit. -/
def Staged (g : Attributed P) (session : Nat) (v : Values) : Prop :=
  session ∈ g.world.table.begun ∧ (session ∈ g.world.table.live →
    (session, v) ∈ g.world.table.uncommitted ∨ (session, v) ∈ g.written)

theorem Staged.mono {g g' : Attributed P} (h : g.Le g') {session : Nat} {v : Values} (hs : Staged g session v) :
    Staged g' session v := by
  refine ⟨h.table.begun _ hs.1, fun hlive => ?_⟩
  rcases hs.2 (h.table.ended _ hs.1 hlive) with hstaged | hwritten
  · exact h.staged _ hstaged hlive
  · exact Or.inr (h.written.subset hwritten)

section Rules

variable {call : Nat} {α β : Type} {Q : α → Attributed P → Prop} {R : β → Attributed P → Prop}
  {E F : Exn → Attributed P → Prop} {g : Attributed P}

/-- One call of the code, and what follows it. -/
theorem attests_ask_bind {o : Op P} {f : o.Reply → Code P β}
    (h : ∀ c r g₁ g₂, g.Le g₁ → g₁.Le g₂ → World.exec S o c g₁.world = some (r, g₂.world) →
      Attributed.exec S call o c g₁ = some (r, g₂) → Attests S call R E (f r) g₂) :
    Attests S call R E (ask o >>= f) g := by
  intro g₁ hle _ c r g₂ hx
  obtain ⟨⟨r', w⟩, hexec, heq⟩ := Option.map_eq_some_iff.1 hx
  obtain ⟨rfl, rfl⟩ := Prod.mk.inj heq
  have hle' := Attributed.Le.after call (tableStep_of_exec hexec).le
  exact ⟨trivial, hle', h c r' g₁ _ hle hle' hexec hx⟩

/-- Whatever code does, it lets the history go on. -/
theorem attests_any (p : Code P α) (g : Attributed P) : Attests S call (fun _ _ => True) (fun _ _ => True) p g := by
  induction p generalizing g with
  | ret a => trivial
  | raise e => trivial
  | op o k ih => exact attests_ask_bind fun c r g₁ g₂ _ _ _ _ => ih r g₂

end Rules

end App
