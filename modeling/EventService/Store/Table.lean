/-
A table with a unique key, written by sessions. A session's insert begins its transaction: the row
is the session's own until it commits, a row whose key another session is about to commit has to
wait, and a session that ends without a commit leaves nothing behind. Committed rows are never
changed or removed, and no two have the same key.
-/
import Mathlib.Data.List.Nodup
import Mathlib.Data.List.Perm.Basic
import Mathlib.Data.Nat.Basic
import Mathlib.Order.Basic

namespace Store

/-- Committed rows in the order of their commits, the rows of the transactions under way, which
sessions have begun a transaction, and which of these are still under way. -/
structure Table {κ ρ : Type} (key : ρ → κ) where
  rows : List ρ
  uncommitted : List (Nat × ρ)
  nextSession : Nat
  begun : List Nat
  live : List Nat
  unique : ((rows ++ uncommitted.map Prod.snd).map key).Nodup
  opened : ∀ s ∈ begun, s < nextSession
  alive : ∀ s ∈ live, s ∈ begun
  owned : ∀ u ∈ uncommitted, u.1 ∈ live

namespace Table

variable {κ ρ : Type} {key : ρ → κ}

def empty : Table key where
  rows := []
  uncommitted := []
  nextSession := 0
  begun := []
  live := []
  unique := List.nodup_nil
  opened := by simp
  alive := by simp
  owned := by simp

/-- A row with this key is committed. -/
def Has (t : Table key) (k : κ) : Prop := ∃ r ∈ t.rows, key r = k

/-- No row is committed and under way. -/
theorem not_mem_rows_of_uncommitted {t : Table key} {u : Nat × ρ} (hu : u ∈ t.uncommitted) : u.2 ∉ t.rows := by
  have hunique := t.unique
  rw [List.map_append, List.nodup_append] at hunique
  intro hrow
  exact hunique.2.2 _ (List.mem_map_of_mem hrow) _ (List.mem_map_of_mem (List.mem_map_of_mem hu)) rfl

/-- No two rows under way have the same key. -/
theorem eq_of_uncommitted {t : Table key} {u u' : Nat × ρ} (hu : u ∈ t.uncommitted) (hu' : u' ∈ t.uncommitted)
    (h : key u.2 = key u'.2) : u = u' := by
  have hunique := t.unique
  rw [List.map_append, List.nodup_append, List.map_map] at hunique
  exact List.inj_on_of_nodup_map hunique.2.1 hu hu' h

/-! ## Sessions -/

/-- A new session and the table after it. -/
def openSession (t : Table key) : Nat × Table key :=
  (t.nextSession, { t with
    nextSession := t.nextSession + 1
    opened := fun s hs => Nat.lt_succ_of_lt (t.opened s hs) })

/-- End a session: what it did not commit is gone. -/
def closeSession (t : Table key) (s : Nat) : Table key where
  rows := t.rows
  uncommitted := t.uncommitted.filter fun u => u.1 ≠ s
  nextSession := t.nextSession
  begun := t.begun
  live := t.live.filter fun s' => s' ≠ s
  unique := by
    refine t.unique.sublist (List.Sublist.map key ?_)
    exact (List.Sublist.refl _).append (List.filter_sublist.map _)
  opened := t.opened
  alive := fun s' hs => t.alive s' (List.mem_filter.1 hs).1
  owned := by
    intro u hu
    obtain ⟨hu, hs⟩ := List.mem_filter.1 hu
    exact List.mem_filter.2 ⟨t.owned u hu, hs⟩

/-- Make a session's rows permanent; the session stays open. -/
def commit (t : Table key) (s : Nat) : Table key where
  rows := t.rows ++ (t.uncommitted.filter fun u => u.1 = s).map Prod.snd
  uncommitted := t.uncommitted.filter fun u => ¬u.1 = s
  nextSession := t.nextSession
  begun := t.begun
  live := t.live
  unique := by
    refine (List.Perm.nodup_iff ?_).1 t.unique
    rw [List.append_assoc, ← List.map_append]
    refine List.Perm.map key (List.Perm.append_left _ (List.Perm.map _ ?_))
    simpa using (List.filter_append_perm (fun u : Nat × ρ => decide (u.1 = s)) t.uncommitted).symm
  opened := t.opened
  alive := t.alive
  owned := fun u hu => t.owned u (List.mem_filter.1 hu).1

/-! ## Inserting -/

/-- Begin the transaction of a session that has begun none, with the given own rows. -/
def begin (t : Table key) (s : Nat) (own : List ρ) (hs : s < t.nextSession)
    (hunique : ((t.rows ++ (t.uncommitted.map Prod.snd ++ own)).map key).Nodup) : Table key where
  rows := t.rows
  uncommitted := t.uncommitted ++ own.map fun r => (s, r)
  nextSession := t.nextSession
  begun := s :: t.begun
  live := s :: t.live
  unique := by simpa [Function.comp_def] using hunique
  opened := by
    intro s' h
    rcases List.mem_cons.1 h with rfl | h
    · exact hs
    · exact t.opened s' h
  alive := by
    intro s' h
    rcases List.mem_cons.1 h with rfl | h
    · exact List.mem_cons_self ..
    · exact List.mem_cons_of_mem _ (t.alive s' h)
  owned := by
    intro u hu
    rcases List.mem_append.1 hu with hu | hu
    · exact List.mem_cons_of_mem _ (t.owned u hu)
    · obtain ⟨r, -, rfl⟩ := List.mem_map.1 hu
      exact List.mem_cons_self ..

/-- What an insert meets: a session that is no longer new, another session's uncommitted row with
the same key, a committed row with the same key, or nothing. -/
inductive Insert (key : ρ → κ)
  | closed
  | waits
  | conflict (t : Table key)
  | inserted (t : Table key)

theorem unique_nil (t : Table key) : ((t.rows ++ (t.uncommitted.map Prod.snd ++ [])).map key).Nodup := by
  rw [List.append_nil]
  exact t.unique

theorem unique_cons (t : Table key) {r : ρ} (h : key r ∉ (t.rows ++ t.uncommitted.map Prod.snd).map key) :
    ((t.rows ++ (t.uncommitted.map Prod.snd ++ [r])).map key).Nodup := by
  rw [← List.append_assoc, List.map_append, List.nodup_append]
  refine ⟨t.unique, List.nodup_singleton _, ?_⟩
  intro k hk k' hk' hkk
  rw [hkk, List.mem_singleton.1 hk'] at hk
  exact h hk

/-- The insert of a new session. -/
def insert [DecidableEq κ] (t : Table key) (s : Nat) (r : ρ) : Insert key :=
  if hs : s < t.nextSession ∧ s ∉ t.begun then
    -- a conflict begins the transaction too, without a row of its own
    if key r ∈ t.rows.map key then .conflict (t.begin s [] hs.1 t.unique_nil)
    else if h : key r ∈ (t.rows ++ t.uncommitted.map Prod.snd).map key then .waits
    else .inserted (t.begin s [r] hs.1 (t.unique_cons h))
  else .closed

/-! ## How a table changes -/

/-- Committed rows stay, in their order; a session that is over stays over; the row of a session
that is still under way is still its own or committed. -/
structure Le (t t' : Table key) : Prop where
  rows : t.rows <+: t'.rows
  begun : ∀ s ∈ t.begun, s ∈ t'.begun
  ended : ∀ s ∈ t.begun, s ∈ t'.live → s ∈ t.live
  staged : ∀ u ∈ t.uncommitted, u.1 ∈ t'.live → u ∈ t'.uncommitted ∨ u.2 ∈ t'.rows

theorem Le.refl (t : Table key) : Le t t :=
  ⟨List.prefix_rfl, fun _ h => h, fun _ _ h => h, fun _ h _ => Or.inl h⟩

theorem Le.trans {t u v : Table key} (h : Le t u) (h' : Le u v) : Le t v where
  rows := h.rows.trans h'.rows
  begun := fun s hs => h'.begun s (h.begun s hs)
  ended := fun s hs hv => h.ended s hs (h'.ended s (h.begun s hs) hv)
  staged := by
    intro x hx hv
    -- a session that is live at the end was live in between, since no session comes back
    have hbegun := h.begun _ (t.alive _ (t.owned x hx))
    rcases h.staged x hx (h'.ended _ hbegun hv) with hu | hu
    · exact h'.staged x hu hv
    · exact Or.inr (h'.rows.subset hu)

theorem Has.mono {t t' : Table key} (h : Le t t') {k : κ} : t.Has k → t'.Has k :=
  fun ⟨r, hr, hk⟩ => ⟨r, h.rows.subset hr, hk⟩

theorem Le.openSession (t : Table key) : Le t t.openSession.2 :=
  ⟨List.prefix_rfl, fun _ h => h, fun _ _ h => h, fun _ h _ => Or.inl h⟩

theorem Le.closeSession (t : Table key) (s : Nat) : Le t (t.closeSession s) where
  rows := List.prefix_rfl
  begun := fun _ h => h
  ended := fun _ _ hl => (List.mem_filter.1 hl).1
  staged := fun _ hu hl => Or.inl (List.mem_filter.2 ⟨hu, (List.mem_filter.1 hl).2⟩)

theorem Le.commit (t : Table key) (s : Nat) : Le t (t.commit s) where
  rows := List.prefix_append ..
  begun := fun _ h => h
  ended := fun _ _ h => h
  staged := by
    intro u hu _
    by_cases hs : u.1 = s
    · refine Or.inr (List.mem_append_right _ (List.mem_map.2 ⟨u, ?_, rfl⟩))
      exact List.mem_filter.2 ⟨hu, by simpa using hs⟩
    · exact Or.inl (List.mem_filter.2 ⟨hu, by simpa using hs⟩)

/-- A commit adds the rows of its session and no others. -/
theorem rows_commit (t : Table key) (s : Nat) [DecidableEq ρ] :
    (t.commit s).rows =
      t.rows ++ (t.uncommitted.filter fun u => u.2 ∈ (t.commit s).rows).map Prod.snd := by
  show t.rows ++ (t.uncommitted.filter fun u => u.1 = s).map Prod.snd = _
  congr 2
  refine List.filter_congr fun u hu => ?_
  have hrow : u.2 ∈ (t.commit s).rows ↔ u.1 = s := by
    constructor
    · intro h
      rcases List.mem_append.1 h with h | h
      · exact absurd h (not_mem_rows_of_uncommitted hu)
      · obtain ⟨u', hu', heq⟩ := List.mem_map.1 h
        obtain ⟨hu', hs⟩ := List.mem_filter.1 hu'
        rw [eq_of_uncommitted hu hu' (congrArg key heq.symm)]
        simpa using hs
    · intro h
      refine List.mem_append_right _ (List.mem_map_of_mem (List.mem_filter.2 ⟨hu, ?_⟩))
      simpa using h
  exact decide_eq_decide.2 hrow.symm

/-- The rows a commit adds were the session's own. -/
theorem mem_rows_commit {t : Table key} {s : Nat} {r : ρ} (h : r ∈ (t.commit s).rows) :
    r ∈ t.rows ∨ (s, r) ∈ t.uncommitted := by
  rcases List.mem_append.1 h with h | h
  · exact Or.inl h
  · obtain ⟨u, hu, rfl⟩ := List.mem_map.1 h
    obtain ⟨hu, hs⟩ := List.mem_filter.1 hu
    have hs : u.1 = s := by simpa using hs
    exact Or.inr (hs ▸ hu)

theorem Le.begin {t : Table key} {s : Nat} {own : List ρ} {hs hunique} (hnew : s ∉ t.begun) :
    Le t (t.begin s own hs hunique) where
  rows := List.prefix_rfl
  begun := fun _ h => List.mem_cons_of_mem _ h
  ended := by
    intro s' h hl
    rcases List.mem_cons.1 hl with rfl | hl
    · exact absurd h hnew
    · exact hl
  staged := fun _ hu _ => Or.inl (List.mem_append_left _ hu)

/-! ## An inserted key will be there after the commit -/

/-- As long as the transaction is under way, the key is committed or among the session's own rows. -/
def Claimed (t : Table key) (s : Nat) (k : κ) : Prop :=
  s ∈ t.begun ∧ (s ∈ t.live → t.Has k ∨ ∃ r, (s, r) ∈ t.uncommitted ∧ key r = k)

theorem Claimed.mono {t t' : Table key} (h : Le t t') {s : Nat} {k : κ} (hc : t.Claimed s k) :
    t'.Claimed s k := by
  refine ⟨h.begun s hc.1, fun hs => ?_⟩
  rcases hc.2 (h.ended s hc.1 hs) with hk | ⟨r, hr, rfl⟩
  · exact Or.inl (hk.mono h)
  · rcases h.staged _ hr hs with hr | hr
    · exact Or.inr ⟨r, hr, rfl⟩
    · exact Or.inl ⟨r, hr, rfl⟩

/-- After a session's commit no row of it is left uncommitted. -/
theorem has_of_claimed_commit {t : Table key} {s : Nat} {k : κ} (hs : s ∈ t.live)
    (hc : (t.commit s).Claimed s k) : (t.commit s).Has k := by
  rcases hc.2 hs with hk | ⟨r, hr, -⟩
  · exact hk
  · -- the commit took every uncommitted row of the session
    exact absurd (List.mem_filter.1 hr).2 (by simp)

/-- An insert opens no session. -/
theorem nextSession_insert [DecidableEq κ] {t t' : Table key} {s : Nat} {r : ρ}
    (h : t.insert s r = .conflict t' ∨ t.insert s r = .inserted t') : t'.nextSession = t.nextSession := by
  unfold insert at h
  split at h
  · split at h
    · rcases h with h | h <;> cases h
      rfl
    · split at h <;> rcases h with h | h <;> cases h
      rfl
  · rcases h with h | h <;> cases h

/-- It begins the transaction of its session. -/
theorem begun_insert [DecidableEq κ] {t t' : Table key} {s : Nat} {r : ρ}
    (h : t.insert s r = .conflict t' ∨ t.insert s r = .inserted t') : t'.begun = s :: t.begun := by
  unfold insert at h
  split at h
  · split at h
    · rcases h with h | h <;> cases h
      rfl
    · split at h <;> rcases h with h | h <;> cases h
      rfl
  · rcases h with h | h <;> cases h

/-- What is known after an insert went through, with or without a conflict. -/
theorem insert_cases [DecidableEq κ] (t : Table key) (s : Nat) (r : ρ) :
    (t.insert s r = .closed ∨ t.insert s r = .waits) ∨
    (∃ t', t.insert s r = .conflict t' ∧ Le t t' ∧ t'.rows = t.rows ∧ t'.uncommitted = t.uncommitted ∧
      t.Has (key r) ∧ t'.Claimed s (key r)) ∨
    (∃ t', t.insert s r = .inserted t' ∧ Le t t' ∧ t'.rows = t.rows ∧
      t'.uncommitted = t.uncommitted ++ [(s, r)] ∧ t'.Claimed s (key r)) := by
  unfold insert
  split
  · rename_i hs
    split
    · -- the key is committed
      rename_i hk
      obtain ⟨r', hr', hkey⟩ := List.mem_map.1 hk
      refine Or.inr (Or.inl ⟨_, rfl, Le.begin hs.2, rfl, List.append_nil _, ⟨r', hr', hkey⟩, ?_⟩)
      exact ⟨List.mem_cons_self .., fun _ => Or.inl ⟨r', hr', hkey⟩⟩
    · split
      · exact Or.inl (Or.inr rfl)
      · refine Or.inr (Or.inr ⟨_, rfl, Le.begin hs.2, rfl, rfl, List.mem_cons_self .., fun _ => ?_⟩)
        exact Or.inr ⟨r, List.mem_append_right _ (List.mem_singleton_self _), rfl⟩
  · exact Or.inl (Or.inl rfl)

theorem of_conflict [DecidableEq κ] {t t' : Table key} {s : Nat} {r : ρ} (h : t.insert s r = .conflict t') :
    Le t t' ∧ t'.rows = t.rows ∧ t'.uncommitted = t.uncommitted ∧ t.Has (key r) ∧ t'.Claimed s (key r) := by
  rcases t.insert_cases s r with (hins | hins) | ⟨t₁, hins, hconflict⟩ | ⟨t₁, hins, -⟩
  · cases h.symm.trans hins
  · cases h.symm.trans hins
  · cases h.symm.trans hins
    exact hconflict
  · cases h.symm.trans hins

theorem of_inserted [DecidableEq κ] {t t' : Table key} {s : Nat} {r : ρ} (h : t.insert s r = .inserted t') :
    Le t t' ∧ t'.rows = t.rows ∧ t'.uncommitted = t.uncommitted ++ [(s, r)] ∧ t'.Claimed s (key r) := by
  rcases t.insert_cases s r with (hins | hins) | ⟨t₁, hins, -⟩ | ⟨t₁, hins, hinserted⟩
  · cases h.symm.trans hins
  · cases h.symm.trans hins
  · cases h.symm.trans hins
  · cases h.symm.trans hins
    exact hinserted

/-! ## Waiting -/

/-- An insert waits for a row that is under way with the same key. -/
theorem insert_eq_waits_iff [DecidableEq κ] {t : Table key} {s : Nat} {r : ρ} : t.insert s r = .waits ↔
    (s < t.nextSession ∧ s ∉ t.begun) ∧ ¬t.Has (key r) ∧ ∃ u ∈ t.uncommitted, key u.2 = key r := by
  have hrow : key r ∈ t.rows.map key ↔ t.Has (key r) := List.mem_map
  have hkey : key r ∈ (t.rows ++ t.uncommitted.map Prod.snd).map key ↔
      t.Has (key r) ∨ ∃ u ∈ t.uncommitted, key u.2 = key r := by
    rw [List.map_append, List.mem_append, hrow, List.map_map, List.mem_map]
    rfl
  unfold insert
  split
  swap
  · rename_i hs
    exact ⟨nofun, fun h => absurd h.1 hs⟩
  rename_i hs
  split
  · rename_i hhas
    exact ⟨nofun, fun h => absurd (hrow.1 hhas) h.2.1⟩
  rename_i hhas
  split
  · rename_i h
    exact ⟨fun _ => ⟨hs, fun hr => hhas (hrow.2 hr), (hkey.1 h).resolve_left fun hr => hhas (hrow.2 hr)⟩, fun _ => rfl⟩
  · rename_i h
    exact ⟨nofun, fun h' => absurd (hkey.2 (Or.inr h'.2.2)) h⟩

/-- It waits for one session only: once that is over, it need not wait. -/
theorem insert_closeSession_ne_waits [DecidableEq κ] {t : Table key} {s : Nat} {r : ρ} {u : Nat × ρ}
    (hu : u ∈ t.uncommitted) (hk : key u.2 = key r) : (t.closeSession u.1).insert s r ≠ .waits := by
  rw [Ne, insert_eq_waits_iff]
  rintro ⟨-, -, u', hu', hk'⟩
  obtain ⟨hu', hne⟩ := List.mem_filter.1 hu'
  rw [eq_of_uncommitted hu' hu (hk'.trans hk.symm)] at hne
  simp at hne

/-- Nor once it has committed: then the row is there. -/
theorem insert_commit_ne_waits [DecidableEq κ] {t : Table key} {s : Nat} {r : ρ} {u : Nat × ρ}
    (hu : u ∈ t.uncommitted) (hk : key u.2 = key r) : (t.commit u.1).insert s r ≠ .waits := by
  rw [Ne, insert_eq_waits_iff]
  rintro ⟨-, hnew, -⟩
  refine hnew ⟨u.2, List.mem_append_right _ (List.mem_map_of_mem ?_), hk⟩
  exact List.mem_filter.2 ⟨hu, decide_eq_true rfl⟩

end Table

end Store
