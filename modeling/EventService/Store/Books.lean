/-
What a queue in front of a store is for, and nothing of how it is done. Items are accepted; a row may be
stored for an item if no row has its key yet, a note about an item may be parked, an item may be lost, and
an item is settled once a row has its key, a note is about it, or it is lost. Nothing is ever taken back.
The main result for those who refine it: whatever extends the books within these rules is a run of them.
-/
import Mathlib.Data.List.Nodup
import Mathlib.Data.Set.Insert
import Mathlib.Logic.Relation

namespace Store

/-- Which rows and which notes may come of an item, and under which keys an item is stored. -/
structure Rules (α κ ρ δ : Type) where
  key : ρ → κ
  hasKey : α → κ → Prop
  makes : α → ρ → Prop
  notes : α → δ → Prop

structure Books (α ρ δ : Type) where
  accepted : List α
  rows : List ρ
  parked : List δ
  lost : Set α
  settled : Set α

variable {α κ ρ δ : Type} {R : Rules α κ ρ δ}

namespace Rules

/-- A row has the item's key, or a note is about it. -/
def Landed (R : Rules α κ ρ δ) (b : Books α ρ δ) (a : α) : Prop :=
  (∃ r ∈ b.rows, R.hasKey a (R.key r)) ∨ ∃ d ∈ b.parked, R.notes a d

end Rules

namespace Books

def empty : Books α ρ δ := ⟨[], [], [], ∅, ∅⟩

/-- One entry in the books. -/
inductive Step (R : Rules α κ ρ δ) : Books α ρ δ → Books α ρ δ → Prop
  | accept (b : Books α ρ δ) (a : α) : Step R b { b with accepted := b.accepted ++ [a] }
  | store (b : Books α ρ δ) {a : α} {r : ρ} (ha : a ∈ b.accepted) (hm : R.makes a r)
    (hnew : R.key r ∉ b.rows.map R.key) : Step R b { b with rows := b.rows ++ [r] }
  | park (b : Books α ρ δ) {a : α} {d : δ} (ha : a ∈ b.accepted) (hn : R.notes a d) :
    Step R b { b with parked := b.parked ++ [d] }
  | lose (b : Books α ρ δ) {a : α} (ha : a ∈ b.accepted) : Step R b { b with lost := insert a b.lost }
  | settle (b : Books α ρ δ) {a : α} (ha : a ∈ b.accepted) (h : R.Landed b a ∨ a ∈ b.lost) :
    Step R b { b with settled := insert a b.settled }

/-- Some entries, one after the other. -/
abbrev Steps (R : Rules α κ ρ δ) : Books α ρ δ → Books α ρ δ → Prop := Relation.ReflTransGen (Step R)

/-! ## What the books keep -/

/-- The books are in order. -/
structure InOrder (R : Rules α κ ρ δ) (b : Books α ρ δ) : Prop where
  unique : (b.rows.map R.key).Nodup
  made : ∀ r ∈ b.rows, ∃ a ∈ b.accepted, R.makes a r
  noted : ∀ d ∈ b.parked, ∃ a ∈ b.accepted, R.notes a d
  settled : ∀ a ∈ b.settled, a ∈ b.accepted ∧ (R.Landed b a ∨ a ∈ b.lost)

/-- `b'` may be a later state of the books than `b`. -/
structure Le (b b' : Books α ρ δ) : Prop where
  accepted : b.accepted <+: b'.accepted
  rows : b.rows <+: b'.rows
  parked : b.parked <+: b'.parked
  lost : b.lost ⊆ b'.lost
  settled : b.settled ⊆ b'.settled

theorem Le.refl (b : Books α ρ δ) : Le b b :=
  ⟨List.prefix_rfl, List.prefix_rfl, List.prefix_rfl, subset_rfl, subset_rfl⟩

theorem Le.trans {b b' b'' : Books α ρ δ} (h : Le b b') (h' : Le b' b'') : Le b b'' where
  accepted := h.accepted.trans h'.accepted
  rows := h.rows.trans h'.rows
  parked := h.parked.trans h'.parked
  lost := h.lost.trans h'.lost
  settled := h.settled.trans h'.settled

theorem Landed.mono {b b' : Books α ρ δ} (h : Le b b') {a : α} (ha : R.Landed b a) : R.Landed b' a := by
  rcases ha with ⟨r, hr, hkey⟩ | ⟨d, hd, hnote⟩
  · exact Or.inl ⟨r, h.rows.subset hr, hkey⟩
  · exact Or.inr ⟨d, h.parked.subset hd, hnote⟩

/-- An entry takes nothing back. -/
theorem Step.le {b b' : Books α ρ δ} (h : Step R b b') : Le b b' := by
  cases h with
  | accept a => exact { Le.refl b with accepted := List.prefix_append .. }
  | store ha hm hnew => exact { Le.refl b with rows := List.prefix_append .. }
  | park ha hn => exact { Le.refl b with parked := List.prefix_append .. }
  | lose ha => exact { Le.refl b with lost := Set.subset_insert .. }
  | settle ha h => exact { Le.refl b with settled := Set.subset_insert .. }

theorem InOrder.empty : InOrder R (Books.empty : Books α ρ δ) where
  unique := List.nodup_nil
  made := by rintro r ⟨⟩
  noted := by rintro d ⟨⟩
  settled := by rintro a ⟨⟩

/-- An entry leaves the books in order. -/
theorem InOrder.step {b b' : Books α ρ δ} (hb : InOrder R b) (h : Step R b b') : InOrder R b' := by
  have hle := h.le
  have hmade : ∀ r ∈ b.rows, ∃ a ∈ b'.accepted, R.makes a r := by
    intro r hr
    obtain ⟨a, ha, hm⟩ := hb.made r hr
    exact ⟨a, hle.accepted.subset ha, hm⟩
  have hnoted : ∀ d ∈ b.parked, ∃ a ∈ b'.accepted, R.notes a d := by
    intro d hd
    obtain ⟨a, ha, hn⟩ := hb.noted d hd
    exact ⟨a, hle.accepted.subset ha, hn⟩
  have hsettled : ∀ a ∈ b.settled, a ∈ b'.accepted ∧ (R.Landed b' a ∨ a ∈ b'.lost) := by
    intro a ha
    obtain ⟨hacc, hwhy⟩ := hb.settled a ha
    exact ⟨hle.accepted.subset hacc, hwhy.imp (Landed.mono hle) fun hl => hle.lost hl⟩
  cases h with
  | accept a => exact ⟨hb.unique, hmade, hnoted, hsettled⟩
  | @store a r ha hm hnew =>
    refine ⟨?_, fun r' hr' => ?_, hnoted, hsettled⟩
    · rw [List.map_append, List.map_singleton, List.nodup_append]
      refine ⟨hb.unique, List.nodup_singleton _, fun k hk k' hk' hkk => hnew ?_⟩
      rwa [← List.mem_singleton.1 hk', ← hkk]
    · rcases List.mem_append.1 hr' with hr' | hr'
      · exact hmade r' hr'
      · rw [List.mem_singleton.1 hr']
        exact ⟨a, ha, hm⟩
  | @park a d ha hn =>
    refine ⟨hb.unique, hmade, fun d' hd' => ?_, hsettled⟩
    rcases List.mem_append.1 hd' with hd' | hd'
    · exact hnoted d' hd'
    · rw [List.mem_singleton.1 hd']
      exact ⟨a, ha, hn⟩
  | lose ha => exact ⟨hb.unique, hmade, hnoted, hsettled⟩
  | @settle a ha hwhy =>
    refine ⟨hb.unique, hmade, hnoted, fun a' ha' => ?_⟩
    rcases Set.mem_insert_iff.1 ha' with rfl | ha'
    · exact ⟨ha, hwhy⟩
    · exact hsettled a' ha'

/-- A run of the books takes nothing back and leaves them in order. -/
theorem Steps.keeps {b b' : Books α ρ δ} (h : Steps R b b') (hb : InOrder R b) : Le b b' ∧ InOrder R b' := by
  induction h with
  | refl => exact ⟨Le.refl b, hb⟩
  | tail _ hlast ih => exact ⟨ih.1.trans hlast.le, ih.2.step hlast⟩

/-! ## Extending the books -/

theorem steps_accept (b : Books α ρ δ) (as : List α) :
    Steps R b { b with accepted := b.accepted ++ as } := by
  induction as generalizing b with
  | nil => simpa using Relation.ReflTransGen.refl
  | cons a as ih =>
    refine .head (.accept b a) ?_
    simpa using ih { b with accepted := b.accepted ++ [a] }

/-- Rows with new keys, each made of an item that was accepted. -/
theorem steps_store (b : Books α ρ δ) (rs : List ρ) (hm : ∀ r ∈ rs, ∃ a ∈ b.accepted, R.makes a r)
    (hunique : ((b.rows ++ rs).map R.key).Nodup) : Steps R b { b with rows := b.rows ++ rs } := by
  induction rs generalizing b with
  | nil => simpa using Relation.ReflTransGen.refl
  | cons r rs ih =>
    obtain ⟨a, ha, hmakes⟩ := hm r (List.mem_cons_self ..)
    have hnew : R.key r ∉ b.rows.map R.key := by
      rw [List.map_append, List.map_cons, List.nodup_append] at hunique
      exact fun hmem => hunique.2.2 _ hmem _ (List.mem_cons_self ..) rfl
    refine .head (.store b ha hmakes hnew) ?_
    simpa using ih { b with rows := b.rows ++ [r] } (fun r' hr' => hm r' (List.mem_cons_of_mem _ hr'))
      (by simpa using hunique)

theorem steps_park (b : Books α ρ δ) (ds : List δ) (hn : ∀ d ∈ ds, ∃ a ∈ b.accepted, R.notes a d) :
    Steps R b { b with parked := b.parked ++ ds } := by
  induction ds generalizing b with
  | nil => simpa using Relation.ReflTransGen.refl
  | cons d ds ih =>
    obtain ⟨a, ha, hnote⟩ := hn d (List.mem_cons_self ..)
    refine .head (.park b ha hnote) ?_
    simpa using ih { b with parked := b.parked ++ [d] } fun d' hd' => hn d' (List.mem_cons_of_mem _ hd')

/-- Items of a list join a set of the books one by one. -/
theorem steps_insert (put : Set α → Books α ρ δ) (as : List α) {X Y : Set α} (hXY : X ⊆ Y)
    (hput : ∀ Z a, a ∈ as → X ⊆ Z → a ∈ Y → Step R (put Z) (put (insert a Z)))
    (hnew : ∀ a ∈ Y, a ∈ X ∨ a ∈ as) : Steps R (put X) (put Y) := by
  induction as generalizing X with
  | nil =>
    have hYX : Y ⊆ X := by
      intro a ha
      rcases hnew a ha with hX | hnil
      · exact hX
      · cases hnil
    rw [subset_antisymm hXY hYX]
  | cons a as ih =>
    by_cases ha : a ∈ Y
    · have hsub : insert a X ⊆ Y := Set.insert_subset ha hXY
      refine .head (hput X a (List.mem_cons_self ..) subset_rfl ha) (ih hsub ?_ ?_)
      · exact fun Z a' ha' hZ => hput Z a' (List.mem_cons_of_mem _ ha') ((Set.subset_insert _ _).trans hZ)
      · intro a' ha'
        rcases hnew a' ha' with hX | hmem
        · exact Or.inl (Set.mem_insert_of_mem _ hX)
        · rcases List.mem_cons.1 hmem with rfl | hmem
          · exact Or.inl (Set.mem_insert _ _)
          · exact Or.inr hmem
    · refine ih hXY (fun Z a' ha' => hput Z a' (List.mem_cons_of_mem _ ha')) fun a' ha' => ?_
      refine (hnew a' ha').imp_right fun hmem => ?_
      rcases List.mem_cons.1 hmem with rfl | hmem
      · exact absurd ha' ha
      · exact hmem

/-- Whatever extends the books and leaves them in order is a run of them. -/
theorem steps_of_le {b b' : Books α ρ δ} (h : Le b b') (hb' : InOrder R b')
    (hlost : ∀ a ∈ b'.lost, a ∈ b'.accepted) : Steps R b b' := by
  obtain ⟨as, has⟩ := h.accepted
  obtain ⟨rs, hrs⟩ := h.rows
  obtain ⟨ds, hds⟩ := h.parked
  -- first what is accepted, stored, parked and lost; only then may the items be settled
  have haccept : Steps R b ⟨b'.accepted, b.rows, b.parked, b.lost, b.settled⟩ := by
    have hsteps := steps_accept (R := R) b as
    rwa [has] at hsteps
  have hstore : Steps R ⟨b'.accepted, b.rows, b.parked, b.lost, b.settled⟩
      ⟨b'.accepted, b'.rows, b.parked, b.lost, b.settled⟩ := by
    have hsteps := steps_store (R := R) ⟨b'.accepted, b.rows, b.parked, b.lost, b.settled⟩ rs
      (fun r hr => hb'.made r (hrs ▸ List.mem_append_right _ hr)) (by rw [hrs]; exact hb'.unique)
    rwa [hrs] at hsteps
  have hpark : Steps R ⟨b'.accepted, b'.rows, b.parked, b.lost, b.settled⟩
      ⟨b'.accepted, b'.rows, b'.parked, b.lost, b.settled⟩ := by
    have hsteps := steps_park (R := R) ⟨b'.accepted, b'.rows, b.parked, b.lost, b.settled⟩ ds
      fun d hd => hb'.noted d (hds ▸ List.mem_append_right _ hd)
    rwa [hds] at hsteps
  have hlose : Steps R ⟨b'.accepted, b'.rows, b'.parked, b.lost, b.settled⟩
      ⟨b'.accepted, b'.rows, b'.parked, b'.lost, b.settled⟩ :=
    steps_insert (fun X => ⟨b'.accepted, b'.rows, b'.parked, X, b.settled⟩) b'.accepted h.lost
      (fun Z a ha _ _ => .lose _ ha) fun a ha => Or.inr (hlost a ha)
  have hsettle : Steps R ⟨b'.accepted, b'.rows, b'.parked, b'.lost, b.settled⟩ b' :=
    steps_insert (fun X => ⟨b'.accepted, b'.rows, b'.parked, b'.lost, X⟩) b'.accepted h.settled
      (fun Z a ha _ hY => .settle _ ha (hb'.settled a hY).2) fun a ha => Or.inr (hb'.settled a ha).1
  exact haccept.trans (hstore.trans (hpark.trans (hlose.trans hsettle)))

end Books

end Store
