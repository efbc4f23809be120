/-
What a call of `process` may say at its end, and what the history then shows: the row with the event's
id is committed, and a call that claims to have stored it opened the session whose commit did.
-/
import EventService.Run.Attribution
import EventService.Run.Processing

namespace App

open Store Prog

variable {P : Type} {S : Service P}

/-! ## The database's answers in the history -/

section Answers

variable {call session : Nat} {c : Choice} {g g' : Attributed P}

theorem Attributed.exec_eq {o : Op P} {r : o.Reply} (h : Attributed.exec S call o c g = some (r, g')) :
    World.exec S o c g.world = some (r, g'.world) ∧ g' = g.after call g'.world := by
  obtain ⟨⟨r', w⟩, hexec, heq⟩ := Option.map_eq_some_iff.1 h
  obtain ⟨rfl, rfl⟩ := Prod.mk.inj heq
  exact ⟨hexec, rfl⟩

/-- A session that was opened is the call's. -/
theorem opened_of_openSession (h : Attributed.exec S call .openSession c g = some (.ok session, g')) :
    (session, call) ∈ g'.opened := by
  obtain ⟨hexec, heq⟩ := Attributed.exec_eq h
  obtain ⟨rfl, htable⟩ := openSession_reply hexec
  have hnext : g'.world.table.nextSession = g.world.table.nextSession + 1 := by
    rw [htable]
    rfl
  rw [heq]
  refine List.mem_append_right _ (List.mem_map_of_mem (List.mem_range'_1.2 ⟨le_rfl, ?_⟩))
  omega

/-- The row of an insert that counts one row is the session's own. -/
theorem staged_of_inserted {v : Values} {t : Table Values.id} (h : t.insert session v = .inserted g.world.table) :
    Staged g session v := by
  obtain ⟨-, -, hown, hclaimed⟩ := Table.of_inserted h
  refine ⟨hclaimed.1, fun _ => Or.inl ?_⟩
  rw [hown]
  exact List.mem_append_right _ (List.mem_singleton_self _)

/-- A commit that is confirmed wrote what the session had under way. -/
theorem written_of_commit {v : Values} (h : Attributed.exec S call (.commit session) c g = some (.ok (), g'))
    (hs : Staged g session v) : (session, v) ∈ g'.written := by
  obtain ⟨hexec, heq⟩ := Attributed.exec_eq h
  obtain ⟨hlive, htable⟩ := commit_reply hexec
  rw [heq]
  rcases hs.2 hlive with hown | hwritten
  · refine List.mem_append_right _ (List.mem_filter.2 ⟨hown, ?_⟩)
    have hrow : v ∈ (g.world.table.commit session).rows :=
      List.mem_append_right _ (List.mem_map.2 ⟨_, List.mem_filter.2 ⟨hown, by simp⟩, rfl⟩)
    rw [htable]
    exact decide_eq_true hrow
  · exact List.mem_append_left _ hwritten

theorem has_of_commit {k : PyStr} (h : Attributed.exec S call (.commit session) c g = some (.ok (), g'))
    (hc : g.world.table.Claimed session k) : g'.world.table.Has k := by
  obtain ⟨hlive, htable⟩ := commit_reply (Attributed.exec_eq h).1
  rw [htable]
  exact Table.has_of_claimed_commit hlive (hc.mono (Table.Le.commit _ _))

end Answers

/-! ## Storing -/

section Rules

variable {call : Nat} {α β : Type} {Q : α → Attributed P → Prop} {R : β → Attributed P → Prop}
  {E F : Exn → Attributed P → Prop} {g : Attributed P}

theorem attests_ret {a : α} (h : Q a g) : Attests S call Q E (.ret a) g := h

theorem attests_raise {e : Exn} (h : E e g) : Attests S call Q E (.raise e) g := h

theorem attests_bind {p : Code P α} {f : α → Code P β} (h : Attests S call Q E p g)
    (hf : ∀ a g', g.Le g' → Q a g' → Attests S call R E (f a) g') : Attests S call R E (p >>= f) g :=
  Protocol.Ok.bind h hf fun _ _ _ he => he

end Rules

/-- The id is taken if the exception is a violated constraint. -/
def Violated (id : PyStr) (e : Exn) (g : Attributed P) : Prop := InsertFailed id e g.world

theorem Violated.mono {id : PyStr} {e : Exn} {g g' : Attributed P} (h : g.Le g') (hv : Violated id e g) :
    Violated id e g' := by
  obtain ⟨f, heq, hrow⟩ := hv
  exact ⟨f, heq, fun hc => (hrow hc).mono h.table⟩

theorem Violated.of_ne {id : PyStr} {f : Foreign} {g : Attributed P} (h : f.cls ≠ .integrityError) :
    Violated id (.foreign f) g :=
  ⟨f, rfl, fun hc => absurd hc h⟩

/-- The call's row with this id is committed, or another's was. -/
structure Told (call : Nat) (values : Values) (inserted : Bool) (g : Attributed P) : Prop where
  has : g.world.table.Has values.id
  own : inserted = true → ∃ session, (session, call) ∈ g.opened ∧ (session, values) ∈ g.written

theorem Told.mono {call : Nat} {values : Values} {inserted : Bool} {g g' : Attributed P} (h : g.Le g')
    (ht : Told call values inserted g) : Told call values inserted g' where
  has := ht.has.mono h.table
  own := by
    intro hi
    obtain ⟨session, hopened, hwritten⟩ := ht.own hi
    exact ⟨session, h.opened.subset hopened, h.written.subset hwritten⟩

theorem attests_insertIfAbsent (call session : Nat) (values : Values) (g : Attributed P) :
    Attests S call
      (fun inserted g' => g'.world.table.Claimed session values.id ∧ (inserted = true → Staged g' session values))
      (Violated values.id) (insertIfAbsent S session values) g := by
  have hvalues := insertIgnoreDuplicates_values S.dialect values
  refine attests_bind (attests_ask_bind fun c r g₁ g₂ _ _ hexec _ => ?_) fun n g' _ hn => hn
  rcases r with e | n
  · refine attests_raise ⟨e, rfl, fun hc => ?_⟩
    have hhas := execute_violation hc hexec
    rwa [hvalues] at hhas
  · have hreply := execute_reply hexec
    rw [hvalues] at hreply
    rcases hreply with ⟨rfl, hins⟩ | ⟨rfl, hins⟩
    · exact attests_ret ⟨(Table.of_conflict hins).2.2.2.2, by rintro ⟨⟩⟩
    · exact attests_ret ⟨(Table.of_inserted hins).2.2.2, fun _ => staged_of_inserted hins⟩

/-- The body of `_store`, in a session of the call. -/
theorem attests_storeBody {call session : Nat} {values : Values} {g : Attributed P}
    (hopened : (session, call) ∈ g.opened) :
    Attests S call (Told call values) (Violated values.id)
      (insertIfAbsent S session values >>= fun inserted =>
        (ask (.commit session) >>= lift) >>= fun _ => pure inserted) g := by
  refine attests_bind (attests_insertIfAbsent call session values g) fun inserted g₁ hle₁ hins => ?_
  refine attests_bind (Q := fun _ g' => Told call values inserted g')
    (attests_ask_bind fun c r g₂ g₃ hle₂ hle₃ hexec hx => ?_) fun _ g' _ ht => ht
  rcases r with e | _
  · exact attests_raise (.of_ne (commit_error hexec))
  · refine attests_ret ⟨has_of_commit hx (hins.1.mono hle₂.table), fun hi => ⟨session, ?_, ?_⟩⟩
    · exact ((hle₁.trans hle₂).trans hle₃).opened.subset hopened
    · exact written_of_commit hx ((hins.2 hi).mono hle₂)

/-- The session is closed, and what its body attested stays true. -/
theorem attests_withSession {α : Type} {Q : α → Attributed P → Prop} {call : Nat} {id : PyStr}
    {body : Nat → Code P α} {g : Attributed P} (hQ : ∀ a, (attribution S call).Stable (Q a))
    (hbody : ∀ session g', (session, call) ∈ g'.opened → Attests S call Q (Violated id) (body session) g') :
    Attests S call Q (Violated id) (withSession body) g := by
  have hclose : ∀ {γ : Type} {R : γ → Attributed P → Prop} {session : Nat} {f : Unit → Code P γ}
      {g' : Attributed P}, (∀ g'', g'.Le g'' → Attests S call R (Violated id) (f ()) g'') →
      Attests S call R (Violated id) ((ask (.close session) >>= lift) >>= f) g' := by
    intro γ R session f g' hf
    refine attests_bind (Q := fun _ g'' => g'.Le g'')
      (attests_ask_bind fun c r g₁ g₂ hle₁ hle₂ hexec _ => ?_) fun _ g'' _ hle => hf g'' hle
    rcases r with e | _
    · exact attests_raise (.of_ne (close_error hexec))
    · exact attests_ret (hle₁.trans hle₂)
  unfold withSession
  refine attests_bind (Q := fun session g' => (session, call) ∈ g'.opened)
    (attests_ask_bind fun c r g₁ g₂ _ _ hexec hx => ?_) fun session g₁ _ hopened => ?_
  · rcases r with e | session
    · exact attests_raise (.of_ne (openSession_error hexec))
    · exact attests_ret (opened_of_openSession hx)
  · refine attests_bind (Protocol.Ok.attempt (hbody session g₁ hopened)) fun ended g₂ _ hended => ?_
    refine hclose fun g₃ hle => ?_
    cases ended with
    | ok a => exact attests_ret (hQ a g₂ g₃ hle hended)
    | error e => exact attests_raise (hended.mono hle)

/-- A caught exception never counts as a row that was written. -/
theorem storeFailed_inserted {e : Exn} {inserted : Bool} (h : storeFailed e = .ok inserted) : inserted = false := by
  unfold storeFailed at h
  split at h
  · split at h
    · exact (Except.ok.inj h).symm
    · split at h
      · cases h
      · split at h <;> cases h
  · cases h

/-- However `_store` ends without an exception, it tells the truth. -/
theorem attests_store (call : Nat) (values : Values) (g : Attributed P) :
    Attests S call (Told call values) (fun _ _ => True) (store S values) g := by
  unfold store
  refine attests_bind (Protocol.Ok.attempt (attests_withSession (fun _ _ _ hle ht => ht.mono hle)
    fun session g' hopened => attests_storeBody hopened)) fun written g' _ hwritten => ?_
  cases written with
  | ok inserted => exact attests_ret hwritten
  | error e =>
    -- a violated constraint is taken for a duplicate, and only then: the row is there
    obtain ⟨f, rfl, hrow⟩ := hwritten
    show Attests S call _ _ (ofExcept (storeFailed (.foreign f))) g'
    cases hs : storeFailed (.foreign f) with
    | error exc => exact attests_raise trivial
    | ok inserted =>
      obtain ⟨f', heq, hc⟩ := storeFailed_ok hs
      obtain rfl := Exn.foreign.inj heq
      refine attests_ret ⟨hrow hc, fun hi => ?_⟩
      rw [storeFailed_inserted hs] at hi
      cases hi

/-! ## Processing -/

/-- What an outcome of a call says: the event's id is taken, and if the call stored the event, then the
row was written by the commit of a session of the call. -/
structure Truthful (call : Nat) (event : TransactionEvent) (outcome : Outcome) (g : Attributed P) : Prop where
  has : g.world.table.Has event.id
  own : outcome = .stored → ∃ session usd rate now, (session, call) ∈ g.opened ∧
    convertToUsd event.amount rate = .ok usd ∧ (session, event.values usd rate now) ∈ g.written

theorem Truthful.mono {call : Nat} {event : TransactionEvent} {outcome : Outcome} {g g' : Attributed P}
    (h : g.Le g') (ht : Truthful call event outcome g) : Truthful call event outcome g' where
  has := ht.has.mono h.table
  own := by
    intro hi
    obtain ⟨session, usd, rate, now, hopened, hconv, hwritten⟩ := ht.own hi
    exact ⟨session, usd, rate, now, h.opened.subset hopened, hconv, h.written.subset hwritten⟩

theorem attests_process (call : Nat) (event : TransactionEvent) (g : Attributed P) :
    Attests S call (Truthful call event) (fun _ _ => True) (process S event) g := by
  unfold process
  refine attests_bind (attests_any (getRate S event.currency) g) fun rate g₁ _ _ => ?_
  refine attests_ask_bind fun _ _ _ g₂ _ _ _ _ => ?_
  cases hconv : convertToUsd event.amount rate with
  | error e => exact attests_raise trivial
  | ok usd =>
    refine attests_ask_bind fun _ now _ g₃ _ _ _ _ => ?_
    refine attests_bind (attests_store call (event.values usd rate now) g₃) fun inserted g₄ _ ht => ?_
    cases inserted with
    | false => exact attests_ret ⟨ht.has, by rintro ⟨⟩⟩
    | true =>
      refine attests_ret ⟨ht.has, fun _ => ?_⟩
      obtain ⟨session, hopened, hwritten⟩ := ht.own rfl
      exact ⟨session, usd, rate, now, hopened, hconv, hwritten⟩

end App
