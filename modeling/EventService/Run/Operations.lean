/-
One specification for each operation: what its caller has to establish (`Pre`), and what its reply
tells about the world (`Post`). Every operation keeps the invariant and leads to a later world,
whatever the environment decides. From these the rule for a single call follows.
-/
import EventService.Program.Rely
import EventService.Run.Invariant

namespace App

open Store Prog

variable {P : Type} (S : Service P)

/-- What the callers of an operation have to know. -/
def Pre : Op P → World P → Prop
  | .xadd payload, _ => ∃ event, payload = S.json.modelDumpJson event
  | .xpending _ _ wanted, w => ∀ c ∈ wanted, Counted w c.1 c.2
  | .xack ids, w => ∀ id ∈ ids, ∃ e ∈ w.stream.added, e.id = id ∧ (Landed S w e ∨ e ∈ w.stream.dropped)
  | .deadLetter entry, w => Recorded S w entry
  | .set key value, w => Cached w key value
  | .execute _ stmt, w => Made S w stmt.values
  | .record currency rate, w => RateFrom w currency rate
  | _, _ => True

/-- What a reply tells. -/
def Post : (o : Op P) → o.Reply → World P → Prop
  | .xadd payload, .ok id, w => ⟨id, payload⟩ ∈ w.stream.added
  | .xreadgroup _ _, .ok entries, w => ∀ e ∈ entries, Entered S w e
  | .xautoclaim _ _ _, .ok (claimed, deleted), w =>
    (∀ c ∈ claimed, Entered S w c.1 ∧ Counted w c.1.id c.2) ∧
      ∀ id ∈ deleted, ∃ e ∈ w.stream.dropped, e.id = id
  | .xpending _ _ wanted, .ok answer, w => (wanted, answer) ∈ w.lookups ∧
      ∀ c ∈ wanted, ∀ a ∈ answer, a.1 = c.1 → c.2 ≤ a.2
  | .get key, .ok (some value), w => Cached w key value
  | .fetch currency, reply, w => (currency, reply) ∈ w.fetched
  | .execute session stmt, .ok _, w => w.table.Claimed session stmt.values.id
  | .execute _ stmt, .error e, w => e.cls = .integrityError → w.table.Has stmt.values.id
  | .openSession, .error e, _ => e.cls ≠ .integrityError
  | .commit session, .ok (), w => ∀ k, w.table.Claimed session k → w.table.Has k
  | .commit _, .error e, _ => e.cls ≠ .integrityError
  | .close _, .error e, _ => e.cls ≠ .integrityError
  | .record currency rate, (), w => (currency, rate) ∈ w.rates
  | _, _, _ => True

/-- What callers have to know stays known. -/
theorem Pre.mono {o : Op P} {w w' : World P} (h : Le w w') (hp : Pre S o w) : Pre S o w' := by
  cases o <;> try exact hp
  case xpending consumer count wanted => exact fun c hc => Counted.mono h (hp c hc)
  case xack ids =>
    intro id hid
    obtain ⟨e, he, heq, hdone⟩ := hp id hid
    exact ⟨e, h.stream.added.subset he, heq, hdone.imp (Landed.mono h) fun hd => h.stream.dropped.subset hd⟩
  case deadLetter entry => exact Recorded.mono h hp
  case set key value => exact Cached.mono h hp
  case execute session stmt => exact Made.mono h hp
  case record currency rate => exact RateFrom.mono h hp

/-! ## The stream -/

section Effects

variable {S} {w : World P} (hi : Inv S w)
include hi

theorem addCapped_spec {payload : P} (hp : ∃ event, payload = S.json.modelDumpJson event) (maxlen k : Nat) :
    Inv S { w with stream := (w.stream.addCapped maxlen k payload).2 } ∧
      Le w { w with stream := (w.stream.addCapped maxlen k payload).2 } := by
  refine hi.setStream (Stream.Le.addCapped ..) (fun e he => ?_) fun e he => ?_
  · rw [Stream.added_addCapped] at he
    rcases List.mem_append.1 he with he | he
    · rcases hi.accounted e he with ho | hl | hd
      · exact Or.inl ((Stream.open_addCapped ..).2 ho)
      · exact Or.inr (Or.inl hl)
      · exact Or.inr (Or.inr (List.mem_append_left _ hd))
    · rw [List.mem_singleton.1 he]
      exact Or.inl (Or.inl (Stream.unread_addCapped w.stream maxlen k payload))
  · rw [Stream.added_addCapped] at he
    rcases List.mem_append.1 he with he | he
    · exact Or.inl he
    · rw [List.mem_singleton.1 he]
      exact Or.inr hp

theorem createGroup_spec {s : Stream P} (h : w.stream.createGroup = some s) :
    Inv S { w with stream := s } ∧ Le w { w with stream := s } := by
  have hadded : s.added = w.stream.added := by
    unfold Stream.createGroup at h
    split at h
    · cases h
    · rw [← Option.some.inj h]
      rfl
  exact hi.setGroup (.createGroup h) hadded fun e he _ => Or.inl (Stream.open_createGroup h he)

theorem readNew_spec {consumer now count : Nat} {es : List (Entry P)} {s : Stream P}
    (h : w.stream.readNew consumer now count = .ok (es, s)) :
    Inv S { w with stream := s } ∧ Le w { w with stream := s } := by
  obtain ⟨hadded, hdropped⟩ := Stream.added_readNew h
  refine hi.setGroup (.readNew h) hadded fun e he ho => ?_
  rcases List.mem_append.1 he with hd | he
  · exact Or.inr (Or.inr (hdropped ▸ hd))
  · exact Or.inl (Stream.open_readNew h he ho)

theorem autoclaim_spec {consumer now minIdle count : Nat} {claimed : List (Entry P × Nat)}
    {deleted : List Nat} {s : Stream P}
    (h : w.stream.autoclaim consumer now minIdle count = .ok ((claimed, deleted), s)) :
    Inv S { w with stream := s, vanished := w.vanished ++ deleted } ∧
      Le w { w with stream := s, vanished := w.vanished ++ deleted } := by
  obtain ⟨g, -, g', -, -, hdropped, hentries, -⟩ := Stream.autoclaim_group h
  have hadded : s.added = w.stream.added := by
    unfold Stream.added
    rw [hdropped, hentries]
  have hgone : ∀ id ∈ deleted, ∃ e ∈ s.dropped, e.id = id := fun id hid => Stream.deleted_autoclaim h hid
  obtain ⟨hi₁, hle₁⟩ := hi.setGroup (.autoclaim h) hadded fun e he ho => by
    rcases Stream.open_autoclaim h ho with ho | hdel
    · exact Or.inl ho
    · -- the deleted entry with its id is the entry itself
      obtain ⟨f, hf, hid⟩ := hgone e.id hdel
      have hmem : e ∈ s.added := hadded ▸ he
      rw [Stream.added_unique hmem (List.mem_append_left _ hf) hid.symm]
      exact Or.inr (Or.inr hf)
  obtain ⟨hi₂, hle₂⟩ := hi₁.addVanished hgone
  exact ⟨hi₂, hle₁.trans hle₂⟩

theorem ack_spec {ids : List Nat}
    (hp : ∀ id ∈ ids, ∃ e ∈ w.stream.added, e.id = id ∧ (Landed S w e ∨ e ∈ w.stream.dropped)) :
    Inv S { w with stream := (w.stream.ack ids).2 } ∧ Le w { w with stream := (w.stream.ack ids).2 } := by
  obtain ⟨hadded, hdropped⟩ := w.stream.added_ack ids
  refine hi.setGroup (.ack _ ids) hadded fun e he ho => ?_
  by_cases hid : e.id ∈ ids
  · obtain ⟨f, hf, hfid, hdone⟩ := hp e.id hid
    rw [Stream.added_unique he hf hfid.symm, hdropped]
    exact Or.inr hdone
  · exact Or.inl (Stream.open_ack ho hid)

theorem deadLetterExec_spec {trim : Nat} {entry : DlqRecord P} (hp : Recorded S w entry) :
    Inv S (w.deadLetterExec S trim entry).2 ∧ Le w (w.deadLetterExec S trim entry).2 := by
  obtain ⟨q, hq, -⟩ := hi.parked
  have hadded := q.added_addCapped S.settings.streamMaxLen trim entry
  unfold World.deadLetterExec
  rw [hq]
  simp only
  generalize (q.addCapped S.settings.streamMaxLen trim entry).2 = q' at hadded
  -- the record first: only then has the entry landed and may be taken off the list
  obtain ⟨hi₁, hle₁⟩ := hi.setDlq hq (hadded ▸ List.prefix_append ..) fun f hf => by
    rw [hadded] at hf
    rcases List.mem_append.1 hf with hf | hf
    · exact Or.inl hf
    · rw [List.mem_singleton.1 hf]
      exact Or.inr hp
  have hlanded : ∀ id ∈ [entry.originalId], ∃ e ∈ w.stream.added, e.id = id ∧
      (Landed S { w with dlq := some q' } e ∨ e ∈ w.stream.dropped) := by
    intro id hid
    obtain ⟨-, e, he, heid, hpay⟩ := hp
    refine ⟨e, he, heid.trans (List.mem_singleton.1 hid).symm,
      Or.inl (Or.inr ⟨q', rfl, ⟨q.lastId + 1, entry⟩, ?_, hpay.symm⟩)⟩
    rw [hadded]
    exact List.mem_append_right _ (List.mem_singleton_self _)
  obtain ⟨hi₂, hle₂⟩ := ack_spec hi₁ hlanded
  exact ⟨hi₂, hle₁.trans hle₂⟩

/-! ## The database -/

theorem insertExec_spec {session : Nat} {stmt : InsertStatement} {r : Except Foreign Nat × World P}
    (hp : Made S w stmt.values) (h : w.insertExec session stmt = some r) :
    Inv S r.2 ∧ Le w r.2 ∧ Post S (.execute session stmt) r.1 r.2 := by
  unfold World.insertExec at h
  split at h
  swap
  · rw [← Option.some.inj h]
    exact ⟨hi, Le.refl w, fun he => absurd he (by decide)⟩
  rcases w.table.insert_cases session stmt.values with (hins | hins) |
      ⟨t, hins, hle, hrows, hunc, hhas, hclaimed⟩ | ⟨t, hins, hle, hrows, hunc, hclaimed⟩
  · rw [hins] at h
    rw [← Option.some.inj h]
    exact ⟨hi, Le.refl w, fun he => absurd he (by decide)⟩
  · rw [hins] at h
    cases h
  · rw [hins] at h
    simp only at h
    split at h
    · rw [← Option.some.inj h]
      obtain ⟨hi', hle'⟩ := hi.setTable hle fun v hv => Or.inl (by rw [hrows, hunc] at hv; exact hv)
      exact ⟨hi', hle', hclaimed⟩
    · rw [← Option.some.inj h]
      exact ⟨hi, Le.refl w, fun _ => hhas⟩
  · rw [hins] at h
    rw [← Option.some.inj h]
    obtain ⟨hi', hle'⟩ := hi.setTable hle fun v hv => by
      rw [hrows, hunc] at hv
      rcases hv with hv | ⟨s, hv⟩
      · exact Or.inl (Or.inl hv)
      · rcases List.mem_append.1 hv with hv | hv
        · exact Or.inl (Or.inr ⟨s, hv⟩)
        · rw [(Prod.mk.inj (List.mem_singleton.1 hv)).2]
          exact Or.inr hp
    exact ⟨hi', hle', hclaimed⟩

theorem commitExec_spec (session : Nat) :
    Inv S (w.commitExec session).2 ∧ Le w (w.commitExec session).2 ∧
      Post S (.commit session) (w.commitExec session).1 (w.commitExec session).2 := by
  unfold World.commitExec
  split
  · rename_i hlive
    obtain ⟨hi', hle'⟩ := hi.setTable (Table.Le.commit w.table session) fun v hv => by
      rcases hv with hv | ⟨s, hv⟩
      · exact Or.inl ((Table.mem_rows_commit hv).imp_right fun h => ⟨session, h⟩)
      · exact Or.inl (Or.inr ⟨s, (List.mem_filter.1 hv).1⟩)
    exact ⟨hi', hle', fun k hk => Table.has_of_claimed_commit hlive hk⟩
  · exact ⟨hi, Le.refl w, show ForeignClass.dbapiError ≠ .integrityError by decide⟩

theorem closeSession_spec (session : Nat) :
    Inv S { w with table := w.table.closeSession session } ∧
      Le w { w with table := w.table.closeSession session } := by
  refine hi.setTable (Table.Le.closeSession w.table session) fun v hv => Or.inl ?_
  rcases hv with hv | ⟨s, hv⟩
  · exact Or.inl hv
  · exact Or.inr ⟨s, (List.mem_filter.1 hv).1⟩

/-! ## The rate source -/

theorem fetchExec_spec {currency : PyStr} {reply : Except Exn Decimal}
    {r : Except Exn Decimal × World P} (h : w.fetchExec currency reply = some r) :
    Inv S r.2 ∧ Le w r.2 ∧ Post S (.fetch currency) r.1 r.2 := by
  have hlast : ∀ x : Except Exn Decimal, (currency, x) ∈ w.fetched ++ [(currency, x)] :=
    fun x => List.mem_append_right _ (List.mem_singleton_self _)
  unfold World.fetchExec at h
  split at h
  · rename_i neg c e
    split at h
    · rename_i hrep
      rw [← Option.some.inj h]
      obtain ⟨hi', hle'⟩ := hi.addFetched currency (.ok (.finite neg c e))
        fun neg' c' e' heq => by
          obtain ⟨-, rfl, rfl⟩ := Decimal.finite.inj (Except.ok.inj heq)
          exact hrep
      exact ⟨hi', hle', hlast _⟩
    · cases h
  · rename_i hne
    rw [← Option.some.inj h]
    obtain ⟨hi', hle'⟩ := hi.addFetched currency reply
      fun neg c e heq => absurd heq (hne neg c e)
    exact ⟨hi', hle', hlast _⟩

/-! ## Faults -/

omit hi in
/-- A command that may fail keeps what it keeps when it is applied; what its failure tells is up to
the failures the connection may have. -/
theorem command_spec {α : Type} {c : Choice} {r : Except Foreign α × World P}
    {post : Except Foreign α → World P → Prop} (hi : Inv S w) (hr : Inv S r.2 ∧ Le w r.2)
    (hpost : post r.1 r.2)
    (hfail : ∀ e w', (c.fault = .before e ∨ c.fault = .after e) → post (.error e) w') :
    Inv S (c.command w r).2 ∧ Le w (c.command w r).2 ∧ post (c.command w r).1 (c.command w r).2 := by
  unfold Choice.command
  split
  · exact ⟨hr.1, hr.2, hpost⟩
  · rename_i e he
    exact ⟨hi, Le.refl w, hfail e w (Or.inl he)⟩
  · rename_i e he
    exact ⟨hr.1, hr.2, hfail e r.2 (Or.inr he)⟩

/-- Every operation keeps the invariant, leads to a later world, and its reply tells the truth. -/
theorem exec_spec {o : Op P} {c : Choice} {r : o.Reply} {w' : World P} (hp : Pre S o w)
    (h : World.exec S o c w = some (r, w')) : Inv S w' ∧ Le w w' ∧ Post S o r w' := by
  cases o with
  | xadd payload =>
    obtain ⟨rfl, rfl⟩ := Prod.mk.inj (Option.some.inj h)
    refine command_spec hi (addCapped_spec hi hp _ _) ?_ fun _ _ _ => trivial
    show (⟨_, payload⟩ : Entry P) ∈ (w.stream.addCapped _ _ payload).2.added
    rw [Stream.added_addCapped]
    exact List.mem_append_right _ (List.mem_singleton_self _)
  | xgroupCreate =>
    obtain ⟨rfl, rfl⟩ := Prod.mk.inj (Option.some.inj h)
    refine command_spec hi ?_ trivial fun _ _ _ => trivial
    split
    · exact ⟨hi, Le.refl w⟩
    · rename_i s hs
      exact createGroup_spec hi hs
  | xreadgroup consumer count =>
    obtain ⟨rfl, rfl⟩ := Prod.mk.inj (Option.some.inj h)
    unfold World.groupCommand
    cases hr : w.stream.readNew consumer w.now count with
    | error e => exact command_spec hi ⟨hi, Le.refl w⟩ trivial fun _ _ _ => trivial
    | ok x =>
      refine command_spec hi (readNew_spec hi hr) ?_ fun _ _ _ => trivial
      intro e he
      have hmem := Stream.mem_readNew hr he
      exact ⟨(Stream.added_readNew hr).1 ▸ hmem, hi.published e hmem⟩
  | xautoclaim consumer minIdle count =>
    obtain ⟨rfl, rfl⟩ := Prod.mk.inj (Option.some.inj h)
    cases hr : w.stream.autoclaim consumer w.now minIdle count with
    | error e => exact command_spec hi ⟨hi, Le.refl w⟩ trivial fun _ _ _ => trivial
    | ok x =>
      refine command_spec hi (autoclaim_spec hi hr) ?_ fun _ _ _ => trivial
      refine ⟨fun c hc => ?_, fun id hid => Stream.deleted_autoclaim hr hid⟩
      obtain ⟨hmem, g, hg, p, hpend, hid, htimes⟩ := Stream.claimed_autoclaim hr hc
      refine ⟨⟨hmem, (autoclaim_spec hi hr).1.published _ hmem⟩, g, hg, hid ▸ g.delivered p hpend, ?_⟩
      intro p' hp' hid'
      rw [g.pending_unique hpend hp' (hid.trans hid'.symm)] at htimes
      exact htimes.ge
  | xpending consumer count wanted =>
    simp only [World.exec] at h
    split at h
    · rename_i answer _ hans
      obtain ⟨rfl, rfl⟩ := Prod.mk.inj (Option.some.inj h)
      obtain ⟨hi', hle'⟩ := hi.addLookup (wanted, answer)
      refine ⟨hi', hle', List.mem_append_right _ (List.mem_singleton_self _), fun c hc a ha hid => ?_⟩
      obtain ⟨g, hg, -, hcount⟩ := hp c hc
      obtain ⟨p, hp', hpid, hptimes⟩ := Stream.mem_pendingOf hans hg ha
      rw [← hptimes]
      exact hcount p hp' (hpid.trans hid)
    all_goals
      obtain ⟨rfl, rfl⟩ := Prod.mk.inj (Option.some.inj h)
      exact ⟨hi, Le.refl w, trivial⟩
  | xack ids =>
    obtain ⟨rfl, rfl⟩ := Prod.mk.inj (Option.some.inj h)
    exact command_spec hi (ack_spec hi hp) trivial fun _ _ _ => trivial
  | deadLetter entry =>
    obtain ⟨rfl, rfl⟩ := Prod.mk.inj (Option.some.inj h)
    exact command_spec hi (deadLetterExec_spec hi hp) trivial fun _ _ _ => trivial
  | xlen | xinfoGroups =>
    obtain ⟨rfl, rfl⟩ := Prod.mk.inj (Option.some.inj h)
    exact command_spec hi ⟨hi, Le.refl w⟩ trivial fun _ _ _ => trivial
  | xlenDlq =>
    obtain ⟨rfl, rfl⟩ := Prod.mk.inj (Option.some.inj h)
    refine command_spec hi ?_ trivial fun _ _ _ => trivial
    split <;> exact ⟨hi, Le.refl w⟩
  | get key =>
    obtain ⟨rfl, rfl⟩ := Prod.mk.inj (Option.some.inj h)
    refine command_spec hi ⟨hi, Le.refl w⟩ ?_ fun _ _ _ => trivial
    cases hl : w.cache.lookup key with
    | none => trivial
    | some value => exact hi.cached (key, value) (List.mem_of_lookup_eq_some hl)
  | set key value =>
    obtain ⟨rfl, rfl⟩ := Prod.mk.inj (Option.some.inj h)
    refine command_spec hi (hi.setCache _ fun kv hkv => ?_) trivial fun _ _ _ => trivial
    rcases List.mem_cons.1 hkv with rfl | hkv
    · exact Or.inr hp
    · exact Or.inl hkv
  | fetch currency => exact fetchExec_spec hi h
  | openSession =>
    simp only [World.exec] at h
    split at h
    · rename_i hc
      obtain ⟨rfl, rfl⟩ := Prod.mk.inj (Option.some.inj h)
      exact command_spec hi (hi.setTable (Table.Le.openSession _) fun v hv => Or.inl hv) trivial
        fun _ _ he => connection_fault hc he
    · cases h
  | execute session stmt =>
    obtain ⟨hc, ⟨x, hx, heq⟩ | ⟨rfl, e, rfl, he⟩⟩ := World.exec_execute_cases S h
    · obtain ⟨hi', hle', hpost⟩ := insertExec_spec hi hp hx
      have hspec := command_spec (c := c) hi ⟨hi', hle'⟩ hpost
        fun e _ he hint => absurd hint (connection_fault hc he)
      rw [heq] at hspec
      exact hspec
    · exact ⟨hi, Le.refl _, fun hint => absurd hint (connection_fault hc he)⟩
  | commit session =>
    simp only [World.exec] at h
    split at h
    · rename_i hc
      obtain ⟨rfl, rfl⟩ := Prod.mk.inj (Option.some.inj h)
      obtain ⟨hi', hle', hpost⟩ := commitExec_spec hi session
      exact command_spec hi ⟨hi', hle'⟩ hpost fun _ _ he => connection_fault hc he
    · cases h
  | close session =>
    simp only [World.exec] at h
    split at h
    · rename_i hc
      obtain ⟨rfl, rfl⟩ := Prod.mk.inj (Option.some.inj h)
      exact command_spec hi (closeSession_spec hi session) trivial fun _ _ he => connection_fault hc he
    · cases h
  | now | sleep | stopIsSet =>
    obtain ⟨rfl, rfl⟩ := Prod.mk.inj (Option.some.inj h)
    exact ⟨hi, Le.refl w, trivial⟩
  | uniform hi' =>
    simp only [World.exec] at h
    split at h
    · obtain ⟨rfl, rfl⟩ := Prod.mk.inj (Option.some.inj h)
      exact ⟨hi, Le.refl w, trivial⟩
    · cases h
  | record currency rate =>
    obtain ⟨rfl, rfl⟩ := Prod.mk.inj (Option.some.inj h)
    obtain ⟨hi', hle'⟩ := hi.addRate hp
    exact ⟨hi', hle', List.mem_append_right _ (List.mem_singleton_self _)⟩

end Effects

/-! ## Calls -/

/-- The worlds of the service as its programs share them. -/
def protocol : Protocol (Op P) Op.Reply (World P) Choice where
  exec := World.exec S
  inv := Inv S
  le := Le
  refl := Le.refl
  trans := Le.trans

/-- The code runs safely from `w` on and, if it returns, returns with `Q`; if it raises, with `E`. -/
abbrev Safe {α : Type} (Q : α → World P → Prop) (E : Exn → World P → Prop) (p : Code P α) (w : World P) :
    Prop :=
  (protocol S).Ok Q E p w

section Rules

variable {S} {α β : Type} {Q : α → World P → Prop} {R : β → World P → Prop} {E F : Exn → World P → Prop}
  {w : World P}

theorem safe_ret {a : α} (h : Q a w) : Safe S Q E (.ret a) w := h

theorem safe_raise {e : Exn} (h : E e w) : Safe S Q E (.raise e) w := h

/-- One call. -/
theorem safe_ask {o : Op P} (hp : Pre S o w) : Safe S (Post S o) E (ask o) w :=
  fun _ hle hi _ _ _ hx => exec_spec hi (hp.mono S hle) hx

theorem safe_bind {p : Code P α} {f : α → Code P β} (h : Safe S Q E p w)
    (hf : ∀ a w', Le w w' → Q a w' → Safe S R E (f a) w') : Safe S R E (p >>= f) w :=
  Protocol.Ok.bind h hf fun _ _ _ he => he

/-- A call whose failure raises. -/
theorem safe_lift {p : Code P (Except Foreign α)} {Q : Except Foreign α → World P → Prop}
    (h : Safe S Q E p w) (hE : ∀ e w', Q (.error e) w' → E (.foreign e) w') :
    Safe S (fun a => Q (.ok a)) E (p >>= lift) w := by
  refine safe_bind h fun x w' _ hx => ?_
  cases x with
  | ok a => exact hx
  | error e => exact hE e w' hx

/-- A call and what follows it. -/
theorem safe_ask_bind {o : Op P} {f : o.Reply → Code P β} (hp : Pre S o w)
    (hf : ∀ r w', Le w w' → Post S o r w' → Safe S R E (f r) w') : Safe S R E (ask o >>= f) w :=
  safe_bind (safe_ask hp) hf

/-- Code under `try`, and what follows each of its endings. -/
theorem safe_attempt_bind {p : Code P α} {f : Except Exn α → Code P β} (h : Safe S Q F p w)
    (hok : ∀ a w', Le w w' → Q a w' → Safe S R E (f (.ok a)) w')
    (herr : ∀ e w', Le w w' → F e w' → Safe S R E (f (.error e)) w') : Safe S R E (p.attempt >>= f) w := by
  refine safe_bind (Protocol.Ok.attempt h) fun x w' hle hx => ?_
  cases x with
  | ok a => exact hok a w' hle hx
  | error e => exact herr e w' hle hx

end Rules

end App
