/-
Pages of an ordered list: the elements from one position on, at most so many of them. An element's
position is the number of elements before it, so it only grows while elements are added, and the
page from `offset` on holds exactly the elements whose position is in its range.
-/
import Mathlib.Data.List.Sort

namespace Store

variable {α : Type} {le : α → α → Prop} {l l' : List α} {x : α}

/-! ## Distinct elements -/

/-- Of any two elements one comes first. -/
def Distinct (le : α → α → Prop) (l : List α) : Prop := l.Pairwise fun x y => ¬(le x y ∧ le y x)

theorem Distinct.perm (h : Distinct le l) (hp : l.Perm l') : Distinct le l' :=
  (hp.pairwise_iff fun hxy hyx => hxy ⟨hyx.2, hyx.1⟩).1 h

theorem rel_self [Std.Total le] (x : α) : le x x := (Std.Total.total x x).elim id id

/-- Whether an element is within a range of positions. -/
theorem mem_take_drop [Std.Total le] {l₁ l₂ : List α} (hd : Distinct le (l₁ ++ x :: l₂))
    (limit offset : Nat) :
    x ∈ ((l₁ ++ x :: l₂).drop offset).take limit ↔ offset ≤ l₁.length ∧ l₁.length < offset + limit := by
  obtain ⟨-, hafter, hne⟩ := List.pairwise_append.1 hd
  have hx₁ : x ∉ l₁ := fun hx => hne x hx x (List.mem_cons_self ..) ⟨rel_self x, rel_self x⟩
  have hx₂ : x ∉ l₂ := fun hx => (List.pairwise_cons.1 hafter).1 x hx ⟨rel_self x, rel_self x⟩
  by_cases hoff : offset ≤ l₁.length
  · rw [List.drop_append_of_le_length hoff, List.take_append, List.mem_append, List.length_drop]
    have hx₁' : x ∉ (l₁.drop offset).take limit :=
      fun hx => hx₁ (List.mem_of_mem_drop (List.mem_of_mem_take hx))
    by_cases hlt : l₁.length < offset + limit
    · obtain ⟨n, hn⟩ : ∃ n, limit - (l₁.length - offset) = n + 1 :=
        ⟨limit - (l₁.length - offset) - 1, by omega⟩
      rw [hn, List.take_succ_cons]
      exact ⟨fun _ => ⟨hoff, hlt⟩, fun _ => Or.inr (List.mem_cons_self ..)⟩
    · rw [show limit - (l₁.length - offset) = 0 by omega, List.take_zero]
      exact ⟨fun h => absurd h (by simp [hx₁']), fun h => absurd h.2 hlt⟩
  · -- the page begins behind `x`
    refine ⟨fun hx => absurd (List.mem_of_mem_take hx) fun hx => ?_, fun h => absurd h.1 hoff⟩
    obtain ⟨n, hn⟩ : ∃ n, offset - l₁.length = n + 1 := ⟨offset - l₁.length - 1, by omega⟩
    rw [List.drop_append, hn, List.drop_succ_cons, List.drop_eq_nil_of_le (by omega), List.nil_append] at hx
    exact hx₂ (List.mem_of_mem_drop hx)

/-! ## Ranks and pages -/

section Rank

variable (le) [DecidableRel le]

/-- How many elements of the list come before `x`. -/
def rank (l : List α) (x : α) : Nat := l.countP fun y => ¬le x y

/-- At most `limit` elements in order, from position `offset` on. -/
def page (limit offset : Nat) (l : List α) : List α := ((l.insertionSort le).drop offset).take limit

variable {le}

theorem rank_mono (h : l.Sublist l') : rank le l x ≤ rank le l' x := h.countP_le

theorem rank_perm (h : l.Perm l') : rank le l x = rank le l' x := h.countP_eq _

theorem length_page (limit offset : Nat) :
    (page le limit offset l).length = min limit (l.length - offset) := by
  simp [page]

variable [Std.Total le]

theorem rank_lt_length (hx : x ∈ l) : rank le l x < l.length := by
  refine lt_of_le_of_ne List.countP_le_length fun h => ?_
  have hall := List.countP_eq_length.1 h x hx
  exact absurd (rel_self x) (by simpa using hall)

/-- In a list that is in order, the rank of an element is its position. -/
theorem rank_of_split {l₁ l₂ : List α} (hsorted : (l₁ ++ x :: l₂).Pairwise le)
    (hd : Distinct le (l₁ ++ x :: l₂)) : rank le (l₁ ++ x :: l₂) x = l₁.length := by
  obtain ⟨-, hafter, hbefore⟩ := List.pairwise_append.1 hsorted
  obtain ⟨-, -, hne⟩ := List.pairwise_append.1 hd
  have h₁ : l₁.countP (fun y => ¬le x y) = l₁.length := by
    refine List.countP_eq_length.2 fun y hy => decide_eq_true fun hxy => ?_
    exact hne y hy x (List.mem_cons_self ..) ⟨hbefore y hy x (List.mem_cons_self ..), hxy⟩
  have h₂ : (x :: l₂).countP (fun y => ¬le x y) = 0 := by
    refine List.countP_eq_zero.2 fun y hy => ?_
    rcases List.mem_cons.1 hy with rfl | hy
    · simpa using rel_self y
    · simpa using (List.pairwise_cons.1 hafter).1 y hy
  unfold rank
  rw [List.countP_append, h₁, h₂, Nat.add_zero]

/-- A page holds exactly the elements whose rank is in its range. -/
theorem mem_page [IsTrans α le] (hd : Distinct le l) (hx : x ∈ l) (limit offset : Nat) :
    x ∈ page le limit offset l ↔ offset ≤ rank le l x ∧ rank le l x < offset + limit := by
  -- in the sorted list `x` stands behind exactly the elements that come before it
  have hperm := List.perm_insertionSort le l
  obtain ⟨l₁, l₂, hsplit⟩ := List.append_of_mem (hperm.mem_iff.2 hx)
  have hd' := hd.perm hperm.symm
  have hsorted := List.pairwise_insertionSort le l
  rw [hsplit] at hd' hsorted
  unfold page
  rw [hsplit, mem_take_drop hd', ← rank_perm hperm, hsplit, rank_of_split hsorted hd']

end Rank

/-! ## Walks through pages -/

section Walk

variable {ε Page β : Type} {fetch : Nat → Except ε Page} {items : Page → List β} {more : Page → Bool}

/-- The pages a client is given that starts at a position, goes on by the number of items it is given,
and stops at the first page that says that there is no more. -/
inductive Walked (fetch : Nat → Except ε Page) (items : Page → List β) (more : Page → Bool) :
    Nat → List Page → Prop
  | last {offset : Nat} {p : Page} (h : fetch offset = .ok p) (hend : more p = false) :
    Walked fetch items more offset [p]
  | next {offset : Nat} {p : Page} {ps : List Page} (h : fetch offset = .ok p) (hmore : more p = true)
    (hrest : Walked fetch items more (offset + (items p).length) ps) : Walked fetch items more offset (p :: ps)

/-- There is one walk from a position. -/
theorem Walked.unique {offset : Nat} {ps ps' : List Page} (h : Walked fetch items more offset ps)
    (h' : Walked fetch items more offset ps') : ps = ps' := by
  induction h generalizing ps' with
  | last hp hend =>
    cases h' with
    | last hp' hend' => rw [Except.ok.inj (hp.symm.trans hp')]
    | next hp' hmore' hrest' =>
      rw [Except.ok.inj (hp.symm.trans hp'), hmore'] at hend
      cases hend
  | next hp hmore hrest ih =>
    cases h' with
    | last hp' hend' =>
      rw [Except.ok.inj (hp.symm.trans hp'), hend'] at hmore
      cases hmore
    | next hp' hmore' hrest' =>
      obtain rfl := Except.ok.inj (hp.symm.trans hp')
      rw [ih hrest']

/-- What every page that can be fetched has, every page of a walk has. -/
theorem Walked.forall {Q : Page → Prop} {offset : Nat} {ps : List Page}
    (h : Walked fetch items more offset ps) (hQ : ∀ offset p, fetch offset = .ok p → Q p) : ∀ p ∈ ps, Q p := by
  induction h with
  | last hp hend =>
    intro p hmem
    rw [List.mem_singleton.1 hmem]
    exact hQ _ _ hp
  | next hp hmore hrest ih =>
    intro p hmem
    rcases List.mem_cons.1 hmem with rfl | hmem
    · exact hQ _ _ hp
    · exact ih p hmem

/-- A fetch that answers with the next `size` elements of a list, and says that there is more exactly
if they do not reach its end, lets a walk from any position of the list come to its end with all the
elements from there on, one page of them after the other. -/
theorem exists_walked {l : List β} {size : Nat} (hsize : 1 ≤ size)
    (hfetch : ∀ offset, ∃ p, fetch offset = .ok p ∧ items p = (l.drop offset).take size ∧
      more p = decide (offset + (items p).length < l.length)) :
    ∀ offset, offset ≤ l.length → ∃ ps, Walked fetch items more offset ps ∧ ps.flatMap items = l.drop offset ∧
      ∀ before p after, ps = before ++ p :: after → (more p = true ↔ after.flatMap items ≠ []) := by
  intro offset hoffset
  -- the induction is on how many elements are left
  induction hleft : l.length - offset using Nat.strong_induction_on generalizing offset with
  | _ left ih =>
    obtain ⟨p, hp, hitems, hmore⟩ := hfetch offset
    have hlength : (items p).length = min size (l.length - offset) := by
      rw [hitems, List.length_take, List.length_drop]
    by_cases hlt : offset + (items p).length < l.length
    · have hnext : (items p).length = size := by omega
      obtain ⟨ps, hwalk, hrest, hmores⟩ := ih (l.length - (offset + (items p).length)) (by omega)
        (offset + (items p).length) hlt.le rfl
      have hne : ps.flatMap items ≠ [] := by
        rw [hrest]
        intro hnil
        have := List.drop_eq_nil_iff.1 hnil
        omega
      refine ⟨p :: ps, .next hp (by rw [hmore]; exact decide_eq_true hlt) hwalk, ?_, ?_⟩
      · rw [List.flatMap_cons, hrest, hnext, hitems, ← List.drop_drop]
        exact List.take_append_drop size _
      · intro before q after heq
        cases before with
        | nil =>
          obtain ⟨rfl, rfl⟩ := List.cons.inj heq
          exact iff_of_true (by rw [hmore]; exact decide_eq_true hlt) hne
        | cons q' before =>
          obtain ⟨-, heq'⟩ := List.cons.inj heq
          exact hmores before q after heq'
    · have hend : more p = false := by rw [hmore]; exact decide_eq_false hlt
      refine ⟨[p], .last hp hend, ?_, ?_⟩
      · rw [List.flatMap_cons, List.flatMap_nil, List.append_nil, hitems]
        exact List.take_of_length_le (by rw [List.length_drop]; omega)
      · intro before q after heq
        cases before with
        | nil =>
          obtain ⟨rfl, rfl⟩ := List.cons.inj heq
          simp [hend]
        | cons q' before =>
          obtain ⟨-, heq'⟩ := List.cons.inj heq
          simp at heq'

end Walk

end Store
