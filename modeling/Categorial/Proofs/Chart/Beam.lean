import Mathlib.Data.List.Induction
import Categorial.Chart.Beam
import Categorial.Proofs.Chart.Step

/-!
What one offer can do to a beam: nothing, where the beam holds the step; count the cell, where it is
refused; or place the cell and let the last ones leave. Main statements: whatever the scores are,
the table of a beam has the steps of its retained cells and no others, no two retained cells are one
step, and every retained cell was offered.
-/

namespace Categorial

/-- A cell with the rank that it is offered with. -/
structure Offer (K : Type) where
  rank : Rank K
  cell : Cell K

namespace Offer

variable {K : Type}

/-- Whether the cells of two offers are the same step. -/
def sameStep (a b : Offer K) : Bool := a.cell.sameStep b.cell

end Offer

/-- The offer that placed a cell. -/
def Placed.offer {K : Type} (a : Placed K) : Offer K := ⟨a.rank, a.cell⟩

namespace Beam

variable {K : Type}

/-- The offers that placed the cells of a beam. -/
def offers (b : Beam K) : List (Offer K) := b.placed.map Placed.offer

theorem map_cell_offers (b : Beam K) : b.offers.map Offer.cell = b.cells := by
  simp [offers, cells, Placed.offer]

/-- What holds of a beam at any time. -/
structure Sound (b : Beam K) : Prop where
  /-- The table has the steps of the retained cells and no others. -/
  steps_perm : b.steps.Perm b.cells
  /-- No two retained cells are one step. -/
  apart : b.cells.Pairwise fun c d => c.sameStep d = false
  /-- Retained cells were offered before those that are still to come. -/
  arrival_lt : ∀ a ∈ b.placed, a.arrival < b.offered

theorem sound_empty : (empty : Beam K).Sound :=
  ⟨.nil, .nil, by simp [empty]⟩

/-- A beam holds a step if a retained cell is that step. -/
theorem Sound.holds_iff {b : Beam K} (h : b.Sound) (c : Cell K) :
    b.holds c = true ↔ ∃ d ∈ b.cells, d.sameStep c = true := by
  rw [holds, List.any_eq_true]
  constructor
  · rintro ⟨d, hd, hsame⟩
    exact ⟨d, h.steps_perm.mem_iff.1 hd, hsame⟩
  · rintro ⟨d, hd, hsame⟩
    exact ⟨d, h.steps_perm.mem_iff.2 hd, hsame⟩

/-- A new cell and the retained ones are no two of them one step. -/
theorem Sound.apart_cons {b : Beam K} (h : b.Sound) {c : Cell K} (hnew : b.holds c = false) :
    (c :: b.cells).Pairwise fun c d => c.sameStep d = false := by
  refine List.pairwise_cons.2 ⟨fun d hd => ?_, h.apart⟩
  rw [Cell.sameStep_comm, ← Bool.not_eq_true]
  intro hsame
  rw [(h.holds_iff c).2 ⟨d, hd, hsame⟩] at hnew
  exact Bool.noConfusion hnew

/-- The table with a new step has no step twice. -/
theorem Sound.pairwise_steps {b : Beam K} (h : b.Sound) {c : Cell K} (hnew : b.holds c = false) :
    (b.steps ++ [c]).Pairwise fun c d => c.sameStep d = false := by
  refine (((List.perm_append_singleton _ _).trans (h.steps_perm.cons _)).symm).pairwise
    (h.apart_cons hnew) fun {c d} hcd => ?_
  rwa [Cell.sameStep_comm]

/-- Of cells of which no two are one step, a retained one is forgotten and no other. -/
theorem forget_perm {steps : List (Cell K)} {c : Cell K} (hc : c ∈ steps)
    (hapart : steps.Pairwise fun c d => c.sameStep d = false) :
    steps.Perm (c :: forget steps c) := by
  obtain ⟨a, front, back, hfront, hsame, hsteps, herase⟩ :=
    List.exists_of_eraseP (p := fun s => s.sameStep c) hc (Cell.sameStep_refl c)
  have hac : a = c := by
    rw [hsteps, List.pairwise_append, List.pairwise_cons] at hapart
    rw [hsteps, List.mem_append, List.mem_cons] at hc
    rcases hc with hc | rfl | hc
    · exact absurd (Cell.sameStep_refl c) (hfront c hc)
    · rfl
    · rw [hapart.2.1.1 c hc] at hsame
      exact Bool.noConfusion hsame
  rw [forget, herase, hsteps, hac]
  exact List.perm_middle

/-- Forgetting some of the cells of a table leaves the others. -/
theorem foldl_forget_perm {evicted kept : List (Cell K)} : ∀ {steps : List (Cell K)},
    steps.Perm (evicted ++ kept) → steps.Pairwise (fun c d => c.sameStep d = false) →
      (evicted.foldl forget steps).Perm kept := by
  induction evicted with
  | nil =>
    intro steps h _
    exact h
  | cons c evicted ih =>
    intro steps h hapart
    have hforget := forget_perm (h.mem_iff.2 List.mem_cons_self) hapart
    refine ih ((hforget.symm.trans h).cons_inv) ?_
    exact hapart.sublist List.eraseP_sublist

variable [Scalar K]

/-- Whether a new cell is refused: the beam is full, and the cell does not go before the last
one. -/
def refuses (b : Beam K) (room : Number) (new : Placed K) : Bool :=
  room.le (.int b.size) && b.placed.getLast?.any new.notBefore

/-- The beam after a new cell was placed and those for which there is no room left. -/
def accept (b : Beam K) (room : Number) (new : Placed K) : Beam K :=
  let placed := insertRanked Placed.before new b.placed
  let size := kept room placed.length
  ⟨placed.take size, ((placed.drop size).reverse.map (·.cell)).foldl forget (b.steps ++ [new.cell]),
    b.offered + 1⟩

/-- What an offer does. -/
theorem insert_cases (b : Beam K) (room : Number) (rank : Rank K) (c : Cell K) :
    (b.holds c = true ∧ b.insert room rank c = (false, b)) ∨
    (b.holds c = false ∧ b.refuses room ⟨rank, b.offered, c⟩ = true ∧
      b.insert room rank c = (false, { b with offered := b.offered + 1 })) ∨
    (b.holds c = false ∧ b.refuses room ⟨rank, b.offered, c⟩ = false ∧
      b.insert room rank c = (true, b.accept room ⟨rank, b.offered, c⟩)) := by
  rw [insert]
  cases hholds : b.holds c with
  | true => exact Or.inl ⟨rfl, if_pos rfl⟩
  | false =>
    rw [if_neg Bool.false_ne_true]
    cases hrefuses : b.refuses room ⟨rank, b.offered, c⟩ with
    | true =>
      rw [refuses] at hrefuses
      exact Or.inr (Or.inl ⟨rfl, rfl, if_pos hrefuses⟩)
    | false =>
      rw [refuses] at hrefuses
      exact Or.inr (Or.inr ⟨rfl, rfl, if_neg (by rw [hrefuses]; exact Bool.false_ne_true)⟩)

theorem perm_reverse_drop_append_take {α : Type} (xs : List α) (n : Nat) :
    xs.Perm ((xs.drop n).reverse ++ xs.take n) := by
  have htake : (xs.take n ++ xs.drop n).Perm ((xs.drop n).reverse ++ xs.take n) :=
    List.perm_append_comm.trans ((List.reverse_perm _).symm.append_right _)
  rwa [List.take_append_drop] at htake

theorem cells_insertRanked_perm (b : Beam K) (new : Placed K) :
    ((insertRanked Placed.before new b.placed).map Placed.cell).Perm (new.cell :: b.cells) :=
  (insertRanked_perm Placed.before new b.placed).map Placed.cell

theorem mem_accept {b : Beam K} {room : Number} {new a : Placed K}
    (h : a ∈ (b.accept room new).placed) : a = new ∨ a ∈ b.placed :=
  List.mem_cons.1 ((insertRanked_perm _ _ _).mem_iff.1 (List.mem_of_mem_take h))

/-- The table that a new cell is put into has the steps of the cells that leave and of those that
stay, and no others. -/
theorem Sound.steps_perm_accept {b : Beam K} (h : b.Sound) (new : Placed K) (size : Nat) :
    let placed := insertRanked Placed.before new b.placed
    (b.steps ++ [new.cell]).Perm
      ((placed.drop size).reverse.map Placed.cell ++ (placed.take size).map Placed.cell) := by
  intro placed
  have hsteps : (b.steps ++ [new.cell]).Perm (new.cell :: b.cells) :=
    (List.perm_append_singleton _ _).trans (h.steps_perm.cons _)
  refine hsteps.trans ((cells_insertRanked_perm b new).symm.trans ?_)
  rw [← List.map_append]
  exact (perm_reverse_drop_append_take _ _).map Placed.cell

theorem Sound.accept {b : Beam K} (h : b.Sound) (room : Number) {new : Placed K}
    (hnew : b.holds new.cell = false) (harrival : new.arrival = b.offered) :
    (b.accept room new).Sound := by
  have hcells := cells_insertRanked_perm b new
  refine ⟨foldl_forget_perm (h.steps_perm_accept new _) (h.pairwise_steps hnew), ?_, ?_⟩
  · have hall := hcells.symm.pairwise (h.apart_cons hnew) fun {c d} hcd => by
      rwa [Cell.sameStep_comm]
    exact hall.sublist ((List.take_sublist _ _).map _)
  · intro a ha
    rcases mem_accept ha with rfl | ha
    · rw [harrival]
      exact Nat.lt_succ_self _
    · exact Nat.lt_succ_of_lt (h.arrival_lt a ha)

/-- Offers keep beams sound. -/
theorem Sound.insert {b : Beam K} (h : b.Sound) (room : Number) (rank : Rank K) (c : Cell K) :
    (b.insert room rank c).2.Sound := by
  rcases insert_cases b room rank c with ⟨-, heq⟩ | ⟨-, -, heq⟩ | ⟨hnew, -, heq⟩
  · rwa [heq]
  · rw [heq]
    exact ⟨h.steps_perm, h.apart, fun a ha => Nat.lt_succ_of_lt (h.arrival_lt a ha)⟩
  · rw [heq]
    exact h.accept room hnew rfl

/-- The beam after an offer. -/
def push (room : Number) (b : Beam K) (o : Offer K) : Beam K := (b.insert room o.rank o.cell).2

/-- The beam that some offers make. -/
def ofOffers (room : Number) (os : List (Offer K)) : Beam K := os.foldl (push room) empty

theorem ofOffers_concat (room : Number) (os : List (Offer K)) (o : Offer K) :
    ofOffers room (os ++ [o]) = push room (ofOffers room os) o := by
  rw [ofOffers, List.foldl_append, List.foldl_cons, List.foldl_nil, ofOffers]

/-- Beams made of offers are sound. -/
theorem sound_ofOffers (room : Number) (os : List (Offer K)) : (ofOffers room os).Sound := by
  induction os using List.reverseRecOn with
  | nil => exact sound_empty
  | append_singleton os o ih =>
    rw [ofOffers_concat]
    exact ih.insert room o.rank o.cell

theorem mem_offers_push {room : Number} {b : Beam K} {o a : Offer K}
    (h : a ∈ (push room b o).offers) : a = o ∨ a ∈ b.offers := by
  obtain ⟨p, hp, rfl⟩ := List.mem_map.1 h
  rw [push] at hp
  rcases insert_cases b room o.rank o.cell with ⟨-, heq⟩ | ⟨-, -, heq⟩ | ⟨-, -, heq⟩
  · rw [heq] at hp
    exact Or.inr (List.mem_map_of_mem hp)
  · rw [heq] at hp
    exact Or.inr (List.mem_map_of_mem hp)
  · rw [heq] at hp
    rcases mem_accept hp with rfl | hp
    · exact Or.inl rfl
    · exact Or.inr (List.mem_map_of_mem hp)

/-- Retained cells were offered. -/
theorem mem_of_mem_ofOffers {room : Number} {os : List (Offer K)} {a : Offer K}
    (h : a ∈ (ofOffers room os).offers) : a ∈ os := by
  induction os using List.reverseRecOn with
  | nil => exact h
  | append_singleton os o ih =>
    rw [ofOffers_concat] at h
    rcases mem_offers_push h with rfl | h
    · simp
    · exact List.mem_append_left _ (ih h)

end Beam

end Categorial
