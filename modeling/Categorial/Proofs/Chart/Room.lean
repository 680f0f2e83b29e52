import Categorial.Proofs.Chart.Beam
import Categorial.Proofs.Collection.Top
import Categorial.Proofs.Number.Whole

/-!
Beams that lose no cell, whatever the scores are. Main statements: such a beam retains the first
cell of every step that was offered, and a beam with room for a whole number of cells is one as long
as it was not offered more of them.
-/

namespace Categorial.Beam

variable {K : Type}

/-- A beam with room for a whole number of cells keeps that many. -/
theorem kept_of_whole {room : Number} {k : Nat} (h : room.whole = .ok k) (n : Nat) :
    kept room n = min n k := by
  rw [← kept_int]
  induction n with
  | zero => rfl
  | succ n ih => rw [kept, kept, ih, Number.lt_of_whole h]

variable [Scalar K]

theorem offered_le_push (room : Number) (b : Beam K) (o : Offer K) :
    b.offered ≤ (push room b o).offered := by
  rw [push]
  rcases insert_cases b room o.rank o.cell with ⟨-, heq⟩ | ⟨-, -, heq⟩ | ⟨-, -, heq⟩
  · exact Nat.le_of_eq (by rw [heq])
  · rw [heq]
    exact Nat.le_succ _
  · rw [heq]
    exact Nat.le_succ _

theorem offered_le_append (room : Number) (os os' : List (Offer K)) :
    (ofOffers room os).offered ≤ (ofOffers room (os ++ os')).offered := by
  induction os' using List.reverseRecOn with
  | nil => exact Nat.le_of_eq (by rw [List.append_nil])
  | append_singleton os' o ih =>
    rw [← List.append_assoc, ofOffers_concat]
    exact Nat.le_trans ih (offered_le_push room _ o)

/-- A beam that lost no cell by the last offer lost none before, and holds the step of this offer or
takes its cell. -/
theorem push_cases {b : Beam K} (hle : b.size ≤ b.offered) {room : Number} {o : Offer K}
    (h : (push room b o).size = (push room b o).offered) : b.size = b.offered ∧
      ((b.holds o.cell = true ∧ push room b o = b) ∨
        (b.holds o.cell = false ∧ (push room b o).cells.Perm (o.cell :: b.cells))) := by
  rw [push] at h ⊢
  rcases insert_cases b room o.rank o.cell with
    ⟨hholds, heq⟩ | ⟨-, -, heq⟩ | ⟨hholds, -, heq⟩
  · rw [heq] at h ⊢
    exact ⟨h, Or.inl ⟨hholds, rfl⟩⟩
  · rw [heq] at h
    change b.size = b.offered + 1 at h
    omega
  · rw [heq] at h ⊢
    let new : Placed K := ⟨o.rank, b.offered, o.cell⟩
    have hlength : (insertRanked Placed.before new b.placed).length = b.size + 1 := by
      rw [(insertRanked_perm _ _ _).length_eq, List.length_cons, size]
    have hplaced : (b.accept room new).placed =
        (insertRanked Placed.before new b.placed).take (kept room (b.size + 1)) := by
      rw [accept, hlength]
    have hsize : (b.accept room new).size = b.offered + 1 := h
    rw [size, hplaced, List.length_take, hlength] at hsize
    have hall : (b.accept room new).placed = insertRanked Placed.before new b.placed := by
      rw [hplaced, List.take_of_length_le (by omega)]
    refine ⟨by omega, Or.inr ⟨hholds, ?_⟩⟩
    rw [cells, hall]
    exact cells_insertRanked_perm b new

theorem size_push_le {b : Beam K} (hle : b.size ≤ b.offered) (room : Number) (o : Offer K) :
    (push room b o).size ≤ (push room b o).offered := by
  rw [push]
  rcases insert_cases b room o.rank o.cell with ⟨-, heq⟩ | ⟨-, -, heq⟩ | ⟨-, -, heq⟩
  · rwa [heq]
  · rw [heq]
    exact Nat.le_succ_of_le hle
  · rw [heq]
    change (b.accept room _).placed.length ≤ b.offered + 1
    rw [accept, List.length_take, (insertRanked_perm _ _ _).length_eq, List.length_cons]
    exact Nat.le_trans (Nat.min_le_right _ _) (Nat.succ_le_succ hle)

theorem size_le_offered (room : Number) (os : List (Offer K)) :
    (ofOffers room os).size ≤ (ofOffers room os).offered := by
  induction os using List.reverseRecOn with
  | nil => exact Nat.le_refl _
  | append_singleton os o ih =>
    rw [ofOffers_concat]
    exact size_push_le ih room o

/-- A beam that lost no cell lost none of the first ones. -/
theorem size_eq_of_append {room : Number} {os os' : List (Offer K)}
    (h : (ofOffers room (os ++ os')).size = (ofOffers room (os ++ os')).offered) :
    (ofOffers room os).size = (ofOffers room os).offered := by
  induction os' using List.reverseRecOn with
  | nil => rwa [List.append_nil] at h
  | append_singleton os' o ih =>
    rw [← List.append_assoc, ofOffers_concat] at h
    exact ih (push_cases (size_le_offered room _) h).1

/-- A beam that lost no cell retains the first cell of every step. -/
theorem cells_ofOffers_perm {room : Number} {os : List (Offer K)}
    (h : (ofOffers room os).size = (ofOffers room os).offered) :
    (ofOffers room os).cells.Perm (distinct Cell.sameStep (os.map Offer.cell)) := by
  induction os using List.reverseRecOn with
  | nil => exact .nil
  | append_singleton os o ih =>
    have hperm := ih (size_eq_of_append h)
    have hany : (distinct Cell.sameStep (os.map Offer.cell)).any (fun d => d.sameStep o.cell) =
        (ofOffers room os).holds o.cell := by
      rw [Bool.eq_iff_iff, List.any_eq_true, (sound_ofOffers room os).holds_iff]
      simp only [hperm.mem_iff]
    rw [ofOffers_concat] at h ⊢
    rw [List.map_append, List.map_singleton, distinct_concat, appendNew, hany]
    rcases (push_cases (size_le_offered room os) h).2 with ⟨hholds, heq⟩ | ⟨hholds, hcells⟩
    · rwa [if_pos hholds, heq]
    · rw [if_neg (by rw [hholds]; exact Bool.false_ne_true)]
      exact hcells.trans ((hperm.cons _).trans (List.perm_append_singleton _ _).symm)

/-- A beam that has room for every cell that was offered loses none of them. -/
theorem size_push_eq {b : Beam K} (hsize : b.size = b.offered) {room : Number} {k : Nat}
    (hroom : room.whole = .ok k) {o : Offer K} (hk : (push room b o).offered ≤ k) :
    (push room b o).size = (push room b o).offered := by
  rw [push] at hk ⊢
  rcases insert_cases b room o.rank o.cell with ⟨-, heq⟩ | ⟨-, hrefuses, heq⟩ | ⟨-, -, heq⟩
  · rwa [heq]
  · -- a beam that is not full refuses nothing
    rw [heq] at hk
    rw [refuses, Number.le_of_whole hroom, Bool.and_eq_true, decide_eq_true_eq, hsize] at hrefuses
    have hfull := hrefuses.1
    dsimp only at hk
    omega
  · rw [heq] at hk ⊢
    have hk : b.offered + 1 ≤ k := hk
    change (b.accept room _).placed.length = b.offered + 1
    rw [accept, List.length_take, (insertRanked_perm _ _ _).length_eq, List.length_cons,
      kept_of_whole hroom]
    change min (min (b.size + 1) k) (b.size + 1) = b.offered + 1
    omega

/-- What holds of a beam as long as no cell had to leave it. -/
structure Exhaustive (os : List (Offer K)) (b : Beam K) : Prop where
  size_eq : b.size = b.offered
  held : ∀ o ∈ os, ∃ c ∈ b.cells, c.sameStep o.cell = true

theorem Exhaustive.push {os : List (Offer K)} {b : Beam K} (h : Exhaustive os b) (hsound : b.Sound)
    {room : Number} {k : Nat} (hroom : room.whole = .ok k) {o : Offer K}
    (hk : (push room b o).offered ≤ k) : Exhaustive (os ++ [o]) (push room b o) := by
  have hsize := size_push_eq h.size_eq hroom hk
  refine ⟨hsize, fun o' ho' => ?_⟩
  rcases (push_cases (Nat.le_of_eq h.size_eq) hsize).2 with ⟨hholds, heq⟩ | ⟨-, hcells⟩
  · rw [heq]
    rcases List.mem_append.1 ho' with ho' | ho'
    · exact h.held o' ho'
    · rw [List.mem_singleton.1 ho']
      exact (hsound.holds_iff o.cell).1 hholds
  · rcases List.mem_append.1 ho' with ho' | ho'
    · obtain ⟨c, hc, hsame⟩ := h.held o' ho'
      exact ⟨c, hcells.mem_iff.2 (List.mem_cons_of_mem _ hc), hsame⟩
    · rw [List.mem_singleton.1 ho']
      exact ⟨o.cell, hcells.mem_iff.2 List.mem_cons_self, Cell.sameStep_refl o.cell⟩

/-- A beam that was not offered more cells than it may hold retains a cell for every step. -/
theorem exhaustive_ofOffers {room : Number} {k : Nat} (hroom : room.whole = .ok k)
    {os : List (Offer K)} (hk : (ofOffers room os).offered ≤ k) :
    Exhaustive os (ofOffers room os) := by
  induction os using List.reverseRecOn with
  | nil => exact ⟨rfl, by simp⟩
  | append_singleton os o ih =>
    have hfirst := ih (Nat.le_trans (offered_le_append room os [o]) hk)
    rw [ofOffers_concat] at hk ⊢
    exact hfirst.push (sound_ofOffers room os) hroom hk

end Categorial.Beam
