import Categorial.Proofs.Chart.Beam

/-!
Beams whose table complains about a step that it does not have. A cell that leaves a beam takes its
step out of the table; the table of steps and the retained cells go together, so the step is always
there. Main statement: offers never make a table complain, and what they make with such a table is
the beam that they make.
-/

namespace Categorial.Beam

variable {K : Type}

/-- A table of steps without the step that a cell is, which it must have. -/
def remove? (steps : List (Cell K)) (c : Cell K) : Option (List (Cell K)) :=
  if steps.any fun s => s.sameStep c then some (forget steps c) else none

/-- The steps of cells that a table has can be taken out of it, one after the other. -/
theorem foldlM_remove? {evicted kept : List (Cell K)} : ∀ {steps : List (Cell K)},
    steps.Perm (evicted ++ kept) → steps.Pairwise (fun c d => c.sameStep d = false) →
      evicted.foldlM remove? steps = some (evicted.foldl forget steps) := by
  induction evicted with
  | nil =>
    intro steps _ _
    rfl
  | cons c evicted ih =>
    intro steps h hapart
    have hc : c ∈ steps := h.mem_iff.2 List.mem_cons_self
    have hremove : remove? steps c = some (forget steps c) := by
      have hheld : (steps.any fun s => s.sameStep c) = true :=
        List.any_eq_true.2 ⟨c, hc, Cell.sameStep_refl c⟩
      rw [remove?, if_pos hheld]
    have hforget := forget_perm hc hapart
    rw [List.foldlM_cons, hremove, List.foldl_cons]
    exact ih ((hforget.symm.trans h).cons_inv) (hapart.sublist List.eraseP_sublist)

variable [Scalar K]

/-- The beam after a new cell was placed, if its table has the steps of those for which there is no
room left. -/
def accept? (b : Beam K) (room : Number) (new : Placed K) : Option (Beam K) :=
  let placed := insertRanked Placed.before new b.placed
  let size := kept room placed.length
  (((placed.drop size).reverse.map (·.cell)).foldlM remove? (b.steps ++ [new.cell])).map
    fun steps => ⟨placed.take size, steps, b.offered + 1⟩

/-- The beam after an offer, if its table has the steps that have to leave. -/
def push? (room : Number) (b : Beam K) (o : Offer K) : Option (Beam K) :=
  if b.holds o.cell then some b
  else if b.refuses room ⟨o.rank, b.offered, o.cell⟩ then
    some { b with offered := b.offered + 1 }
  else b.accept? room ⟨o.rank, b.offered, o.cell⟩

theorem Sound.accept?_eq {b : Beam K} (h : b.Sound) (room : Number) {new : Placed K}
    (hnew : b.holds new.cell = false) : b.accept? room new = some (b.accept room new) := by
  rw [accept?, foldlM_remove? (h.steps_perm_accept new _) (h.pairwise_steps hnew)]
  rfl

theorem Sound.push?_eq {b : Beam K} (h : b.Sound) (room : Number) (o : Offer K) :
    push? room b o = some (push room b o) := by
  rw [push?, push]
  rcases insert_cases b room o.rank o.cell with ⟨hholds, heq⟩ | ⟨hnew, hrefuses, heq⟩ |
    ⟨hnew, hrefuses, heq⟩
  · rw [if_pos hholds, heq]
  · rw [if_neg (by simp [hnew]), if_pos hrefuses, heq]
  · rw [if_neg (by simp [hnew]), if_neg (by simp [hrefuses]), heq, h.accept?_eq room hnew]

/-- Offers never ask a table for a step that it does not have. -/
theorem foldlM_push? (room : Number) (os : List (Offer K)) :
    os.foldlM (push? room) empty = some (ofOffers room os) := by
  induction os using List.reverseRecOn with
  | nil => rfl
  | append_singleton os o ih =>
    rw [List.foldlM_append, ih, ofOffers_concat, ← (sound_ofOffers room os).push?_eq room o]
    simp

end Categorial.Beam
