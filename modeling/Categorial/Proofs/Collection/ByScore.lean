import Categorial.Collection.ByScore
import Categorial.Proofs.Collection.Ranked
import Categorial.Proofs.Scalar.Order

/-!
Greatest scores. Main statements: the maximum of some scores is one of them and none of them is
greater, and a list that is sorted by defined scores has no greater score behind a smaller one and
keeps the order of equal ones.
-/

namespace Categorial

variable {α K : Type} [Scalar K]

namespace Scalar

/-- The maximum of some scores is one of them. -/
theorem maximum_mem (x : K) (xs : List K) : maximum x xs ∈ x :: xs := by
  rw [maximum]
  induction xs generalizing x with
  | nil => exact List.mem_cons_self
  | cons y ys ih =>
    rw [List.foldl_cons]
    split
    · exact List.mem_cons_of_mem x (ih y)
    · rcases List.mem_cons.1 (ih x) with heq | hmem
      · rw [heq]
        exact List.mem_cons_self
      · exact List.mem_cons_of_mem x (List.mem_cons_of_mem y hmem)

variable [OrderedScalar K]

theorem lt_irrefl (x : K) : lt x x = false := by
  rw [← Bool.not_eq_true, OrderedScalar.lt_iff]
  rintro ⟨v, w, hv, hw, hlt⟩
  rw [hv, Option.some.injEq] at hw
  exact hlt.ne hw

theorem lt_trans {x y z : K} (hxy : lt x y = true) (hyz : lt y z = true) : lt x z = true := by
  obtain ⟨u, v, hu, hv, huv⟩ := OrderedScalar.lt_iff.1 hxy
  obtain ⟨v', w, hv', hw, hvw⟩ := OrderedScalar.lt_iff.1 hyz
  rw [hv, Option.some.injEq] at hv'
  exact OrderedScalar.lt_iff.2 ⟨u, w, hu, hw, huv.trans (hv' ▸ hvw)⟩

/-- Defined scores of which none is greater than the next one. -/
theorem not_lt_trans {x y z : K} (hx : Defined x) (hy : Defined y) (hz : Defined z)
    (hxy : lt x y = false) (hyz : lt y z = false) : lt x z = false := by
  rw [← Bool.not_eq_true, OrderedScalar.lt_iff_level hx hy, not_lt] at hxy
  rw [← Bool.not_eq_true, OrderedScalar.lt_iff_level hy hz, not_lt] at hyz
  rw [← Bool.not_eq_true, OrderedScalar.lt_iff_level hx hz, not_lt]
  exact hyz.trans hxy

theorem le_of_not_lt {x y : K} (hx : Defined x) (hy : Defined y) (h : lt x y = false) :
    le y x = true := by
  rwa [OrderedScalar.le_iff_level hy hx, ← not_lt, ← OrderedScalar.lt_iff_level hx hy,
    Bool.not_eq_true]

theorem not_lt_of_le {x y : K} (h : le y x = true) : lt x y = false := by
  obtain ⟨v, w, hv, hw, hle⟩ := OrderedScalar.le_iff.1 h
  rw [← Bool.not_eq_true, OrderedScalar.lt_iff]
  rintro ⟨w', v', hw', hv', hlt⟩
  rw [Option.some.inj (hw'.symm.trans hw), Option.some.inj (hv'.symm.trans hv)] at hlt
  exact hlt.not_ge hle

/-- Scores that are the same as one score. -/
theorem not_lt_of_same_same {x y z : K} (hx : same x z = true) (hy : same y z = true) :
    lt x y = false := by
  obtain ⟨u, hxu, hzu⟩ := OrderedScalar.same_iff.1 hx
  obtain ⟨v, hyv, hzv⟩ := OrderedScalar.same_iff.1 hy
  obtain rfl := Option.some.inj (hzu.symm.trans hzv)
  rw [← Bool.not_eq_true, OrderedScalar.lt_iff]
  rintro ⟨w, w', hxw, hyw, hlt⟩
  rw [← Option.some.inj (hxu.symm.trans hxw), ← Option.some.inj (hyv.symm.trans hyw)] at hlt
  exact hlt.ne rfl

/-- No score is greater than the maximum, not even if there are undefined ones. -/
theorem not_lt_maximum (x : K) (xs : List K) : ∀ y ∈ x :: xs, lt (maximum x xs) y = false := by
  rw [maximum]
  -- what was seen before is not greater than the best one, and the best one never falls
  suffices h : ∀ best : K, ∀ seen : List K, (∀ y ∈ seen, lt best y = false) → ∀ y ∈ seen ++ xs,
      lt (xs.foldl (fun best y => if lt best y then y else best) best) y = false from
    h x [x] (by simp [lt_irrefl])
  induction xs with
  | nil => simp
  | cons z zs ih =>
    intro best seen hseen
    rw [List.foldl_cons, List.append_cons]
    refine ih _ _ ?_
    intro y hy
    rw [List.mem_append, List.mem_singleton] at hy
    split
    · rename_i hlt
      rcases hy with hy | rfl
      · rw [← Bool.not_eq_true]
        intro hgreater
        have hbest := hseen y hy
        rw [lt_trans hlt hgreater] at hbest
        exact Bool.noConfusion hbest
      · exact lt_irrefl y
    · rename_i hnot
      rcases hy with hy | rfl
      · exact hseen y hy
      · simpa using hnot

end Scalar

variable [OrderedScalar K]

/-- A list that is sorted by defined scores has no greater score behind a smaller one. -/
theorem pairwise_byScore {score : α → K} {xs : List α}
    (h : ∀ x ∈ xs, Scalar.Defined (score x)) :
    (byScore score xs).Pairwise fun a b => Scalar.lt (score a) (score b) = false := by
  have hall : xs.all (hasOrder score) = true := List.all_eq_true.2 h
  rw [byScore, if_pos hall]
  clear hall
  induction xs with
  | nil => exact .nil
  | cons x xs ih =>
    have hx := h x List.mem_cons_self
    have hsorted : ∀ y ∈ sortRanked (outscores score) xs, Scalar.Defined (score y) := fun y hy =>
      h y (List.mem_cons_of_mem x ((sortRanked_perm _ xs).mem_iff.1 hy))
    refine pairwise_placeRanked (ih fun y hy => h y (List.mem_cons_of_mem x hy)) ?_ ?_ ?_
    · intro y hy hlt
      rw [outscores, OrderedScalar.lt_iff_level hx (hsorted y hy)] at hlt
      rw [← Bool.not_eq_true, OrderedScalar.lt_iff_level (hsorted y hy) hx]
      exact hlt.asymm
    · intro y hy hnot
      exact hnot
    · intro y hy z hz hxy hyz
      exact Scalar.not_lt_trans hx (hsorted y hy) (hsorted z hz) hxy hyz

/-- Sorting by defined scores keeps the order of the elements that have the same score. -/
theorem filter_byScore {score : α → K} {xs : List α} (h : ∀ x ∈ xs, Scalar.Defined (score x))
    (s : K) : (byScore score xs).filter (fun a => Scalar.same (score a) s) =
      xs.filter fun a => Scalar.same (score a) s := by
  have hall : xs.all (hasOrder score) = true := List.all_eq_true.2 h
  rw [byScore, if_pos hall, filter_sortRanked]
  intro a b ha hb
  exact Scalar.not_lt_of_same_same hb ha

end Categorial
