import Categorial.Collection.Distinct
import Categorial.Proofs.Collection.Ranked

/-!
The first elements of a ranked list without repetitions. Main statement: an element that is added to
the end of a list changes nothing if a related one is there, and otherwise the first elements are
those after an insertion into the first elements before.
-/

namespace Categorial

variable {α : Type}

/-- The first `k` of the first occurrences in a list, ranked; equals stay in the order of the
list. -/
def top (same le : α → α → Bool) (k : Nat) (xs : List α) : List α :=
  ((distinct same xs).mergeSort le).take k

theorem distinct_concat (same : α → α → Bool) (xs : List α) (x : α) :
    distinct same (xs ++ [x]) = appendNew same (distinct same xs) x := by
  simp [distinct]

/-- No two first occurrences are related. -/
theorem pairwise_distinct (same : α → α → Bool) (xs : List α) :
    (distinct same xs).Pairwise fun a b => same a b = false := by
  suffices h : ∀ kept : List α, kept.Pairwise (fun a b => same a b = false) →
      (xs.foldl (appendNew same) kept).Pairwise fun a b => same a b = false from h [] .nil
  induction xs with
  | nil =>
    intro kept hkept
    exact hkept
  | cons x xs ih =>
    intro kept hkept
    refine ih _ ?_
    unfold appendNew
    split
    · exact hkept
    · rename_i h
      rw [List.pairwise_append]
      refine ⟨hkept, List.pairwise_singleton _ _, fun a ha b hb => ?_⟩
      rw [List.mem_singleton.1 hb]
      simp only [List.any_eq_true, not_exists, not_and, Bool.not_eq_true] at h
      exact h a ha

/-- In a list without related elements, related elements are one element. -/
theorem eq_of_pairwise {same : α → α → Bool} (symm : ∀ a b, same a b = same b a) {xs : List α}
    (h : xs.Pairwise fun a b => same a b = false) {a b : α} (ha : a ∈ xs) (hb : b ∈ xs)
    (hab : same a b = true) : a = b := by
  refine List.Pairwise.forall_of_forall_of_flip (R := fun a b => same a b = true → a = b)
    (fun a _ _ => rfl) (h.imp fun {a b} hfalse hsame => ?_) (h.imp fun {a b} hfalse hsame => ?_)
    ha hb hab
  · rw [hfalse] at hsame
    exact Bool.noConfusion hsame
  · rw [symm, hfalse] at hsame
    exact Bool.noConfusion hsame

variable {same le : α → α → Bool} {k : Nat} {xs : List α} {x : α}

theorem length_top_le : (top same le k xs).length ≤ k := List.length_take_le ..

/-- The first elements are elements of the list. -/
theorem mem_of_mem_top (h : x ∈ top same le k xs) : x ∈ xs :=
  mem_of_mem_distinct (List.mem_mergeSort.1 (List.mem_of_mem_take h))

/-- An element that is related to one of the list changes nothing. -/
theorem top_concat_of_any (h : (distinct same xs).any (fun y => same y x) = true) :
    top same le k (xs ++ [x]) = top same le k xs := by
  rw [top, distinct_concat, appendNew, if_pos h, top]

/-- An element that is not related to any of the list is inserted behind those that it is not
greater than. -/
theorem top_concat_of_not_any (trans : ∀ a b c, le a b = true → le b c = true → le a c = true)
    (total : ∀ a b, (le a b || le b a) = true)
    (h : (distinct same xs).any (fun y => same y x) = false) :
    top same le k (xs ++ [x]) = (placeRanked le x (top same le k xs)).take k := by
  rw [top, distinct_concat, appendNew, if_neg (by simp [h]), mergeSort_concat trans total, top,
    take_placeRanked_take]

/-- An element that is left out goes behind all that are not, which are as many as may be. -/
theorem le_of_not_mem_top (trans : ∀ a b c, le a b = true → le b c = true → le a c = true)
    (total : ∀ a b, (le a b || le b a) = true) (hx : x ∈ distinct same xs)
    (hout : x ∉ top same le k xs) :
    (top same le k xs).length = k ∧ ∀ y ∈ top same le k xs, le y x = true := by
  have hdrop : x ∈ ((distinct same xs).mergeSort le).drop k := by
    have hmem : x ∈ (distinct same xs).mergeSort le := List.mem_mergeSort.2 hx
    rw [← List.take_append_drop k ((distinct same xs).mergeSort le), List.mem_append] at hmem
    exact hmem.resolve_left hout
  have hlength : k < ((distinct same xs).mergeSort le).length := by
    refine Nat.lt_of_not_le ?_
    intro hge
    rw [List.drop_eq_nil_of_le hge] at hdrop
    exact List.not_mem_nil hdrop
  refine ⟨by rw [top, List.length_take]; omega, fun y hy => ?_⟩
  have hsorted := List.pairwise_mergeSort trans total (distinct same xs)
  rw [← List.take_append_drop k ((distinct same xs).mergeSort le), List.pairwise_append] at hsorted
  exact hsorted.2.2 y hy x hdrop

/-- The first elements of a list depend on the comparisons of its elements alone. -/
theorem top_congr {le' : α → α → Bool} (h : ∀ a ∈ xs, ∀ b ∈ xs, le a b = le' a b) :
    top same le k xs = top same le' k xs := by
  rw [top, top, mergeSort_congr fun a ha b hb =>
    h a (mem_of_mem_distinct ha) b (mem_of_mem_distinct hb)]

end Categorial
