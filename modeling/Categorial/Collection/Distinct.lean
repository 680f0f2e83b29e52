/-!
The first occurrences in a list, up to a relation. Main statements: a first occurrence is an element
of the list, and every element of the list is related to a first occurrence.
-/

namespace Categorial

variable {α : Type}

/-- Puts an element at the end, unless one that is related to it is there. -/
def appendNew (same : α → α → Bool) (kept : List α) (x : α) : List α :=
  if kept.any fun y => same y x then kept else kept ++ [x]

/-- The elements of a list without those that are related to an earlier one. -/
def distinct (same : α → α → Bool) (xs : List α) : List α :=
  xs.foldl (appendNew same) []

theorem mem_foldl_appendNew (same : α → α → Bool) (xs kept : List α) {x : α}
    (h : x ∈ xs.foldl (appendNew same) kept) : x ∈ kept ∨ x ∈ xs := by
  induction xs generalizing kept with
  | nil => exact Or.inl h
  | cons y ys ih =>
    rcases ih _ h with h | h
    · unfold appendNew at h
      split at h
      · exact Or.inl h
      · rcases List.mem_append.1 h with h | h
        · exact Or.inl h
        · exact Or.inr (by simp_all)
    · exact Or.inr (List.mem_cons_of_mem _ h)

/-- First occurrences are elements of the list. -/
theorem mem_of_mem_distinct {same : α → α → Bool} {xs : List α} {x : α}
    (h : x ∈ distinct same xs) : x ∈ xs := by
  rcases mem_foldl_appendNew same xs [] h with h | h
  · simp at h
  · exact h

theorem mem_appendNew {same : α → α → Bool} {kept : List α} {y : α} (x : α) (h : y ∈ kept) :
    y ∈ appendNew same kept x := by
  unfold appendNew
  split
  · exact h
  · exact List.mem_append_left _ h

theorem mem_foldl_of_mem {same : α → α → Bool} {y : α} (xs : List α) {kept : List α}
    (h : y ∈ kept) : y ∈ xs.foldl (appendNew same) kept := by
  induction xs generalizing kept with
  | nil => exact h
  | cons x xs ih => exact ih (mem_appendNew x h)

theorem exists_appendNew {same : α → α → Bool} (hrefl : ∀ x, same x x = true) (kept : List α)
    (x : α) : ∃ y ∈ appendNew same kept x, same y x = true := by
  unfold appendNew
  split
  · rename_i h
    exact List.any_eq_true.1 h
  · exact ⟨x, by simp, hrefl x⟩

theorem exists_foldl_appendNew {same : α → α → Bool} (hrefl : ∀ x, same x x = true)
    (xs kept : List α) {x : α} (h : x ∈ xs) :
    ∃ y ∈ xs.foldl (appendNew same) kept, same y x = true := by
  induction xs generalizing kept with
  | nil => simp at h
  | cons a as ih =>
    rcases List.mem_cons.1 h with rfl | h
    · obtain ⟨y, hy, hs⟩ := exists_appendNew hrefl kept x
      exact ⟨y, mem_foldl_of_mem as hy, hs⟩
    · exact ih _ h

/-- Every element of a list is related to one of its first occurrences. -/
theorem exists_distinct {same : α → α → Bool} (hrefl : ∀ x, same x x = true) {xs : List α} {x : α}
    (h : x ∈ xs) : ∃ y ∈ distinct same xs, same y x = true :=
  exists_foldl_appendNew hrefl xs [] h

end Categorial
