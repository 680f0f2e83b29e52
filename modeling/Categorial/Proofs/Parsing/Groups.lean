import Categorial.Parsing.Derivation
import Categorial.Proofs.Collection.Distinct
import Categorial.Proofs.Meaning.Equality

/-!
Cells grouped by their categories. Main statements: the cells of a group have its category, no two
groups have the same category, and every cell is in a group, in the order of the cells.
-/

namespace Categorial.Derivation

variable {K : Type}

theorem group_concat (cs : List (Cell K)) (c : Cell K) :
    group (cs ++ [c]) = place c (group cs) := by
  rw [group, List.foldl_append, List.foldl_cons, List.foldl_nil, ← group]

theorem map_first_place (c : Cell K) (ds : List (Derivation K)) : (place c ds).map first =
    appendNew (fun c c' => c.category.same c'.category) (ds.map first) c := by
  induction ds with
  | nil => rfl
  | cons d ds ih =>
    rw [place]
    by_cases h : d.category.same c.category = true
    · rw [if_pos h, appendNew, if_pos]
      · rfl
      · rw [category] at h
        simp [h]
    · rw [Bool.not_eq_true, category] at h
      rw [if_neg (by simp [category, h]), List.map_cons, ih, appendNew, appendNew]
      simp only [List.map_cons, List.any_cons, h, Bool.false_or]
      split <;> rfl

/-- The groups start with the first cells of each category. -/
theorem map_first_group (cs : List (Cell K)) :
    (group cs).map first = distinct (fun c c' => c.category.same c'.category) cs := by
  induction cs using List.reverseRecOn with
  | nil => rfl
  | append_singleton cs c ih =>
    rw [group_concat, map_first_place, ih, distinct_concat]

/-- The categories of the groups are those of the cells, in the order of their first occurrences. -/
theorem map_category_group (cs : List (Cell K)) :
    (group cs).map category = distinct Category.same (cs.map Cell.category) := by
  rw [distinct_map fun _ _ => rfl, ← map_first_group, List.map_map]
  rfl

/-- Placing a cell starts a group or adds the cell to one of its category, and leaves the others as
they are. -/
theorem mem_place {c : Cell K} {ds : List (Derivation K)} {d : Derivation K}
    (h : d ∈ place c ds) : d ∈ ds ∨ d = ⟨c, []⟩ ∨
      ∃ d' ∈ ds, d'.category.same c.category = true ∧ d = ⟨d'.first, d'.others ++ [c]⟩ := by
  induction ds with
  | nil => exact Or.inr (Or.inl (List.mem_singleton.1 h))
  | cons d' ds ih =>
    rw [place] at h
    split at h
    · rename_i hsame
      rcases List.mem_cons.1 h with rfl | h
      · exact Or.inr (Or.inr ⟨d', List.mem_cons_self, hsame, rfl⟩)
      · exact Or.inl (List.mem_cons_of_mem d' h)
    · rcases List.mem_cons.1 h with rfl | h
      · exact Or.inl List.mem_cons_self
      · rcases ih h with hold | hnew | ⟨d'', hd'', hadded⟩
        · exact Or.inl (List.mem_cons_of_mem d' hold)
        · exact Or.inr (Or.inl hnew)
        · exact Or.inr (Or.inr ⟨d'', List.mem_cons_of_mem d' hd'', hadded⟩)

/-- The cells of a group have its category. -/
theorem category_same_of_mem {cs : List (Cell K)} {d : Derivation K} (hd : d ∈ group cs)
    {c : Cell K} (hc : c ∈ d.cells) : d.category.same c.category = true := by
  induction cs using List.reverseRecOn generalizing d with
  | nil => exact absurd hd List.not_mem_nil
  | append_singleton cs new ih =>
    rw [group_concat] at hd
    rcases mem_place hd with hold | rfl | ⟨d', hd', hsame, rfl⟩
    · exact ih hold hc
    · rw [List.mem_singleton.1 hc]
      exact Category.same_refl _
    · rw [cells, ← List.cons_append, List.mem_append, List.mem_singleton] at hc
      rcases hc with hc | rfl
      · have hcategory : d'.category.same c.category = true := ih hd' hc
        exact hcategory
      · exact hsame

/-- The cells of a group are in the order of the list. -/
theorem cells_sublist_of_mem {cs : List (Cell K)} {d : Derivation K} (hd : d ∈ group cs) :
    d.cells.Sublist cs := by
  induction cs using List.reverseRecOn generalizing d with
  | nil => exact absurd hd List.not_mem_nil
  | append_singleton cs new ih =>
    rw [group_concat] at hd
    rcases mem_place hd with hold | rfl | ⟨d', hd', -, rfl⟩
    · exact (ih hold).trans (List.sublist_append_left cs [new])
    · exact List.sublist_append_right cs [new]
    · exact (ih hd').append_right [new]

/-- No two groups have the same category. -/
theorem pairwise_group (cs : List (Cell K)) :
    (group cs).Pairwise fun d d' => d.category.same d'.category = false := by
  have hcategories := pairwise_distinct Category.same (cs.map Cell.category)
  rwa [← map_category_group, List.pairwise_map] at hcategories

theorem mem_group_iff {cs : List (Cell K)} {c : Cell K} :
    c ∈ cs ↔ ∃ d ∈ group cs, c ∈ d.cells := by
  rw [← (group_perm cs).mem_iff, List.mem_flatMap]

/-- The groups of some cells, in some order. -/
structure Groups (cs : List (Cell K)) (ds : List (Derivation K)) : Prop where
  perm : ds.Perm (group cs)

namespace Groups

variable {cs : List (Cell K)} {ds : List (Derivation K)}

theorem apart (h : Groups cs ds) :
    ds.Pairwise fun d d' => d.category.same d'.category = false := by
  refine h.perm.symm.pairwise (pairwise_group cs) fun {d d'} hapart => ?_
  rwa [Category.same_comm]

theorem mem_iff (h : Groups cs ds) {c : Cell K} : c ∈ cs ↔ ∃ d ∈ ds, c ∈ d.cells := by
  rw [mem_group_iff]
  exact exists_congr fun d => and_congr_left' h.perm.symm.mem_iff

theorem category_same (h : Groups cs ds) {d : Derivation K} (hd : d ∈ ds) {c : Cell K}
    (hc : c ∈ d.cells) : d.category.same c.category = true :=
  category_same_of_mem (h.perm.mem_iff.1 hd) hc

/-- A cell is in the group of its category. -/
theorem mem_cells (h : Groups cs ds) {d : Derivation K} (hd : d ∈ ds) {c : Cell K} (hc : c ∈ cs)
    (hsame : d.category.same c.category = true) : c ∈ d.cells := by
  obtain ⟨d', hd', hc'⟩ := h.mem_iff.1 hc
  have hsame' := Category.same_symm (h.category_same hd' hc')
  rwa [eq_of_pairwise (fun d d' => Category.same_comm d.category d'.category) h.apart hd hd'
    (Category.same_trans hsame hsame')]

end Groups

end Categorial.Derivation
