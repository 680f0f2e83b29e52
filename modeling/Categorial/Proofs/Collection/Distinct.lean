import Mathlib.Data.List.Induction
import Categorial.Proofs.Collection.Top

/-!
First occurrences of lists that are put together. The relation is reflexive and transitive here.
Main statements: first occurrences may be taken of the parts before they are taken of the whole; a
first occurrence is one of the part that it stands in, to which nothing before is related; and first
occurrences of what is found at some places keep the order of their first places.
-/

namespace Categorial

variable {α : Type} {same : α → α → Bool}

/-- What the relation respects may be asked before or after repetitions are left out. -/
theorem filter_foldl_appendNew {p : α → Bool} (hp : ∀ a b, same a b = true → p a = p b)
    (xs kept : List α) : (xs.foldl (appendNew same) kept).filter p =
      (xs.filter p).foldl (appendNew same) (kept.filter p) := by
  induction xs generalizing kept with
  | nil => rfl
  | cons x xs ih =>
    rw [List.foldl_cons, ih, appendNew, List.filter_cons]
    cases hx : p x with
    | false =>
      have hskip : (kept ++ [x]).filter p = kept.filter p := by simp [hx]
      rw [if_neg Bool.false_ne_true]
      split
      · rfl
      · rw [hskip]
    | true =>
      have hany : (kept.filter p).any (fun y => same y x) = kept.any fun y => same y x := by
        rw [Bool.eq_iff_iff, List.any_eq_true, List.any_eq_true]
        constructor
        · rintro ⟨y, hy, hsame⟩
          exact ⟨y, (List.mem_filter.1 hy).1, hsame⟩
        · rintro ⟨y, hy, hsame⟩
          exact ⟨y, List.mem_filter.2 ⟨hy, (hp y x hsame).trans hx⟩, hsame⟩
      rw [if_pos rfl, List.foldl_cons, appendNew, hany]
      split
      · rfl
      · rw [List.filter_append, List.filter_cons_of_pos hx, List.filter_nil]

theorem distinct_filter {p : α → Bool} (hp : ∀ a b, same a b = true → p a = p b) (xs : List α) :
    distinct same (xs.filter p) = (distinct same xs).filter p :=
  (filter_foldl_appendNew hp xs []).symm

/-- Elements to which nothing before is related are all kept. -/
theorem foldl_appendNew_of_pairwise {kept xs : List α}
    (h : (kept ++ xs).Pairwise fun a b => same a b = false) :
    xs.foldl (appendNew same) kept = kept ++ xs := by
  induction xs generalizing kept with
  | nil => exact (List.append_nil kept).symm
  | cons x xs ih =>
    have hnew : kept.any (fun y => same y x) = false := by
      rw [List.any_eq_false]
      intro y hy
      rw [(List.pairwise_append.1 h).2.2 y hy x List.mem_cons_self]
      exact Bool.false_ne_true
    rw [List.foldl_cons, appendNew, hnew, if_neg Bool.false_ne_true, ih, List.append_assoc,
      List.singleton_append]
    rwa [List.append_assoc, List.singleton_append]

/-- A list without related elements is left as it is. -/
theorem distinct_of_pairwise {xs : List α} (h : xs.Pairwise fun a b => same a b = false) :
    distinct same xs = xs := by
  have hpairwise : ([] ++ xs).Pairwise fun a b => same a b = false := h
  exact foldl_appendNew_of_pairwise hpairwise

/-- First occurrences keep the order of the list. -/
theorem distinct_sublist (same : α → α → Bool) (xs : List α) :
    (distinct same xs).Sublist xs := by
  induction xs using List.reverseRecOn with
  | nil => exact List.Sublist.slnil
  | append_singleton xs x ih =>
    rw [distinct_concat, appendNew]
    split
    · exact ih.trans (List.sublist_append_left xs [x])
    · exact ih.append_right [x]

theorem distinct_distinct (xs : List α) : distinct same (distinct same xs) = distinct same xs :=
  distinct_of_pairwise (pairwise_distinct same xs)

/-- Elements that are related to one that is kept change nothing. -/
theorem foldl_appendNew_filter {kept : List α} {xs : List α} (known : α → Bool)
    (h : ∀ x ∈ xs, known x = true → kept.any (fun y => same y x) = true) :
    (xs.filter fun x => !known x).foldl (appendNew same) kept = xs.foldl (appendNew same) kept := by
  induction xs generalizing kept with
  | nil => rfl
  | cons x xs ih =>
    have hkept : ∀ kept' : List α, kept ⊆ kept' → ∀ y ∈ xs, known y = true →
        kept'.any (fun z => same z y) = true := by
      intro kept' hsub y hy hknown
      obtain ⟨z, hz, hsame⟩ := List.any_eq_true.1 (h y (List.mem_cons_of_mem _ hy) hknown)
      exact List.any_eq_true.2 ⟨z, hsub hz, hsame⟩
    rw [List.filter_cons]
    cases hknown : known x with
    | true =>
      rw [List.foldl_cons, appendNew, if_pos (h x List.mem_cons_self hknown)]
      exact ih (hkept kept (List.Subset.refl _))
    | false => exact ih (hkept _ fun y hy => mem_appendNew x hy)

/-- A map by which related elements are related, and no others, commutes with first occurrences. -/
theorem distinct_map {β : Type} {same' : β → β → Bool} {f : α → β}
    (hf : ∀ a b, same' (f a) (f b) = same a b) (xs : List α) :
    distinct same' (xs.map f) = (distinct same xs).map f := by
  induction xs using List.reverseRecOn with
  | nil => rfl
  | append_singleton xs x ih =>
    have hany : ((distinct same xs).map f).any (fun y => same' y (f x)) =
        (distinct same xs).any fun y => same y x := by
      simp only [List.any_map, Function.comp_def, hf]
    rw [List.map_append, List.map_singleton, distinct_concat, distinct_concat, ih, appendNew,
      appendNew, hany]
    split <;> simp

variable (hrefl : ∀ x, same x x = true)
variable (htrans : ∀ {a b c : α}, same a b = true → same b c = true → same a c = true)

include hrefl htrans

/-- An element is related to a first occurrence just if it is to some element. -/
theorem any_distinct (xs : List α) (x : α) :
    (distinct same xs).any (fun y => same y x) = xs.any fun y => same y x := by
  rw [Bool.eq_iff_iff, List.any_eq_true, List.any_eq_true]
  constructor
  · rintro ⟨y, hy, hsame⟩
    exact ⟨y, mem_of_mem_distinct hy, hsame⟩
  · rintro ⟨y, hy, hsame⟩
    obtain ⟨z, hz, hzy⟩ := exists_distinct hrefl hy
    exact ⟨z, hz, htrans hzy hsame⟩

/-- Elements whose repetitions were left out are as good as the elements themselves. -/
theorem foldl_appendNew_distinct (xs kept : List α) :
    (distinct same xs).foldl (appendNew same) kept = xs.foldl (appendNew same) kept := by
  induction xs using List.reverseRecOn with
  | nil => rfl
  | append_singleton xs x ih =>
    rw [distinct_concat, List.foldl_append, List.foldl_cons, List.foldl_nil, appendNew]
    by_cases hany : (distinct same xs).any (fun y => same y x) = true
    · obtain ⟨y, hy, hsame⟩ := List.any_eq_true.1 hany
      obtain ⟨z, hz, hzy⟩ := exists_foldl_appendNew hrefl xs kept (mem_of_mem_distinct hy)
      have hold : (xs.foldl (appendNew same) kept).any (fun y => same y x) = true :=
        List.any_eq_true.2 ⟨z, hz, htrans hzy hsame⟩
      rw [if_pos hany, ih, appendNew, if_pos hold]
    · rw [if_neg hany, List.foldl_append, ih, List.foldl_cons, List.foldl_nil]

/-- First occurrences may be taken of the parts first. -/
theorem distinct_append (xs ys : List α) :
    distinct same (distinct same xs ++ distinct same ys) = distinct same (xs ++ ys) := by
  rw [distinct, List.foldl_append, foldl_appendNew_distinct hrefl htrans,
    foldl_appendNew_distinct hrefl htrans, ← List.foldl_append, ← distinct]

/-- First occurrences may be taken before a map by which related elements are related. -/
theorem distinct_map_distinct {β : Type} {same' : β → β → Bool} {f : β → α}
    (hf : ∀ a b, same' a b = true → same (f a) (f b) = true) (xs : List β) :
    distinct same ((distinct same' xs).map f) = distinct same (xs.map f) := by
  induction xs using List.reverseRecOn with
  | nil => rfl
  | append_singleton xs x ih =>
    rw [List.map_append, List.map_singleton, distinct_concat, distinct_concat, ← ih, appendNew]
    split
    · rename_i hany
      obtain ⟨y, hy, hsame⟩ := List.any_eq_true.1 hany
      have hold : (distinct same ((distinct same' xs).map f)).any
          (fun z => same z (f x)) = true := by
        rw [any_distinct hrefl htrans, List.any_eq_true]
        exact ⟨f y, List.mem_map_of_mem hy, hf y x hsame⟩
      rw [appendNew, if_pos hold]
    · rw [List.map_append, List.map_singleton, distinct_concat]

/-- A first occurrence is one of the former part, or one of the latter to which none of the former
is related. -/
theorem mem_distinct_append {xs ys : List α} {x : α} : x ∈ distinct same (xs ++ ys) ↔
    x ∈ distinct same xs ∨ x ∈ distinct same ys ∧ xs.any (fun y => same y x) = false := by
  induction ys using List.reverseRecOn with
  | nil => simp [distinct]
  | append_singleton ys y ih =>
    have hany := any_distinct hrefl htrans
    rw [← List.append_assoc, distinct_concat, distinct_concat, appendNew, appendNew, hany, hany,
      List.any_append]
    cases hxs : xs.any (fun z => same z y) <;> cases hys : ys.any (fun z => same z y)
    · simp only [Bool.or_self, Bool.false_eq_true, if_false, List.mem_append, ih,
        List.mem_singleton]
      constructor
      · rintro ((hx | ⟨hx, hnone⟩) | rfl)
        · exact Or.inl hx
        · exact Or.inr ⟨Or.inl hx, hnone⟩
        · exact Or.inr ⟨Or.inr rfl, hxs⟩
      · rintro (hx | ⟨hx | rfl, hnone⟩)
        · exact Or.inl (Or.inl hx)
        · exact Or.inl (Or.inr ⟨hx, hnone⟩)
        · exact Or.inr rfl
    · simpa using ih
    · -- The new element is related to one of the former part and is left out for that.
      simp only [Bool.or_false, if_true, Bool.false_eq_true, if_false, ih, List.mem_append,
        List.mem_singleton]
      refine or_congr_right (and_congr_left fun hnone => ⟨Or.inl, ?_⟩)
      rintro (hx | rfl)
      · exact hx
      · rw [hxs] at hnone
        cases hnone
    · simpa using ih

/-- First occurrences are those of places that stand in some order; each of them is found at a place
before which nothing is related to it. -/
theorem exists_first_places {ι : Type} {before : ι → ι → Prop} {places : List ι}
    (hplaces : places.Pairwise before) (at? : ι → Option α) :
    ∃ first : List ι, first.Sublist places ∧
      first.filterMap at? = distinct same (places.filterMap at?) ∧
      ∀ i ∈ first, ∀ j ∈ places, ∀ x y, at? i = some x → at? j = some y → same y x = true →
        j = i ∨ before i j := by
  induction places using List.reverseRecOn with
  | nil => exact ⟨[], List.Sublist.slnil, rfl, by simp⟩
  | append_singleton places k ih =>
    obtain ⟨hpairwise, -, hlast⟩ := List.pairwise_append.1 hplaces
    obtain ⟨first, hsublist, hfirst, hleast⟩ := ih hpairwise
    have hold : ∀ i ∈ first, ∀ j ∈ places ++ [k], ∀ x y, at? i = some x → at? j = some y →
        same y x = true → j = i ∨ before i j := by
      intro i hi j hj x y hx hy hsame
      rcases List.mem_append.1 hj with hj | hj
      · exact hleast i hi j hj x y hx hy hsame
      · exact Or.inr (hlast i (hsublist.subset hi) j hj)
    rw [List.filterMap_append]
    cases hk : at? k with
    | none =>
      refine ⟨first, hsublist.trans (List.sublist_append_left _ _), ?_, hold⟩
      rw [List.filterMap_cons_none hk, List.filterMap_nil, List.append_nil, hfirst]
    | some z =>
      rw [List.filterMap_cons_some hk, List.filterMap_nil, distinct_concat, appendNew]
      cases hany : (distinct same (places.filterMap at?)).any fun y => same y z with
      | true => exact ⟨first, hsublist.trans (List.sublist_append_left _ _), hfirst, hold⟩
      | false =>
        refine ⟨first ++ [k], hsublist.append_right [k], ?_, fun i hi j hj x y hx hy hsame => ?_⟩
        · rw [List.filterMap_append, List.filterMap_cons_some hk, List.filterMap_nil, hfirst,
            if_neg Bool.false_ne_true]
        · rcases List.mem_append.1 hi with hi | hi
          · exact hold i hi j hj x y hx hy hsame
          · obtain rfl := List.mem_singleton.1 hi
            obtain rfl := Option.some.inj (hk.symm.trans hx)
            rcases List.mem_append.1 hj with hj | hj
            · rw [any_distinct hrefl htrans, List.any_eq_false] at hany
              exact absurd hsame (hany y (List.mem_filterMap.2 ⟨j, hj, hy⟩))
            · exact Or.inl (List.mem_singleton.1 hj)

end Categorial
