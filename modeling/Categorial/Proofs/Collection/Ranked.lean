import Categorial.Collection.Ranked

/-!
Ranked lists. Halving a list finds the end of a prefix, so an insertion by halving puts the new
element where a walk from the front would put it. Main statements: what a cut-off list gives after
an insertion and another cut is what the whole list gives, sorting a list that has one more element
at its end is an insertion into the sorted list, and sorting keeps the order of equals.
-/

namespace Categorial

variable {α β : Type}

/-- Halving finds the end of a prefix: all elements in front of it belong before the position, and
no other element does. -/
theorem halve_eq {before : α → Bool} {xs : Array α} {stop : Nat}
    (hfront : ∀ i (h : i < xs.size), i < stop → before xs[i] = true)
    (hback : ∀ i (h : i < xs.size), stop ≤ i → before xs[i] = false) (lo hi : Nat)
    (hhi : hi ≤ xs.size)
    (hlo : lo ≤ stop) (hstop : stop ≤ hi) : halve before xs lo hi = stop := by
  fun_induction halve before xs lo hi with
  | case1 lo hi h mid hmid hbefore ih =>
    rcases Nat.lt_or_ge mid stop with hlt | hge
    · exact ih hhi hlt hstop
    · rw [hback mid hmid hge] at hbefore
      exact Bool.noConfusion hbefore
  | case2 lo hi h mid hmid hbefore ih =>
    rcases Nat.lt_or_ge mid stop with hlt | hge
    · exact absurd (hfront mid hmid hlt) hbefore
    · exact ih (by omega) hlo hge
  | case3 lo hi h =>
    have : ¬ lo < hi := fun hlt => h ⟨hlt, hhi⟩
    omega

theorem placeRanked_append {lt : α → α → Bool} {x : α} {as : List α}
    (h : ∀ a ∈ as, lt a x = true) (bs : List α) :
    placeRanked lt x (as ++ bs) = as ++ placeRanked lt x bs := by
  induction as with
  | nil => rfl
  | cons a as ih =>
    rw [List.cons_append, placeRanked, if_pos (h a (by simp)),
      ih fun b hb => h b (List.mem_cons_of_mem _ hb), List.cons_append]

theorem placeRanked_eq_cons {lt : α → α → Bool} {x : α} {bs : List α}
    (h : ∀ b ∈ bs, lt b x = false) : placeRanked lt x bs = x :: bs := by
  cases bs with
  | nil => rfl
  | cons b bs => rw [placeRanked, if_neg (by simp [h b])]

theorem placeRanked_eq_concat {lt : α → α → Bool} {x : α} {as : List α}
    (h : ∀ a ∈ as, lt a x = true) : placeRanked lt x as = as ++ [x] := by
  have := placeRanked_append h []
  rwa [List.append_nil, placeRanked] at this

theorem map_placeRanked {lt : α → α → Bool} {lt' : β → β → Bool} {f : α → β} {x : α}
    {xs : List α} (h : ∀ y ∈ xs, lt y x = lt' (f y) (f x)) :
    (placeRanked lt x xs).map f = placeRanked lt' (f x) (xs.map f) := by
  induction xs with
  | nil => rfl
  | cons y ys ih =>
    have hys : ∀ z ∈ ys, lt z x = lt' (f z) (f x) := fun z hz => h z (List.mem_cons_of_mem _ hz)
    simp only [List.map_cons, placeRanked, h y List.mem_cons_self]
    split
    · rw [List.map_cons, ih hys]
    · rfl

/-- Insertion into a sorted list keeps it sorted, if what is passed over goes before the new element
and what is not goes behind it. -/
theorem pairwise_placeRanked {lt : α → α → Bool} {R : α → α → Prop} {x : α} {xs : List α}
    (hxs : xs.Pairwise R) (hfront : ∀ y ∈ xs, lt y x = true → R y x)
    (hback : ∀ y ∈ xs, lt y x = false → R x y)
    (htrans : ∀ y ∈ xs, ∀ z ∈ xs, R x y → R y z → R x z) : (placeRanked lt x xs).Pairwise R := by
  induction xs with
  | nil => exact List.pairwise_singleton R x
  | cons y ys ih =>
    rw [List.pairwise_cons] at hxs
    have hmem : ∀ {z}, z ∈ ys → z ∈ y :: ys := List.mem_cons_of_mem y
    rw [placeRanked]
    split
    · rename_i hy
      refine List.pairwise_cons.2 ⟨fun z hz => ?_, ih hxs.2 (fun z hz => hfront z (hmem hz))
        (fun z hz => hback z (hmem hz)) fun z hz w hw => htrans z (hmem hz) w (hmem hw)⟩
      rcases List.mem_cons.1 ((placeRanked_perm lt x ys).mem_iff.1 hz) with rfl | hz
      · exact hfront y List.mem_cons_self hy
      · exact hxs.1 z hz
    · rename_i hy
      have hxy : R x y := hback y List.mem_cons_self (by simpa using hy)
      refine List.pairwise_cons.2 ⟨fun z hz => ?_, List.pairwise_cons.2 hxs⟩
      rcases List.mem_cons.1 hz with rfl | hz
      · exact hxy
      · exact htrans y List.mem_cons_self z (hmem hz) hxy (hxs.1 z hz)

/-- A new element is among the first `k` if the list was shorter, or if it was as long and the new
element goes in front of one of it. -/
theorem mem_take_placeRanked {lt : α → α → Bool} {x : α} {k : Nat} {xs : List α}
    (h : xs.length < k ∨ xs.length = k ∧ ∃ y ∈ xs, lt y x = false) :
    x ∈ (placeRanked lt x xs).take k := by
  induction xs generalizing k with
  | nil =>
    rcases h with h | ⟨-, y, hy, -⟩
    · obtain ⟨k, rfl⟩ := Nat.exists_eq_succ_of_ne_zero (Nat.ne_of_gt h)
      simp [placeRanked]
    · exact absurd hy List.not_mem_nil
  | cons y ys ih =>
    obtain ⟨k, rfl⟩ : ∃ n, k = n + 1 := by
      refine Nat.exists_eq_succ_of_ne_zero ?_
      rcases h with h | ⟨h, -⟩ <;> simp only [List.length_cons] at h <;> omega
    rw [placeRanked]
    split
    · rename_i hy
      rw [List.take_succ_cons]
      refine List.mem_cons_of_mem _ (ih ?_)
      rcases h with h | ⟨h, z, hz, hzx⟩
      · exact Or.inl (Nat.lt_of_succ_lt_succ h)
      · refine Or.inr ⟨Nat.succ.inj h, z, ?_, hzx⟩
        rcases List.mem_cons.1 hz with rfl | hz
        · rw [hy] at hzx
          exact Bool.noConfusion hzx
        · exact hz
    · rw [List.take_succ_cons]
      exact List.mem_cons_self

/-- Elements that a cut takes off a list do not come back by an insertion: a cut after it gives the
same whether the list was cut before or not. -/
theorem take_placeRanked_take (lt : α → α → Bool) (x : α) (k : Nat) (xs : List α) :
    (placeRanked lt x (xs.take k)).take k = (placeRanked lt x xs).take k := by
  induction xs generalizing k with
  | nil => simp
  | cons y ys ih =>
    cases k with
    | zero => simp
    | succ k =>
      simp only [List.take_succ_cons, placeRanked]
      split
      · rw [List.take_succ_cons, List.take_succ_cons, ih]
      · simp only [List.take_succ_cons]
        cases k with
        | zero => rfl
        | succ k => simp [List.take_take]

/-- Where the elements that the new one goes before are the last ones of the list, halving finds the
same place as a walk from the front. -/
theorem insertRanked_eq_placeRanked {lt : α → α → Bool} {x : α} {xs : List α}
    (h : xs.Pairwise fun y z => lt x y = true → lt x z = true) :
    insertRanked lt x xs = placeRanked (fun y x => !lt x y) x xs := by
  obtain ⟨as, bs, hxs, has, hbs⟩ : ∃ as bs, xs = as ++ bs ∧ (∀ a ∈ as, lt x a = false) ∧
      ∀ b ∈ bs, lt x b = true := by
    induction xs with
    | nil => exact ⟨[], [], rfl, by simp, by simp⟩
    | cons y ys ih =>
      rw [List.pairwise_cons] at h
      by_cases hy : lt x y = true
      · exact ⟨[], y :: ys, rfl, by simp, List.forall_mem_cons.2 ⟨hy, fun z hz => h.1 z hz hy⟩⟩
      · obtain ⟨as, bs, hys, has, hbs⟩ := ih h.2
        exact ⟨y :: as, bs, by rw [hys, List.cons_append],
          List.forall_mem_cons.2 ⟨by simpa using hy, has⟩, hbs⟩
  subst hxs
  have hrank : rankOf lt x (as ++ bs) = as.length := by
    refine halve_eq ?_ ?_ 0 _ (by simp) (Nat.zero_le _) (by simp)
    · intro i hi hlt
      have hget : (as ++ bs).toArray[i] = as[i] := by simp [List.getElem_append_left hlt]
      rw [hget, has _ (List.getElem_mem hlt)]
      rfl
    · intro i hi hge
      have hlt : i - as.length < bs.length := by simp at hi; omega
      have hget : (as ++ bs).toArray[i] = bs[i - as.length] := by
        simp [List.getElem_append_right hge]
      rw [hget, hbs _ (List.getElem_mem hlt)]
      rfl
  rw [insertRanked, hrank, placeRanked_append (by simpa using has),
    placeRanked_eq_cons (by simpa using hbs)]
  simp

/-- An insertion keeps the order of the elements with a property, if the new one goes in front of
those of them that it meets. -/
theorem filter_placeRanked {lt : α → α → Bool} {p : α → Bool} {x : α} {xs : List α}
    (h : p x = true → ∀ y ∈ xs, p y = true → lt y x = false) :
    (placeRanked lt x xs).filter p = (x :: xs).filter p := by
  induction xs with
  | nil => rfl
  | cons y ys ih =>
    have hys := ih fun hx z hz => h hx z (List.mem_cons_of_mem y hz)
    rw [placeRanked]
    split
    · rename_i hlt
      cases hx : p x with
      | false => simp [List.filter_cons, hys, hx]
      | true =>
        have hy : p y = false := by
          rw [Bool.eq_false_iff]
          intro hy
          rw [h hx y List.mem_cons_self hy] at hlt
          exact Bool.noConfusion hlt
        simp [hys, hx, hy]
    · rfl

/-- Sorting keeps the order of the elements with a property, if none of them is less than another
one. -/
theorem filter_sortRanked {lt : α → α → Bool} {p : α → Bool}
    (h : ∀ a b, p a = true → p b = true → lt a b = false) (xs : List α) :
    (sortRanked lt xs).filter p = xs.filter p := by
  induction xs with
  | nil => rfl
  | cons x xs ih =>
    rw [sortRanked, List.foldr_cons, filter_placeRanked fun hx y _ hy => h y x hy hx, ← sortRanked,
      List.filter_cons, List.filter_cons, ih]

/-- The elements with a property come first, if what comes before one of them has it. -/
theorem filter_prefix_of_pairwise {p : α → Bool} {xs : List α}
    (h : xs.Pairwise fun a b => p b = true → p a = true) : xs.filter p <+: xs := by
  induction xs with
  | nil => exact List.prefix_refl []
  | cons x xs ih =>
    obtain ⟨hx, hxs⟩ := List.pairwise_cons.1 h
    cases hp : p x with
    | true =>
      rw [List.filter_cons_of_pos hp]
      exact List.prefix_cons_inj x |>.2 (ih hxs)
    | false =>
      have hnone : (x :: xs).filter p = [] := by
        rw [List.filter_eq_nil_iff, List.forall_mem_cons]
        refine ⟨by simp [hp], fun y hy hpy => ?_⟩
        rw [hx y hy hpy] at hp
        exact Bool.noConfusion hp
      rw [hnone]
      exact List.nil_prefix

section Sorting

variable {le : α → α → Bool} (trans : ∀ a b c, le a b = true → le b c = true → le a c = true)
  (total : ∀ a b, (le a b || le b a) = true)

include trans total

/-- Sorting a list that has one more element at its front is an insertion in front of the elements
that are not less. -/
theorem mergeSort_cons_eq (a : α) (xs : List α) :
    (a :: xs).mergeSort le = placeRanked (fun y x => !le x y) a (xs.mergeSort le) := by
  obtain ⟨front, back, hcons, hxs, hfront⟩ := List.mergeSort_cons trans total a xs
  have hsorted := List.pairwise_mergeSort trans total (a :: xs)
  rw [hcons, List.pairwise_append, List.pairwise_cons] at hsorted
  have hback : ∀ b ∈ back, (!le a b) = false := fun b hb => by simp [hsorted.2.1.1 b hb]
  rw [hcons, hxs, placeRanked_append hfront, placeRanked_eq_cons hback]

/-- An element that goes in front of its equals and one that goes behind them can be inserted in
either order. -/
theorem placeRanked_comm (a x : α) (xs : List α) :
    placeRanked le x (placeRanked (fun y x => !le x y) a xs) =
      placeRanked (fun y x => !le x y) a (placeRanked le x xs) := by
  induction xs with
  | nil =>
    simp only [placeRanked, Bool.not_eq_true']
    cases le a x <;> rfl
  | cons y ys ih =>
    cases hay : le a y with
    | false =>
      cases hyx : le y x with
      | false =>
        have hxy : le x y = true := by simpa [hyx] using total x y
        have hax : le a x = false := by
          rw [Bool.eq_false_iff]
          intro h
          rw [trans a x y h hxy] at hay
          exact Bool.noConfusion hay
        simp [placeRanked, hay, hyx, hax]
      | true => simp [placeRanked, hay, hyx, ih]
    | true =>
      cases hyx : le y x with
      | false => cases hax : le a x <;> simp [placeRanked, hay, hyx, hax]
      | true => simp [placeRanked, hay, hyx, trans a y x hay hyx]

/-- Sorting a list that has one more element at its end is an insertion behind the elements that are
not greater. -/
theorem mergeSort_concat (xs : List α) (x : α) :
    (xs ++ [x]).mergeSort le = placeRanked le x (xs.mergeSort le) := by
  induction xs with
  | nil => simp [placeRanked]
  | cons a xs ih =>
    rw [List.cons_append, mergeSort_cons_eq trans total, ih,
      mergeSort_cons_eq trans total a xs, placeRanked_comm trans total]

end Sorting

/-- Sorting depends on the comparisons of the elements of the list alone. -/
theorem mergeSort_congr {le le' : α → α → Bool} {xs : List α}
    (h : ∀ a ∈ xs, ∀ b ∈ xs, le a b = le' a b) : xs.mergeSort le = xs.mergeSort le' := by
  simpa using List.map_mergeSort (f := id) h

end Categorial
