import Categorial.Scalar

/-!
Exact sums: scores that can always be added, and in any order. Main statements: exact sums of lists
add up, also where some scores of a list may not be found, and rational scores are exact.
-/

namespace Categorial.Scalar

/-- Scores that can always be added, and in any order. -/
structure Exact (K : Type) [Scalar K] : Prop where
  combinable : ∀ x y : K, combinable x y = true
  add_assoc : ∀ x y z : K, x + y + z = x + (y + z)
  add_comm : ∀ x y : K, x + y = y + x
  zero_add : ∀ x : K, 0 + x = x

theorem exact_rat : Exact Rat where
  combinable _ _ := rfl
  add_assoc := Rat.add_assoc
  add_comm := Rat.add_comm
  zero_add := Rat.zero_add

namespace Exact

variable {K : Type} [Scalar K]

theorem plus_eq (h : Exact K) (x y : K) : plus x y = .ok (x + y) := by
  rw [plus, checked, if_pos (h.combinable x y)]

theorem add_zero (h : Exact K) (x : K) : x + 0 = x := by
  rw [h.add_comm, h.zero_add]

theorem add_add_add_comm (h : Exact K) (a b c d : K) : a + b + (c + d) = a + c + (b + d) := by
  rw [h.add_assoc, h.add_assoc, ← h.add_assoc b, ← h.add_assoc c, h.add_comm b c]

theorem foldl_add (h : Exact K) (acc : K) (xs : List K) : xs.foldl (· + ·) acc = acc + sum xs := by
  induction xs generalizing acc with
  | nil => exact (h.add_zero acc).symm
  | cons x xs ih =>
    have hsum : sum (x :: xs) = x + sum xs := by rw [sum, List.foldl_cons, ih, h.zero_add]
    rw [List.foldl_cons, ih, hsum, h.add_assoc]

theorem sum_append (h : Exact K) (xs ys : List K) : sum (xs ++ ys) = sum xs + sum ys := by
  rw [sum, List.foldl_append, h.foldl_add, ← sum]

theorem total_eq (h : Exact K) (xs : List K) : total (xs.map Except.ok) = .ok (sum xs) := by
  suffices hacc : ∀ acc : K, (xs.map Except.ok).foldlM
      (fun acc (x : Except Fault K) => do plus acc (← x)) acc = .ok (xs.foldl (· + ·) acc) from
    hacc 0
  induction xs with
  | nil =>
    intro acc
    exact rfl
  | cons x xs ih =>
    intro acc
    rw [List.map_cons, List.foldlM_cons, List.foldl_cons, ← ih (acc + x)]
    simp only [bind, Except.bind, h.plus_eq]

theorem sum_cons (h : Exact K) (x : K) (xs : List K) : sum (x :: xs) = x + sum xs := by
  rw [sum, List.foldl_cons, h.foldl_add, h.zero_add]

/-- Exact sums do not depend on the order. -/
theorem sum_perm (h : Exact K) {xs ys : List K} (hperm : xs.Perm ys) : sum xs = sum ys := by
  induction hperm with
  | nil => rfl
  | cons x _ ih => rw [h.sum_cons, h.sum_cons, ih]
  | swap x y xs =>
    rw [h.sum_cons, h.sum_cons, h.sum_cons, h.sum_cons, ← h.add_assoc, ← h.add_assoc, h.add_comm y]
  | trans _ _ ih ih' => rw [ih, ih']

theorem sum_singleton (h : Exact K) (x : K) : sum [x] = x := h.zero_add x

/-- A sum from a score on is this score and the sum from zero on. -/
theorem foldlM_plus (h : Exact K) (acc : K) (xs : List (Except Fault K)) :
    xs.foldlM (fun acc x => do plus acc (← x)) acc = (total xs).map (acc + ·) := by
  induction xs generalizing acc with
  | nil => exact congrArg Except.ok (h.add_zero acc).symm
  | cons x xs ih =>
    rw [total, List.foldlM_cons, List.foldlM_cons]
    cases x with
    | error fault => rfl
    | ok a =>
      change (plus acc a).bind _ = ((plus 0 a).bind _).map _
      rw [h.plus_eq, h.plus_eq, h.zero_add]
      refine (ih (acc + a)).trans (.trans ?_ (congrArg _ (ih a).symm))
      cases total xs with
      | error fault => rfl
      | ok b => exact congrArg Except.ok (h.add_assoc acc a b)

/-- A sum is found if its first score and the sum of the others are. -/
theorem total_cons_eq_ok (h : Exact K) {x : Except Fault K} {xs : List (Except Fault K)} {y : K} :
    total (x :: xs) = .ok y ↔ ∃ a b, x = .ok a ∧ total xs = .ok b ∧ y = a + b := by
  rw [total, List.foldlM_cons]
  cases x with
  | error fault => simp [bind, Except.bind]
  | ok a =>
    change (plus 0 a).bind _ = _ ↔ _
    rw [h.plus_eq, h.zero_add, Except.bind, h.foldlM_plus]
    cases total xs with
    | error fault => simp [Except.map]
    | ok b => simp [Except.map, eq_comm]

theorem total_append (h : Exact K) {xs ys : List (Except Fault K)} {x y : K}
    (hx : total xs = .ok x) (hy : total ys = .ok y) : total (xs ++ ys) = .ok (x + y) := by
  rw [total, List.foldlM_append]
  change (total xs).bind _ = _
  rw [hx, Except.bind, h.foldlM_plus, hy]
  rfl

end Exact

end Categorial.Scalar
