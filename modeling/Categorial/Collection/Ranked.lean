/-!
Ranked lists: insertion behind everything that is not greater, found by halving the list, and
sorting by plain insertion. The comparison may be any function; where it orders the elements,
insertion keeps a sorted list sorted and elements that compare equal stay in the order of their
arrival. Main statements: insertion and sorting neither lose nor add elements.
-/

namespace Categorial

variable {α : Type}

/-- The position between `lo` and `hi` at which halving ends: it goes on behind the middle element
if that belongs `before` the position, and in front of it otherwise. -/
def halve (before : α → Bool) (xs : Array α) (lo hi : Nat) : Nat :=
  if h : lo < hi ∧ hi ≤ xs.size then
    let mid := (lo + hi) / 2
    have : mid < xs.size := by omega
    if before xs[mid] then halve before xs (mid + 1) hi else halve before xs lo mid
  else lo
termination_by hi - lo
decreasing_by all_goals omega

/-- The position of a new element in a ranked list. -/
def rankOf (lt : α → α → Bool) (x : α) (xs : List α) : Nat :=
  halve (fun y => !lt x y) xs.toArray 0 xs.length

/-- Inserts an element into a ranked list. -/
def insertRanked (lt : α → α → Bool) (x : α) (xs : List α) : List α :=
  let rank := rankOf lt x xs
  xs.take rank ++ x :: xs.drop rank

/-- Puts an element in front of the first one that is not less. -/
def placeRanked (lt : α → α → Bool) (x : α) : List α → List α
  | [] => [x]
  | y :: ys => if lt y x then y :: placeRanked lt x ys else x :: y :: ys

/-- Sorts a list by insertion, from its last element to its first one. -/
def sortRanked (lt : α → α → Bool) (xs : List α) : List α :=
  xs.foldr (placeRanked lt) []

theorem insertRanked_perm (lt : α → α → Bool) (x : α) (xs : List α) :
    (insertRanked lt x xs).Perm (x :: xs) := by
  unfold insertRanked
  exact List.perm_middle.trans (by rw [List.take_append_drop])

theorem foldl_insertRanked_perm (lt : α → α → Bool) (rest start : List α) :
    (rest.foldl (fun sorted z => insertRanked lt z sorted) start).Perm (start ++ rest) := by
  induction rest generalizing start with
  | nil => simp
  | cons z zs ih =>
    refine (ih _).trans ?_
    exact ((insertRanked_perm lt z start).append_right zs).trans List.perm_middle.symm

theorem placeRanked_perm (lt : α → α → Bool) (x : α) (xs : List α) :
    (placeRanked lt x xs).Perm (x :: xs) := by
  induction xs with
  | nil => exact List.Perm.refl _
  | cons y ys ih =>
    rw [placeRanked]
    split
    · exact (ih.cons y).trans (List.Perm.swap x y ys)
    · exact List.Perm.refl _

/-- Sorting keeps the elements of a list. -/
theorem sortRanked_perm (lt : α → α → Bool) (xs : List α) : (sortRanked lt xs).Perm xs := by
  induction xs with
  | nil => exact List.Perm.refl _
  | cons x xs ih => exact (placeRanked_perm lt x (sortRanked lt xs)).trans (ih.cons x)

end Categorial
