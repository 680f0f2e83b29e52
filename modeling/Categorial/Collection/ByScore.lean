import Categorial.Collection.Runs
import Categorial.Scalar

/-!
Sorting by scores, the greatest first, where equal scores keep the order of the list. An undefined
score is not even the same as itself and orders nothing; then the outcome depends on which elements
are compared with each other, and the list is sorted by its runs. Main statement: sorting neither
loses nor adds elements.
-/

namespace Categorial

variable {α K : Type} [Scalar K]

/-- Whether an element goes before another one because of its score. -/
def outscores (score : α → K) (a b : α) : Bool := Scalar.lt (score b) (score a)

/-- Whether an element has a score that can be compared. -/
def hasOrder (score : α → K) (a : α) : Bool := Scalar.same (score a) (score a)

/-- The elements of a list by their scores, the greatest first. -/
def byScore (score : α → K) (xs : List α) : List α :=
  if xs.all (hasOrder score) then sortRanked (outscores score) xs
  else sortByRuns (outscores score) xs

/-- Sorting by scores keeps the elements of a list. -/
theorem byScore_perm (score : α → K) (xs : List α) : (byScore score xs).Perm xs := by
  unfold byScore
  split
  · exact sortRanked_perm _ xs
  · exact sortByRuns_perm _ xs

end Categorial
