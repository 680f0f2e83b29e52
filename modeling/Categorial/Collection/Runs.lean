import Categorial.Collection.Merge

/-!
Sorting by runs. A list is cut into runs, which are rising or were falling and are turned around,
and of which all but the last have a least length; they are merged in the order that a balanced tree
over their middles gives. On lists that the comparison orders every stable sort gives the same; this
one also says what comes of comparisons that order nothing. Main statement: sorting neither loses
nor adds elements.
-/

namespace Categorial

variable {α : Type}

/-- The longest start of a list, after its element `x`, in which no element is less than the one
before it, and the rest. -/
def risingRun (lt : α → α → Bool) (x : α) : List α → List α × List α
  | [] => ([x], [])
  | y :: ys =>
    if lt y x then ([x], y :: ys)
    else
      let rest := risingRun lt y ys
      (x :: rest.1, rest.2)

/-- The longest start of a list, after its element `x`, in which every element is less than the one
before it, and the rest. -/
def fallingRun (lt : α → α → Bool) (x : α) : List α → List α × List α
  | [] => ([x], [])
  | y :: ys =>
    if lt y x then
      let rest := fallingRun lt y ys
      (x :: rest.1, rest.2)
    else ([x], y :: ys)

/-- The run that a list starts with, in rising order, and the rest. -/
def firstRun (lt : α → α → Bool) : List α → List α × List α
  | [] => ([], [])
  | [x] => ([x], [])
  | x :: y :: ys =>
    if lt y x then
      let run := fallingRun lt x (y :: ys)
      (run.1.reverse, run.2)
    else risingRun lt x (y :: ys)

/-- The run that a list starts with and the rest; a run shorter than `least` takes in the elements
behind it, one by one. -/
def nextRun (lt : α → α → Bool) (least : Nat) (xs : List α) : List α × List α :=
  let run := firstRun lt xs
  let missing := least - run.1.length
  ((run.2.take missing).foldl (fun sorted x => insertRanked lt x sorted) run.1,
    run.2.drop missing)

/-- The number that a list's length is halved to, each half rounded down, until it is below 64, and
whether anything was lost by rounding. -/
def halved (n : Nat) : Nat × Bool :=
  if 64 ≤ n then
    let rest := halved (n / 2)
    (rest.1, rest.2 || n % 2 == 1)
  else (n, false)

/-- The least length of the runs of a list with `n` elements, such that their number is a power of
two or a little less than one. -/
def leastRun (n : Nat) : Nat :=
  let (least, rounded) := halved n
  if rounded then least + 1 else least

/-- A run, with its position in the list, and the depth in the tree at which it was parted from the
run behind it. -/
structure Run (α : Type) where
  items : List α
  start : Nat
  depth : Nat

/-- The depth at which halving `n` parts the middles of two neighbouring runs, given twice the
middles; at most `fuel`. -/
def partingDepth (n : Nat) : Nat → Nat → Nat → Nat
  | 0, _, _ => 0
  | fuel + 1, a, b =>
    if n ≤ a then partingDepth n fuel (2 * (a - n)) (2 * (b - n)) + 1
    else if n ≤ b then 1
    else partingDepth n fuel (2 * a) (2 * b) + 1

/-- Merges a run with the one behind it. -/
def Run.merge (lt : α → α → Bool) (patience : Nat) (left right : Run α) : Run α × Nat :=
  let merged := Merge.neighbours lt patience left.items right.items
  (⟨merged.1, left.start, left.depth⟩, merged.2)

/-- Merges the last run with the ones before it, for as long as they were parted deeper down than
`depth`; the nearest of them comes first in the list. -/
def mergeDeeper (lt : α → α → Bool) (depth : Nat) :
    Run α → List (Run α) → Nat → Run α × List (Run α) × Nat
  | last, [], patience => (last, [], patience)
  | last, run :: runs, patience =>
    if depth < run.depth then
      let merged := run.merge lt patience last
      mergeDeeper lt depth merged.1 runs merged.2
    else (last, run :: runs, patience)

/-- Puts a new run behind the others, the last of which comes first, for a list of `n` elements. -/
def pushRun (lt : α → α → Bool) (n : Nat) (items : List α) (runs : List (Run α)) (patience : Nat) :
    List (Run α) × Nat :=
  match runs with
  | [] => ([⟨items, 0, 0⟩], patience)
  | last :: runs =>
    let start := last.start + last.items.length
    let a := last.start + start
    let depth := partingDepth n (n + 1) a (a + last.items.length + items.length)
    let (last, runs, patience) := mergeDeeper lt depth last runs patience
    (⟨items, start, 0⟩ :: ⟨last.items, last.start, depth⟩ :: runs, patience)

/-- Cuts what is left of a list of `n` elements into runs behind the others. -/
def cutRuns (lt : α → α → Bool) (n : Nat) :
    Nat → List α → List (Run α) → Nat → List (Run α) × Nat
  | 0, _, runs, patience => (runs, patience)
  | _ + 1, [], runs, patience => (runs, patience)
  | fuel + 1, x :: xs, runs, patience =>
    let run := nextRun lt (leastRun n) (x :: xs)
    let pushed := pushRun lt n run.1 runs patience
    cutRuns lt n fuel run.2 pushed.1 pushed.2

/-- Merges all runs, the last of which comes first: the last two, unless the third last is shorter
than the last; it is then merged with the second last. -/
def mergeAll (lt : α → α → Bool) : List (Run α) → Nat → List α
  | [], _ => []
  | [run], _ => run.items
  | [last, run], patience => (run.merge lt patience last).1.items
  | last :: run :: before :: runs, patience =>
    if before.items.length < last.items.length then
      let merged := before.merge lt patience run
      mergeAll lt (last :: merged.1 :: runs) merged.2
    else
      let merged := run.merge lt patience last
      mergeAll lt (merged.1 :: before :: runs) merged.2
termination_by runs => runs.length

/-- Sorts a list by its runs. -/
def sortByRuns (lt : α → α → Bool) (xs : List α) : List α :=
  let cut := cutRuns lt xs.length xs.length xs [] leastGallop
  mergeAll lt cut.1 cut.2

theorem risingRun_append (lt : α → α → Bool) (x : α) (xs : List α) :
    (risingRun lt x xs).1 ++ (risingRun lt x xs).2 = x :: xs := by
  induction xs generalizing x with
  | nil => rfl
  | cons y ys ih =>
    rw [risingRun]
    split
    · rfl
    · simp [ih]

theorem fallingRun_append (lt : α → α → Bool) (x : α) (xs : List α) :
    (fallingRun lt x xs).1 ++ (fallingRun lt x xs).2 = x :: xs := by
  induction xs generalizing x with
  | nil => rfl
  | cons y ys ih =>
    rw [fallingRun]
    split
    · simp [ih]
    · rfl

theorem firstRun_perm (lt : α → α → Bool) (xs : List α) :
    ((firstRun lt xs).1 ++ (firstRun lt xs).2).Perm xs := by
  match xs with
  | [] => exact List.Perm.refl _
  | [x] => exact List.Perm.refl _
  | x :: y :: ys =>
    rw [firstRun]
    split
    · refine ((List.reverse_perm _).append_right _).trans ?_
      rw [fallingRun_append]
    · rw [risingRun_append]

/-- Cutting off a run keeps the elements. -/
theorem nextRun_perm (lt : α → α → Bool) (least : Nat) (xs : List α) :
    ((nextRun lt least xs).1 ++ (nextRun lt least xs).2).Perm xs := by
  unfold nextRun
  refine ((foldl_insertRanked_perm lt _ _).append_right _).trans ?_
  rw [List.append_assoc, List.take_append_drop]
  exact firstRun_perm lt xs

/-- A run that is not empty is cut off a list that is not empty. -/
theorem length_nextRun_lt (lt : α → α → Bool) (least : Nat) (x : α) (xs : List α) :
    (nextRun lt least (x :: xs)).2.length < (x :: xs).length := by
  have hrest : (firstRun lt (x :: xs)).2.length < (x :: xs).length := by
    cases xs with
    | nil => simp [firstRun]
    | cons y ys =>
      rw [firstRun]
      split
      · have := congrArg List.length (fallingRun_append lt x (y :: ys))
        have : 0 < (fallingRun lt x (y :: ys)).1.length := by
          rw [fallingRun]
          split <;> simp
        simp only [List.length_append] at *
        omega
      · have := congrArg List.length (risingRun_append lt x (y :: ys))
        have : 0 < (risingRun lt x (y :: ys)).1.length := by
          rw [risingRun]
          split <;> simp
        simp only [List.length_append] at *
        omega
  simp only [nextRun, List.length_drop]
  omega

theorem merge_perm (lt : α → α → Bool) (patience : Nat) (left right : Run α) :
    (left.merge lt patience right).1.items.Perm (left.items ++ right.items) :=
  Merge.neighbours_perm lt patience left.items right.items

def itemsOf (runs : List (Run α)) : List α := runs.flatMap Run.items

theorem mergeDeeper_perm (lt : α → α → Bool) (depth : Nat) (last : Run α) (runs : List (Run α))
    (patience : Nat) :
    (itemsOf ((mergeDeeper lt depth last runs patience).1 ::
      (mergeDeeper lt depth last runs patience).2.1)).Perm (itemsOf (last :: runs)) := by
  induction runs generalizing last patience with
  | nil => exact List.Perm.refl _
  | cons run runs ih =>
    rw [mergeDeeper]
    split
    · refine (ih _ _).trans ?_
      simp only [itemsOf, List.flatMap_cons]
      rw [← List.append_assoc]
      exact ((merge_perm lt patience run last).trans List.perm_append_comm).append_right _
    · exact List.Perm.refl _

theorem pushRun_perm (lt : α → α → Bool) (n : Nat) (items : List α) (runs : List (Run α))
    (patience : Nat) :
    (itemsOf (pushRun lt n items runs patience).1).Perm (items ++ itemsOf runs) := by
  unfold pushRun
  cases runs with
  | nil => exact List.Perm.refl _
  | cons last runs => exact List.Perm.append_left items (mergeDeeper_perm lt _ last runs patience)

theorem cutRuns_perm (lt : α → α → Bool) (n fuel : Nat) (xs : List α) (runs : List (Run α))
    (patience : Nat) (h : xs.length ≤ fuel) :
    (itemsOf (cutRuns lt n fuel xs runs patience).1).Perm (xs ++ itemsOf runs) := by
  induction fuel generalizing xs runs patience with
  | zero =>
    rw [List.eq_nil_of_length_eq_zero (Nat.le_zero.1 h)]
    exact List.Perm.refl _
  | succ fuel ih =>
    cases xs with
    | nil => exact List.Perm.refl _
    | cons x xs =>
      have hlt := length_nextRun_lt lt (leastRun n) x xs
      rw [cutRuns]
      refine (ih _ _ _ (by omega)).trans ?_
      refine (List.Perm.append_left _ (pushRun_perm lt n _ runs patience)).trans ?_
      rw [← List.append_assoc]
      exact (List.perm_append_comm.trans (nextRun_perm lt _ _)).append_right _

theorem mergeAll_perm (lt : α → α → Bool) (runs : List (Run α)) (patience : Nat) :
    (mergeAll lt runs patience).Perm (itemsOf runs) := by
  fun_induction mergeAll lt runs patience with
  | case1 => exact List.Perm.refl _
  | case2 run => simp [itemsOf]
  | case3 last run patience =>
    simp only [itemsOf, List.flatMap_cons, List.flatMap_nil, List.append_nil]
    exact (merge_perm lt patience run last).trans List.perm_append_comm
  | case4 last run before runs patience h merged ih =>
    refine ih.trans ?_
    simp only [itemsOf, List.flatMap_cons]
    refine List.Perm.append_left _ ?_
    rw [← List.append_assoc]
    exact ((merge_perm lt patience before run).trans List.perm_append_comm).append_right _
  | case5 last run before runs patience h merged ih =>
    refine ih.trans ?_
    simp only [itemsOf, List.flatMap_cons]
    rw [← List.append_assoc last.items]
    exact ((merge_perm lt patience run last).trans List.perm_append_comm).append_right _

/-- Sorting keeps the elements of a list. -/
theorem sortByRuns_perm (lt : α → α → Bool) (xs : List α) : (sortByRuns lt xs).Perm xs := by
  refine (mergeAll_perm lt _ _).trans ?_
  have := cutRuns_perm lt xs.length xs.length xs [] leastGallop (Nat.le_refl _)
  simpa [itemsOf] using this

end Categorial
