import Categorial.Collection.Gallop

/-!
Merging two runs that stand side by side. The merge travels forward, from their first elements, if
the left run is not the longer one, and backward, from their last elements, otherwise. It compares
element with element until one run has won often in a row; then it gallops through both runs in
turn, for as long as that pays. How often a run must win is the patience of the merge, which drops
while galloping pays and grows when it does not. Main statement: merging neither loses nor adds
elements, whatever the comparison says.
-/

namespace Categorial

/-- How a merge goes on. -/
inductive Pace where
  /-- Element by element; either run has won that often in a row. -/
  | comparing (left right : Nat)
  /-- In gallops, for the first time. -/
  | entering
  /-- In further gallops, because the last ones paid. -/
  | galloping
  /-- Element by element again, because the last gallops did not pay. -/
  | leaving

/-- The patience after a change of pace. -/
def Pace.patience (patience : Nat) : Pace → Nat
  | comparing .. | entering => patience
  | galloping => max 1 (patience - 1)
  | leaving => patience + 1

/-- The patience of a merge that has not met any data, and the length of a gallop that pays. -/
def leastGallop : Nat := 7

namespace Merge

variable {α : Type}

/-- Whether the rest of a merge is known: one run has been used up, or a single element is left of
the run that is known to hold the last element. -/
def isOver (backward : Bool) (left right : List α) : Bool :=
  if backward then left.isEmpty || right.length ≤ 1 else right.isEmpty || left.length ≤ 1

/-- The rest of a merge that is over, in the order of its travel. -/
def remains (backward : Bool) (left right : List α) : List α :=
  if backward then left ++ right else right ++ left

/-- The number of elements that a gallop takes from the front of a run, which lies in the order of
travel. -/
def lead (backward : Bool) (before : α → Bool) (run : List α) : Nat :=
  if backward then run.length - gallop before run.reverse.toArray (run.length - 1)
  else gallop before run.toArray 0

/-- A step of a merge: the elements it takes, what it leaves of the runs, and how the merge goes on.
-/
structure Step (α : Type) where
  taken : List α
  left : List α
  right : List α
  pace : Pace

/-- The elements that a step takes and those that it leaves. -/
def Step.all (s : Step α) : List α := s.taken ++ (s.left ++ s.right)

/-- Compares the next elements of the runs and takes one of them. -/
def compareOnce (lt : α → α → Bool) (backward : Bool) (patience wonLeft wonRight : Nat)
    (left right : List α) : Step α :=
  match left, right with
  | x :: left, y :: right =>
    if lt y x != backward then
      ⟨[y], x :: left, right,
        if patience ≤ wonRight + 1 then .entering else .comparing 0 (wonRight + 1)⟩
    else
      ⟨[x], left, y :: right,
        if patience ≤ wonLeft + 1 then .entering else .comparing (wonLeft + 1) 0⟩
  | left, right => ⟨[], left, right, .leaving⟩

/-- Gallops through each run up to the next element of the other one, which is taken as well. Both
gallops end early when they end the merge. -/
def gallopBoth (lt : α → α → Bool) (backward : Bool) (left right : List α) : Step α :=
  match right with
  | [] => ⟨[], left, right, .leaving⟩
  | y :: right =>
    let n := lead backward (fun x => !lt y x) left
    let first := left.take n
    match left.drop n with
    | [] => ⟨first, [], y :: right, .leaving⟩
    | x :: left =>
      if isOver backward (x :: left) (y :: right) then ⟨first, x :: left, y :: right, .leaving⟩
      else if isOver backward (x :: left) right then ⟨first ++ [y], x :: left, right, .leaving⟩
      else
        let m := lead backward (fun y => lt y x) right
        let taken := first ++ y :: right.take m
        if isOver backward (x :: left) (right.drop m) then
          ⟨taken, x :: left, right.drop m, .leaving⟩
        else
          ⟨taken ++ [x], left, right.drop m,
            if leastGallop ≤ n || leastGallop ≤ m then .galloping else .leaving⟩

/-- The step of a merge at a pace. -/
def step (lt : α → α → Bool) (backward : Bool) (patience : Nat) (left right : List α) :
    Pace → Step α
  | .comparing wonLeft wonRight => compareOnce lt backward patience wonLeft wonRight left right
  | .leaving => compareOnce lt backward patience 0 0 left right
  | .entering | .galloping => gallopBoth lt backward left right

/-- Merges two runs that lie in the order of travel, in at most `fuel` steps, each of which takes an
element at least. Gives the patience that is left as well. -/
def travel (lt : α → α → Bool) (backward : Bool) :
    Nat → Pace → Nat → List α → List α → List α × Nat
  | 0, _, patience, left, right => (remains backward left right, patience)
  | fuel + 1, pace, patience, left, right =>
    if isOver backward left right then (remains backward left right, patience)
    else
      let patience := pace.patience patience
      let s := step lt backward patience left right pace
      let rest := travel lt backward fuel s.pace patience s.left s.right
      (s.taken ++ rest.1, rest.2)

/-- Merges two runs forward; the first element is that of the right run. -/
def forward (lt : α → α → Bool) (patience : Nat) (left right : List α) : List α × Nat :=
  let rest := travel lt false (left.length + right.length) (.comparing 0 0) patience left
    (right.drop 1)
  (right.take 1 ++ rest.1, rest.2)

/-- Merges two runs backward; the last element is that of the left run. -/
def backward (lt : α → α → Bool) (patience : Nat) (left right : List α) : List α × Nat :=
  let rest := travel lt true (left.length + right.length) (.comparing 0 0) patience
    (left.reverse.drop 1) right.reverse
  ((left.reverse.take 1 ++ rest.1).reverse, rest.2)

/-- Merges two runs that stand side by side. The start of the left run that goes before the right
run, and the end of the right run that goes behind the left run, stay where they are. -/
def neighbours (lt : α → α → Bool) (patience : Nat) (left right : List α) : List α × Nat :=
  match right.head? with
  | none => (left, patience)
  | some y =>
    let n := gallop (fun x => !lt y x) left.toArray 0
    match (left.drop n).getLast? with
    | none => (left ++ right, patience)
    | some x =>
      let m := gallop (fun y => lt y x) right.toArray (right.length - 1)
      if m = 0 then (left ++ right, patience)
      else
        let middle :=
          if (left.drop n).length ≤ (right.take m).length then
            forward lt patience (left.drop n) (right.take m)
          else backward lt patience (left.drop n) (right.take m)
        (left.take n ++ middle.1 ++ right.drop m, middle.2)

theorem remains_perm (backward : Bool) (left right : List α) :
    (remains backward left right).Perm (left ++ right) := by
  unfold remains
  split
  · exact List.Perm.refl _
  · exact List.perm_append_comm

theorem compareOnce_perm (lt : α → α → Bool) (backward : Bool) (patience wonLeft wonRight : Nat)
    (left right : List α) :
    (compareOnce lt backward patience wonLeft wonRight left right).all.Perm (left ++ right) := by
  unfold compareOnce Step.all
  split
  · rename_i x left y right
    split
    · exact List.perm_append_comm_assoc [y] (x :: left) right
    · exact List.Perm.refl _
  · exact List.Perm.refl _

theorem gallopBoth_perm (lt : α → α → Bool) (backward : Bool) (left right : List α) :
    (gallopBoth lt backward left right).all.Perm (left ++ right) := by
  unfold gallopBoth Step.all
  cases right with
  | nil => exact List.Perm.refl _
  | cons y right =>
    dsimp only
    generalize lead backward (fun x => !lt y x) left = n
    have hn : left = left.take n ++ left.drop n := (List.take_append_drop n left).symm
    cases hd : left.drop n with
    | nil =>
      rw [hd] at hn
      conv => rhs; rw [hn]
      simp
    | cons x rest =>
      rw [hd] at hn
      generalize left.take n = first at hn
      subst hn
      dsimp only
      generalize lead backward (fun y => lt y x) right = m
      have hm : right = right.take m ++ right.drop m := (List.take_append_drop m right).symm
      generalize right.take m = a at hm
      generalize right.drop m = b at hm
      subst hm
      split
      · simp
      · split
        · simp only [List.append_assoc]
          exact List.Perm.append_left _ (List.perm_append_comm_assoc [y] (x :: rest) (a ++ b))
        · split
          · simp only [List.append_assoc]
            exact List.Perm.append_left _ (List.perm_append_comm_assoc (y :: a) (x :: rest) b)
          · simp only [List.append_assoc, List.cons_append, List.nil_append]
            exact List.Perm.append_left _ (List.perm_append_comm_assoc (y :: a) (x :: rest) b)

/-- A step keeps the elements. -/
theorem step_perm (lt : α → α → Bool) (backward : Bool) (patience : Nat) (left right : List α)
    (pace : Pace) : (step lt backward patience left right pace).all.Perm (left ++ right) := by
  cases pace with
  | comparing wonLeft wonRight => exact compareOnce_perm lt backward patience _ _ left right
  | leaving => exact compareOnce_perm lt backward patience _ _ left right
  | entering => exact gallopBoth_perm lt backward left right
  | galloping => exact gallopBoth_perm lt backward left right

/-- Merging in the order of travel keeps the elements. -/
theorem travel_perm (lt : α → α → Bool) (backward : Bool) (fuel : Nat) (pace : Pace)
    (patience : Nat) (left right : List α) :
    (travel lt backward fuel pace patience left right).1.Perm (left ++ right) := by
  induction fuel generalizing pace patience left right with
  | zero => exact remains_perm backward left right
  | succ fuel ih =>
    rw [travel]
    split
    · exact remains_perm backward left right
    · exact (List.Perm.append_left _ (ih _ _ _ _)).trans (step_perm lt backward _ left right pace)

theorem forward_perm (lt : α → α → Bool) (patience : Nat) (left right : List α) :
    (forward lt patience left right).1.Perm (left ++ right) := by
  unfold forward
  refine (List.Perm.append_left _ (travel_perm lt false _ _ _ _ _)).trans ?_
  refine (List.perm_append_comm_assoc _ _ _).trans ?_
  rw [List.take_append_drop]

theorem backward_perm (lt : α → α → Bool) (patience : Nat) (left right : List α) :
    (backward lt patience left right).1.Perm (left ++ right) := by
  unfold backward
  refine (List.reverse_perm _).trans ?_
  refine (List.Perm.append_left _ (travel_perm lt true _ _ _ _ _)).trans ?_
  rw [← List.append_assoc, List.take_append_drop]
  exact (List.reverse_perm left).append (List.reverse_perm right)

/-- Merging keeps the elements of both runs. -/
theorem neighbours_perm (lt : α → α → Bool) (patience : Nat) (left right : List α) :
    (neighbours lt patience left right).1.Perm (left ++ right) := by
  unfold neighbours
  cases hy : right.head? with
  | none =>
    rw [List.head?_eq_none_iff] at hy
    simp [hy]
  | some y =>
    dsimp only
    generalize gallop (fun x => !lt y x) left.toArray 0 = n
    split
    · exact List.Perm.refl _
    · rename_i x _
      generalize gallop (fun y => lt y x) right.toArray (right.length - 1) = m
      split
      · exact List.Perm.refl _
      · have middle : ∀ b : Bool,
            (if b then forward lt patience (left.drop n) (right.take m)
              else backward lt patience (left.drop n) (right.take m)).1.Perm
              (left.drop n ++ right.take m) := by
          intro b
          cases b
          · exact backward_perm lt patience _ _
          · exact forward_perm lt patience _ _
        have := middle (decide ((left.drop n).length ≤ (right.take m).length))
        simp only [decide_eq_true_eq] at this
        refine ((this.append_left (left.take n)).append_right (right.drop m)).trans ?_
        rw [← List.append_assoc, List.take_append_drop, List.append_assoc, List.take_append_drop]

end Merge

end Categorial
